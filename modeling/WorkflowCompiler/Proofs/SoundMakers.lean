import WorkflowCompiler.Proofs.SoundBuilding

/-! Makers in sound workspaces. Expressions, references, commands, events and steps hold no objects
beside those that they are made from. -/

namespace WorkflowCompiler.Build

open Value (AllWithin EntriesWithin NamedWithin)

variable {inside : Target → Prop}

section

variable {good : (Target → Prop) → β → Prop}

theorem upholds_mapM [lasting : Lasting good] {each : α → Build β} {items : List α}
    (onEach : ∀ wider, inside ≤ wider → ∀ item ∈ items, Upholds wider good (each item)) :
    Upholds inside (fun inside made => ∀ item ∈ made, good inside item) (items.mapM each) := by
  induction items generalizing inside with
  | nil => exact upholds_of_reads (reads_pure []) fun _ _ _ => gives_ok fun _ member => nomatch member
  | cons first rest ih =>
    rw [List.mapM_cons]
    refine upholds_bind (onEach inside le_rfl first List.mem_cons_self) fun wider made more fine => ?_
    refine upholds_bind (ih fun widest further item member => onEach widest (more.trans further) item (List.mem_cons_of_mem _ member))
      fun widest others further all => ?_
    refine upholds_of_reads (reads_pure _) fun _ _ last => gives_ok (List.forall_mem_cons.mpr ⟨?_, ?_⟩)
    · exact lasting.last last (lasting.last further fine)
    · exact fun item member => lasting.last last (all item member)

theorem upholds_ite {condition : Prop} {_ : Decidable condition} {first second : Build β} (onFirst : Upholds inside good first)
    (onSecond : Upholds inside good second) : Upholds inside good (if condition then first else second) := by
  split
  · exact onFirst
  · exact onSecond

theorem upholds_reads_bind {first : Build α} {next : α → Build β} (reads : Reads first)
    (onNext : ∀ value, Upholds inside good (next value)) : Upholds inside good (first >>= next) :=
  upholds_bind_any (upholds_reads reads) fun _ value more => (onNext value).mono more

theorem upholds_ask_bind {question : Store → Except Failure α} {next : α → Build β} (onNext : ∀ value, Upholds inside good (next value)) :
    Upholds inside good (ask question >>= next) :=
  upholds_reads_bind (reads_ask question) onNext

theorem upholds_ofExcept_bind {result : Except Failure α} {next : α → Build β}
    (onNext : ∀ value, result = .ok value → Upholds inside good (next value)) : Upholds inside good (ofExcept result >>= next) := by
  cases result with
  | ok value => exact onNext value rfl
  | error failure => exact upholds_of_reads (fun _ => rfl) fun _ _ _ => gives_error _ _

theorem upholds_get_bind {next : Workspace → Build β}
    (onNext : ∀ workspace : Workspace, workspace.Sound → inside ≤ workspace.store.Has → Upholds workspace.store.Has good (next workspace)) :
    Upholds inside good (get >>= next) :=
  fun workspace sound more => onNext workspace sound more workspace sound le_rfl

theorem upholds_store_bind {next : Store → Build β}
    (onNext : ∀ store : Store, store.Closed → inside ≤ store.Has → Upholds store.Has good (next store)) :
    Upholds inside good (store >>= next) :=
  upholds_get_bind fun workspace sound more => onNext workspace.store sound.objects more

end

theorem within_expression {identity : Nat} : (Value.expression identity).Within inside ↔ inside (.expression identity) :=
  Value.within_target rfl

/-- A fragment of an expression is there. -/
theorem gives_fragment {value : Value} (within : value.Within inside) :
    Gives (fun fragment? => ∀ inner, fragment? = some (.nested inner) → inside (.expression inner)) (fragment? value) := by
  unfold fragment?
  split
  · exact gives_ok nofun
  · refine gives_ok fun inner same => ?_
    cases same
    exact within_expression.mp within
  · split
    · exact gives_ok nofun
    · exact gives_ok nofun
    · exact gives_ok nofun
    · exact gives_error _ _

theorem upholds_compose {compound : Bool} {values : List Value} (within : AllWithin inside values) :
    Upholds inside Value.Within (compose compound values) := by
  refine upholds_ofExcept_bind fun fragments made => ?_
  have held := gives_mapM (fun value member => gives_fragment (within value member)) fragments made
  refine upholds_bind (upholds_newExpression fun inner member => ?_) fun _ _ _ there => upholds_pure (within_expression.mpr there)
  obtain ⟨fragment, listed, same⟩ := List.mem_filterMap.mp member
  exact held fragment listed inner same

theorem commaSeparated_within {values : List Value} (within : AllWithin inside values) : AllWithin inside (commaSeparated values) := by
  induction values with
  | nil => exact within
  | cons value rest ih =>
    obtain ⟨first, others⟩ := Value.allWithin_cons.mp within
    cases rest with
    | nil => exact within
    | cons next rest => exact Value.allWithin_cons.mpr ⟨first, Value.allWithin_cons.mpr ⟨Value.within_text _, ih others⟩⟩

theorem upholds_text (text : String) : Upholds inside Value.Within (pure (.text text)) := upholds_pure (Value.within_text text)

mutual

theorem upholds_literal {inside : Target → Prop} (value : Value) (within : value.Within inside) : Upholds inside Value.Within (literal value) := by
  unfold literal
  split
  · exact upholds_text _
  · exact upholds_pure within
  · refine upholds_compose (commaSeparated_within fun item member => ?_)
    obtain ⟨_, -, rfl⟩ := List.mem_map.mp member
    exact Value.within_text _
  · next items =>
    exact upholds_bind (upholds_literals items (Value.within_list.mp within)) fun _ _ _ made => upholds_compose (commaSeparated_within made)
  · next items =>
    exact upholds_bind (upholds_literals items (Value.within_tuple.mp within)) fun _ _ _ made => upholds_compose (commaSeparated_within made)
  · split
    · exact upholds_pure within
    · exact upholds_text _
    · exact upholds_text _
    · exact upholds_fail _

theorem upholds_literals {inside : Target → Prop} (values : List Value) (within : AllWithin inside values) :
    Upholds inside AllWithin (literals values) := by
  cases values with
  | nil => exact upholds_pure within
  | cons value rest =>
    obtain ⟨first, others⟩ := Value.allWithin_cons.mp within
    unfold literals
    refine upholds_bind (upholds_literal value first) fun wider made more onMade => ?_
    refine upholds_bind (upholds_literals rest (others.mono more)) fun widest madeRest further onRest => ?_
    exact upholds_pure (Value.allWithin_cons.mpr ⟨onMade.mono further, onRest⟩)

end

theorem upholds_binary {left right : Value} (operator : Operator) (onLeft : left.Within inside) (onRight : right.Within inside) :
    Upholds inside Value.Within (binary left operator right) := by
  refine upholds_bind (upholds_literal left onLeft) fun wider left more onLeft => ?_
  refine upholds_bind (upholds_literal right (onRight.mono more)) fun widest right further onRight => ?_
  exact upholds_compose (by simpa using ⟨onLeft.mono further, onRight⟩)

theorem upholds_binaryNamed {left operator right : Value} (onLeft : left.Within inside) (onRight : right.Within inside) :
    Upholds inside Value.Within (binaryNamed left operator right) := by
  unfold binaryNamed
  split
  · exact upholds_binary _ onLeft onRight
  · exact upholds_ask_bind fun _ => upholds_fail _

theorem upholds_negation {value : Value} (within : value.Within inside) : Upholds inside Value.Within (negation value) :=
  upholds_bind (upholds_literal value within) fun _ _ _ made => upholds_compose (by simpa using made)

theorem upholds_group {value : Value} (within : value.Within inside) : Upholds inside Value.Within (group value) :=
  upholds_bind (upholds_literal value within) fun _ _ _ made => upholds_compose (by simpa using made)

theorem upholds_operand {value : Value} (within : value.Within inside) : Upholds inside Value.Within (operand value) := by
  unfold operand
  split
  · exact upholds_store_bind fun _ _ more => upholds_ite (upholds_group (within.mono more)) (upholds_pure (within.mono more))
  · exact upholds_pure within

theorem upholds_runnerCall {name : String} {arguments : List Value} (within : AllWithin inside arguments) :
    Upholds inside Value.Within (runnerCall name arguments) := by
  refine upholds_bind (upholds_literals arguments within) fun _ _ _ made => upholds_compose ?_
  simpa using commaSeparated_within made

theorem upholds_combineDigits {operation : (width : Nat) → BitVec width → BitVec width → BitVec width} {left right : Value} :
    Upholds inside Value.Within (combineDigits operation left right) := by
  unfold combineDigits
  split
  · exact upholds_pure (Value.within_bool _)
  · exact upholds_pure (Value.within_int _)
  · exact upholds_fail _

theorem upholds_conjoin {left right : Value} (onLeft : left.Within inside) (onRight : right.Within inside) :
    Upholds inside Value.Within (conjoin left right) := by
  refine upholds_ite ?_ upholds_combineDigits
  refine upholds_bind (upholds_operand onLeft) fun wider left more onLeft => ?_
  refine upholds_bind (upholds_operand (onRight.mono more)) fun widest right further onRight => ?_
  exact upholds_binary .and (onLeft.mono further) onRight

theorem upholds_disjoin {left right : Value} (onLeft : left.Within inside) (onRight : right.Within inside) :
    Upholds inside Value.Within (disjoin left right) := by
  unfold disjoin
  split
  · exact upholds_ofExcept (Event.gives_join (Value.within_event.mp onLeft) onRight)
  · exact upholds_pure (Value.within_map.mpr (Event.update_within (Value.within_map.mp onLeft) (Value.within_map.mp onRight)))
  · refine upholds_ite ?_ upholds_combineDigits
    refine upholds_bind (upholds_operand onLeft) fun wider left more onLeft => ?_
    refine upholds_bind (upholds_operand (onRight.mono more)) fun widest right further onRight => ?_
    exact upholds_binary .or (onLeft.mono further) onRight

theorem upholds_invert {value : Value} (within : value.Within inside) : Upholds inside Value.Within (invert value) := by
  unfold invert
  split
  · exact upholds_bind (upholds_operand within) fun _ _ _ made => upholds_negation made
  · split
    · exact upholds_pure (Value.within_int _)
    · exact upholds_fail _

theorem upholds_interpolated {value : Value} (within : value.Within inside) : Upholds inside Any (interpolated value) := by
  refine upholds_bind (upholds_compose (by simpa using within)) fun _ made _ _ => ?_
  split
  · exact upholds_ask_bind fun _ => upholds_pure trivial
  · exact upholds_pure trivial

theorem upholds_concatenation {values : List Value} (within : AllWithin inside values) : Upholds inside Any (concatenation values) := by
  induction values generalizing inside with
  | nil => exact upholds_pure trivial
  | cons value rest ih =>
    obtain ⟨first, others⟩ := Value.allWithin_cons.mp within
    unfold concatenation
    have rest (text : String) {wider : Target → Prop} (more : inside ≤ wider) :
        Upholds wider Any (do return text ++ (← concatenation rest)) :=
      upholds_bind_any (ih (others.mono more)) fun _ _ _ => upholds_pure trivial
    split
    · exact rest _ le_rfl
    · exact upholds_bind_any (upholds_interpolated first) fun _ _ more => rest _ more

theorem reads_ite {condition : Prop} {_ : Decidable condition} {first second : Build α} (onFirst : Reads first) (onSecond : Reads second) :
    Reads (if condition then first else second) := by
  split
  · exact onFirst
  · exact onSecond

theorem reads_forIn {each : α → β → Build (ForInStep β)} {items : List α} {start : β} (onEach : ∀ item state, Reads (each item state)) :
    Reads (forIn items start each) := by
  induction items generalizing start with
  | nil => exact reads_pure start
  | cons item rest ih =>
    rw [List.forIn_cons]
    refine reads_bind (onEach item start) fun next => ?_
    cases next
    · exact reads_pure _
    · exact ih

theorem reads_lineText (value : Value) : Reads (lineText value) := by
  unfold lineText
  split
  · simp
  · simp
  · split <;> simp

theorem reads_segment (value : Value) : Reads (segment value) := by
  unfold segment
  split
  · exact reads_ite (by simp) (by simp)
  · simp

theorem upholds_extend {segments : List Label} {more : List Value} : Upholds inside Value.Within (extend segments more) :=
  upholds_reads_bind (reads_mapM reads_segment) fun _ => upholds_pure (Value.within_path _)

theorem upholds_appendTo {value : Value} {more : List Value} : Upholds inside Value.Within (appendTo value more) := by
  unfold appendTo
  split
  · exact upholds_extend
  · exact upholds_fail _

theorem upholds_index {value : Value} {keys : List Value} (within : value.Within inside) :
    Upholds inside Value.Within (index value keys) := by
  induction keys generalizing value inside with
  | nil => exact upholds_pure within
  | cons key rest ih =>
    unfold index
    split
    · exact upholds_bind upholds_extend fun _ _ _ made => ih made
    · exact upholds_fail _

theorem labels_within (segments : List Label) : AllWithin inside (segments.map Value.ofLabel) := by
  intro value member
  obtain ⟨label, -, rfl⟩ := List.mem_map.mp member
  cases label
  · exact Value.within_text _
  · exact Value.within_choice _

theorem upholds_attributeOf {value : Value} {name : String} : Upholds inside Value.Within (attributeOf value name) := by
  unfold attributeOf
  split
  · have labels (segments : List Label) : Upholds inside Value.Within (return .tuple (segments.map Value.ofLabel)) :=
      upholds_pure (Value.within_tuple.mpr (labels_within segments))
    refine upholds_ite (labels _) (upholds_ite (upholds_pure (Value.within_foreign _ _)) (upholds_ite ?_ upholds_extend))
    exact upholds_ite (labels _) (upholds_fail _)
  · exact upholds_fail _

theorem upholds_attributesOf {value : Value} {names : List String} (within : value.Within inside) :
    Upholds inside Value.Within (attributesOf value names) := by
  induction names generalizing value inside with
  | nil => exact upholds_pure within
  | cons name rest ih => exact upholds_bind upholds_attributeOf fun _ _ _ made => ih made

theorem reads_requireKnown (kind : String) (name : Value) (declared : Option (List Value)) : Reads (requireKnown kind name declared) := by
  unfold requireKnown
  split
  · refine reads_ite (reads_bind (reads_ask _) fun _ => ?_) (by simp)
    split <;> simp
  · simp

theorem upholds_reference {known : Known} {helper : String} {arguments : List Value} :
    Upholds inside Value.Within (reference known helper arguments) := by
  have readsStep (id : Value) : Reads (do
      if known.steps.isSome && !id.isKey then fail .mistyped
      requireKnown "step id" id known.steps) := by
    split
    · rw [fail_bind]
      exact reads_fail _
    · exact reads_requireKnown _ _ _
  unfold reference
  split
  · exact upholds_reads_bind (reads_requireKnown _ _ _) fun _ => upholds_extend
  · exact upholds_reads_bind (reads_requireKnown _ _ _) fun _ => upholds_extend
  · exact upholds_reads_bind (readsStep _) fun _ => upholds_extend
  · exact upholds_reads_bind (readsStep _) fun _ => upholds_bind upholds_extend fun _ _ _ made => upholds_index made
  · exact upholds_reads_bind (reads_requireKnown _ _ _) fun _ => upholds_extend
  · exact upholds_extend
  · exact upholds_extend
  · exact upholds_extend
  · exact upholds_ite (upholds_fail _) (upholds_fail _)

theorem upholds_contextRoot {ambient : Ambient} {name : String} : Upholds inside Value.Within (contextRoot ambient name) := by
  unfold contextRoot
  split
  · exact upholds_ite (upholds_pure (Value.within_path _)) (upholds_fail _)
  · exact upholds_attributeOf

theorem upholds_contextReference {ambient : Ambient} {helper : String} {arguments : List Value} :
    Upholds inside Value.Within (contextReference ambient helper arguments) := by
  unfold contextReference
  split
  · exact upholds_reference
  · exact upholds_fail _

theorem upholds_bindArguments {positional names : List String} {values : List Value} {named : List (String × Value)}
    (onValues : AllWithin inside values) (onNamed : NamedWithin inside named) :
    Upholds inside NamedWithin (bindArguments positional names values named) := by
  unfold bindArguments
  refine upholds_ite (by rw [fail_bind]; exact upholds_fail _) ?_
  refine upholds_reads_bind ?_ fun _ => upholds_pure (List.forall_mem_append.mpr ⟨Value.namedWithin_zip positional onValues, onNamed⟩)
  exact reads_forIn fun _ _ => reads_ite (by simp) (by simp)

theorem upholds_argument {arguments : List (String × Value)} {name : String} (within : NamedWithin inside arguments) :
    Upholds inside Value.Within (argument arguments name) := by
  unfold argument
  split
  · next found => exact upholds_pure (within.lookup found)
  · exact upholds_fail _

theorem argumentOr_within {default : Value} {arguments : List (String × Value)} {name : String} (within : NamedWithin inside arguments)
    (onDefault : default.Within inside) : (argumentOr default arguments name).Within inside :=
  Value.within_getD (fun _ found => within.lookup found) onDefault

theorem line_within (text : String) : (line text).Within inside := Value.within_command.mpr (Value.within_text text)

theorem upholds_notice {kind : String} {message : Value} {arguments : List (String × Value)} :
    Upholds inside Value.Within (notice kind message arguments) := by
  refine upholds_reads_bind (reads_mapM fun property => reads_bind (reads_lineText _) fun _ => reads_pure _) fun _ => ?_
  exact upholds_reads_bind (reads_lineText _) fun _ => upholds_pure (line_within _)

theorem reads_setting (name value : Value) (file : String) : Reads (setting name value file) :=
  reads_bind (reads_ask _) fun _ => reads_bind (reads_lineText _) fun _ => reads_pure _

theorem upholds_directive {kind : CommandKind} {values : List Value} {named : List (String × Value)}
    (onValues : AllWithin inside values) (onNamed : NamedWithin inside named) :
    Upholds inside Value.Within (directive kind values named) := by
  cases kind with
  | debug | mask =>
    refine upholds_bind (upholds_bindArguments onValues onNamed) fun _ _ _ within => ?_
    refine upholds_bind (upholds_argument within) fun _ _ _ _ => ?_
    exact upholds_reads_bind (reads_lineText _) fun _ => upholds_pure (line_within _)
  | notice =>
    refine upholds_bind (upholds_bindArguments onValues onNamed) fun _ _ _ within => ?_
    exact upholds_bind (upholds_argument within) fun _ _ _ _ => upholds_notice
  | output | env =>
    refine upholds_bind (upholds_bindArguments onValues onNamed) fun _ _ _ within => ?_
    refine upholds_bind (upholds_argument within) fun _ _ more _ => ?_
    refine upholds_bind (upholds_argument (within.mono more)) fun _ _ _ _ => ?_
    exact upholds_reads_bind (reads_setting _ _ _) fun _ => upholds_pure (Value.within_command.mpr (Value.within_text _))
  | group =>
    refine upholds_bind (upholds_bindArguments onValues onNamed) fun _ _ _ within => ?_
    refine upholds_ask_bind fun _ => upholds_bind (upholds_argument within) fun _ commands _ onCommands => ?_
    refine upholds_ofExcept_bind fun items listed => upholds_pure (Value.within_list.mpr ?_)
    have onItems := Value.gives_iterate onCommands items listed
    exact Value.allWithin_append.mpr ⟨Value.allWithin_cons.mpr ⟨line_within _, onItems⟩, by simpa using line_within _⟩
  | verbatim =>
    refine upholds_bind (upholds_bindArguments onValues onNamed) fun _ _ _ within => ?_
    exact upholds_bind (upholds_argument within) fun _ _ _ onLine => upholds_pure (Value.within_command.mpr onLine)

theorem upholds_copied {value : Value} (within : value.Within inside) : Upholds inside Value.Within (copied value) := by
  refine upholds_ofExcept_bind fun _ _ => upholds_ite ?_ (upholds_pure (Value.within_map.mpr Value.entriesWithin_nil))
  exact upholds_ofExcept_bind fun entries made => upholds_pure (Value.within_map.mpr (Value.gives_toEntries within entries made))

theorem settingDefault_within {kind : EventKind} {name : String} {value : Value} (default : settingDefault kind name = some value) :
    value.Within inside := by
  unfold settingDefault at default
  split at default <;> cases default
  · exact Value.within_bool _
  · exact Value.within_map.mpr Value.entriesWithin_nil
  · exact Value.within_map.mpr Value.entriesWithin_nil
  · exact Value.within_null

theorem upholds_settings {kind : EventKind} {arguments : List (String × Value)} (within : NamedWithin inside arguments) :
    Upholds inside AllWithin (settings kind arguments) := by
  refine upholds_mapM fun wider more name _ => ?_
  split
  · next value given =>
    refine upholds_pure ?_
    rcases Option.or_eq_some_iff.mp given with found | ⟨-, default⟩
    · exact (within.lookup found).mono more
    · exact settingDefault_within default
  · exact upholds_fail _

theorem inputDefault_within (name : String) : (inputDefault name).Within inside := by
  unfold inputDefault
  split
  · exact Value.within_bool _
  · exact Value.within_list.mpr Value.allWithin_nil
  · exact Value.within_null

theorem upholds_makeEvent {factory : Factory} {values : List Value} {named : List (String × Value)}
    (onValues : AllWithin inside values) (onNamed : NamedWithin inside named) :
    Upholds inside Value.Within (makeEvent factory values named) := by
  have event {wider : Target → Prop} (kind : EventKind) {settings : List Value} (within : AllWithin wider settings) :
      Upholds wider Value.Within (pure (.event kind settings)) := upholds_pure (Value.within_event.mpr within)
  have copies {wider : Target → Prop} (kind : EventKind) {settings : List Value} (within : AllWithin wider settings) :
      Upholds wider Value.Within (do return .event kind (← settings.mapM copied)) :=
    upholds_bind (upholds_mapM fun _ more value member => upholds_copied ((within value member).mono more)) fun _ _ _ made => event kind made
  have single {wider : Target → Prop} {items : List Value} (within : AllWithin wider items) : AllWithin wider [.list items] :=
    Value.allWithin_cons.mpr ⟨Value.within_list.mpr within, Value.allWithin_nil⟩
  unfold makeEvent
  split
  · split
    · exact event _ (single (by simpa using onNamed _ List.mem_cons_self))
    · exact upholds_fail _
    · exact event _ (single onValues)
    · exact upholds_fail _
  · refine upholds_bind (upholds_bindArguments onValues onNamed) fun _ arguments _ within => ?_
    refine upholds_bind (upholds_argument within) fun wider workflows more onWorkflows => upholds_ofExcept_bind fun items listed => ?_
    have onItems := Value.gives_iterate onWorkflows items listed
    have other (name : String) : (argumentOr .null arguments name).Within wider := argumentOr_within (within.mono more) Value.within_null
    exact event _ (by simpa [Value.within_list] using ⟨onItems, other _, other _⟩)
  · refine upholds_bind (upholds_bindArguments onValues onNamed) fun _ _ _ within => ?_
    refine upholds_bind (upholds_settings within) fun _ _ _ onSettings => ?_
    split
    · exact copies _ onSettings
    · exact copies _ onSettings
    · exact event _ onSettings
  · refine upholds_bind (upholds_bindArguments onValues onNamed) fun _ _ _ within => ?_
    exact upholds_bind (upholds_settings within) fun _ _ _ onSettings => event _ onSettings
  · refine upholds_bind (upholds_bindArguments onValues onNamed) fun _ _ _ within => upholds_pure (Value.within_input.mpr fun value member => ?_)
    obtain ⟨name, -, rfl⟩ := List.mem_map.mp member
    exact argumentOr_within within (inputDefault_within name)

theorem within_set {step : Step} {field : StepField} {value : Value} (within : step.Within inside) (onValue : value.Within inside) :
    (step.set field value).Within inside := by
  intro other
  show (if other = field then value else step.fields other).Within inside
  split
  · exact onValue
  · exact within other

theorem fresh_within : ({} : Step).Within inside := fun _ => Value.within_null

instance : Lasting fun (inside : Target → Prop) (entry : String × Value) => entry.2.Within inside := ⟨fun more within => within.mono more⟩

theorem parameter_within {preset : Preset} {parameter : String × String × Option Value} (listed : parameter ∈ preset.parameters)
    {value : Value} (default : parameter.2.2 = some value) : value.Within inside := by
  cases preset <;> simp only [Preset.parameters, List.mem_cons, List.not_mem_nil, or_false] at listed
  case cache | uploadArtifact | downloadArtifact =>
    rcases listed with rfl | rfl <;> cases default <;> exact Value.within_null
  all_goals
    subst listed
    cases default
    exact Value.within_text _

theorem upholds_toStep {preset : Preset} {values : List Value} {named : List (String × Value)}
    (onValues : AllWithin inside values) (onNamed : NamedWithin inside named) :
    Upholds inside Step.Within (preset.toStep values named) := by
  unfold Preset.toStep
  refine upholds_bind (upholds_bindArguments onValues onNamed) fun wider arguments more within => ?_
  refine upholds_bind (?_ : Upholds wider NamedWithin _) fun widest own further onOwn => ?_
  · refine upholds_mapM fun widest further parameter listed => ?_
    obtain ⟨name, input, default⟩ := parameter
    dsimp only
    split
    · next value given =>
      have onValue : value.Within widest := by
        rcases Option.or_eq_some_iff.mp given with found | ⟨-, default⟩
        · exact (within.lookup found).mono further
        · exact parameter_within listed default
      refine upholds_pure ?_
      show (preset.input value).Within widest
      unfold Preset.input
      split
      · split
        · exact Value.within_null
        · exact onValue
      · exact onValue
    · exact upholds_fail _
  have added : Step.Within widest (Step.set {} .uses (.text preset.action)) := within_set fresh_within (Value.within_text _)
  refine upholds_ite (by rw [fail_bind]; exact upholds_fail _) (upholds_pure ?_)
  split
  · exact added
  · refine within_set added (Value.within_map.mpr (Event.update_within Value.entriesWithin_nil fun entry member => ?_))
    obtain ⟨setting, listed, rfl⟩ := List.mem_map.mp member
    refine ⟨Value.within_text _, ?_⟩
    rcases List.mem_append.mp (List.mem_filter.mp listed).1 with mine | other
    · exact onOwn setting mine
    · exact (onNamed setting (List.mem_filter.mp other).1).mono (more.trans further)

end WorkflowCompiler.Build
