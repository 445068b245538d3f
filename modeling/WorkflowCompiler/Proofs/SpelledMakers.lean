import Mathlib.Tactic.NthRewrite
import WorkflowCompiler.Builder.Composition
import WorkflowCompiler.Builder.Reference
import WorkflowCompiler.Builder.Directive
import WorkflowCompiler.Builder.Preset
import WorkflowCompiler.Builder.EventMaker
import WorkflowCompiler.Proofs.SpelledBuilding

/-! The makers of values, run on values and on their spelled copies: expressions, references,
commands, steps for common actions, and events. A literal, a fragment and a segment take the text
that a member stands for. A command takes the text of what it is given, so that it has to be one
that shows no member. -/

namespace WorkflowCompiler.Build

open Value (spelled spelledNamed)

variable {workspace : Workspace}

section composition

@[simp] theorem isExpression_spelled (value : Value) : isExpression value.spelled = isExpression value := by
  cases value <;> rfl

theorem fragment?_spelled (value : Value) :
    Agrees (Option.map Fragment.spelled · = ·) (fragment? value) (fragment? value.spelled) := by
  cases value with
  | null => exact .ok rfl
  | bool value => exact .ok rfl
  | int value => exact .ok rfl
  | float value => exact .ok rfl
  | text value => exact .ok rfl
  | choice value => exact .ok rfl
  | path segments => exact .ok rfl
  | expression identity => exact .ok rfl
  | pathLike identity segments =>
    have same := Value.segments?_spelled (.pathLike identity segments)
    simp only [spelled] at same
    simp only [spelled, fragment?, same]
    cases (Value.pathLike identity segments).segments? with
    | some labels => exact .ok rfl
    | none => exact .fail rfl
  | _ => exact .fail rfl

theorem addFragments_alike (identity : Nat) (values : List Value) :
    Alike Eq (addFragments identity values) (addFragments identity (values.map spelled)) workspace := by
  induction values generalizing workspace with
  | nil => exact .pure rfl
  | cons value rest ih =>
    rw [List.map_cons, addFragments, addFragments]
    refine (Alike.ofExcept (fragment?_spelled value)).next fun fragment between _ => ?_
    cases fragment with
    | none => exact ih
    | some fragment =>
      refine (Alike.modifyExpression identity fun expression => ?_).next fun _ _ _ => ih
      simp [Expression.spelled]

theorem compose_alike (compound : Bool) (values : List Value) :
    Alike (spelled · = ·) (compose compound values) (compose compound (values.map spelled)) workspace := by
  refine (Alike.ofExcept (Agrees.mapM (Option.map Fragment.spelled) fun value _ => fragment?_spelled value)).next fun fragments between _ => ?_
  have made : Expression.spelled { contents := fragments.filterMap id, compound } =
      { contents := (fragments.map (Option.map Fragment.spelled)).filterMap id, compound } := by
    simp [Expression.spelled, List.map_filterMap, List.filterMap_map]
  rw [← made]
  refine (Alike.newExpression _).next fun identity _ _ => ?_
  exact .pure rfl

theorem commaSeparated_spelled (values : List Value) : commaSeparated (values.map spelled) = (commaSeparated values).map spelled := by
  induction values with
  | nil => rfl
  | cons value rest ih =>
    cases rest with
    | nil => rfl
    | cons second rest =>
      simp only [commaSeparated, List.map_cons, List.intersperse_cons_cons] at ih ⊢
      rw [ih]
      rfl

mutual

theorem literal_alike {workspace : Workspace} (value : Value) : Alike (spelled · = ·) (literal value) (literal value.spelled) workspace := by
  cases value with
  | null => exact .pure rfl
  | bool value => exact .pure rfl
  | int value => exact .pure rfl
  | float value => exact .pure rfl
  | text value => exact .pure rfl
  | choice value => exact .pure rfl
  | path segments => exact .pure rfl
  | expression identity => exact .pure rfl
  | pathLike identity segments =>
    have same := Value.segments?_spelled (.pathLike identity segments)
    simp only [spelled] at same
    simp only [spelled, literal, same]
    cases (Value.pathLike identity segments).segments? with
    | some labels => exact .pure rfl
    | none => exact .fail rfl
  | bytes values =>
    simp only [spelled, literal]
    have texts : (commaSeparated (values.map fun value => .text (toString value))).map spelled =
        commaSeparated (values.map fun value => .text (toString value)) := by
      rw [← commaSeparated_spelled, List.map_map]
      rfl
    nth_rewrite 2 [← texts]
    exact compose_alike false _
  | list items =>
    simp only [spelled, Value.spelledItems_eq, literal]
    refine (literals_alike items).next fun made between _ => ?_
    rw [commaSeparated_spelled]
    exact compose_alike false _
  | tuple items =>
    simp only [spelled, Value.spelledItems_eq, literal]
    refine (literals_alike items).next fun made between _ => ?_
    rw [commaSeparated_spelled]
    exact compose_alike false _
  | _ => exact .fail rfl

theorem literals_alike {workspace : Workspace} (values : List Value) :
    Alike (List.map spelled · = ·) (literals values) (literals (values.map spelled)) workspace := by
  cases values with
  | nil => exact .pure rfl
  | cons value rest =>
    rw [List.map_cons, literals, literals]
    refine (literal_alike value).next fun made between _ => ?_
    refine (literals_alike rest).next fun others after _ => ?_
    exact .pure rfl

end

section

variable (left right value : Value)

theorem binary_alike (operator : Operator) :
    Alike (spelled · = ·) (binary left operator right) (binary left.spelled operator right.spelled) workspace := by
  refine (literal_alike left).next fun left _ _ => ?_
  refine (literal_alike right).next fun right _ _ => ?_
  exact compose_alike true [left, .text " ", .text operator.text, .text " ", right]

theorem binaryNamed_alike (operator : Value) :
    Alike (spelled · = ·) (binaryNamed left operator right) (binaryNamed left.spelled operator.spelled right.spelled) workspace := by
  rw [binaryNamed, binaryNamed, Value.chars?_spelled]
  cases operator.chars?.bind Operator.ofText? with
  | some operator => exact binary_alike left right operator
  | none => exact (Alike.ask (workspace.store.anyShown_spelled operator)).bind fun _ _ _ _ _ => .fail rfl

theorem negation_alike : Alike (spelled · = ·) (negation value) (negation value.spelled) workspace := by
  refine (literal_alike value).next fun literal _ _ => ?_
  exact compose_alike false [.text "!", literal]

theorem group_alike : Alike (spelled · = ·) (group value) (group value.spelled) workspace := by
  refine (literal_alike value).next fun literal _ _ => ?_
  exact compose_alike false [.text "(", literal, .text ")"]

theorem operand_alike : Alike (spelled · = ·) (operand value) (operand value.spelled) workspace := by
  cases value with
  | expression identity =>
    refine Alike.store.next fun store between ran => ?_
    have same : (store.spelled.expression identity).compound = (store.expression identity).compound := by
      rw [Store.expression_spelled]
      rfl
    rw [same]
    split
    · exact group_alike (.expression identity)
    · exact .pure rfl
  | _ => exact .pure rfl

theorem conjunction_alike : Alike (spelled · = ·) (conjunction left right) (conjunction left.spelled right.spelled) workspace := by
  refine (operand_alike left).next fun left _ _ => ?_
  refine (operand_alike right).next fun right _ _ => ?_
  exact binary_alike left right .and

theorem disjunction_alike : Alike (spelled · = ·) (disjunction left right) (disjunction left.spelled right.spelled) workspace := by
  refine (operand_alike left).next fun left _ _ => ?_
  refine (operand_alike right).next fun right _ _ => ?_
  exact binary_alike left right .or

theorem combineDigits_alike (operation : (width : Nat) → BitVec width → BitVec width → BitVec width) :
    Alike (spelled · = ·) (combineDigits operation left right) (combineDigits operation left.spelled right.spelled) workspace := by
  cases left with
  | bool left =>
    cases right with
    | bool right => exact .pure rfl
    | int right => exact .pure rfl
    | _ => exact .fail rfl
  | int left =>
    cases right with
    | bool right => exact .pure rfl
    | int right => exact .pure rfl
    | _ => exact .fail rfl
  | _ => exact .fail rfl

theorem conjoin_alike : Alike (spelled · = ·) (conjoin left right) (conjoin left.spelled right.spelled) workspace := by
  rw [conjoin, conjoin, isExpression_spelled, isExpression_spelled]
  split
  · exact conjunction_alike left right
  · exact combineDigits_alike left right _

theorem disjoin_alike : Alike (spelled · = ·) (disjoin left right) (disjoin left.spelled right.spelled) workspace := by
  have other : Alike (spelled · = ·)
      (if isExpression left || isExpression right then disjunction left right
        else combineDigits (fun _ left right => left ||| right) left right)
      (if isExpression left.spelled || isExpression right.spelled then disjunction left.spelled right.spelled
        else combineDigits (fun _ left right => left ||| right) left.spelled right.spelled) workspace := by
    rw [isExpression_spelled, isExpression_spelled]
    split
    · exact disjunction_alike left right
    · exact combineDigits_alike left right _
  cases left with
  | event kind settings =>
    have joined := Event.join_spelled kind settings right
    simp only [spelled, Value.spelledItems_eq]
    exact .ofExcept joined
  | map entries =>
    cases right with
    | map more =>
      simp only [spelled, Value.spelledEntries_eq, disjoin, Event.update_spelled]
      exact .pure (by simp [spelled])
    | _ => exact other
  | _ => exact other

theorem invert_alike : Alike (spelled · = ·) (invert value) (invert value.spelled) workspace := by
  cases value with
  | expression identity =>
    refine (operand_alike (.expression identity)).next fun operand _ _ => ?_
    exact negation_alike operand
  | bool value => exact .pure rfl
  | int value => exact .pure rfl
  | _ => exact .fail rfl

theorem expressionText_alike (identity : Nat) :
    Alike Eq (ask (·.expressionText identity)) (ask (·.expressionText identity)) workspace :=
  .ask (by rw [Store.expressionText_spelled]; exact .refl _)

/-- A text that shows no member. -/
theorem wording_alike {value : Value} (settled : value.settled) :
    Alike Eq (ask (·.wording value)) (ask (·.wording value.spelled)) workspace :=
  .ask (workspace.store.settledWording settled)

theorem interpolated_alike : Alike Eq (interpolated value) (interpolated value.spelled) workspace := by
  refine (compose_alike false [value]).next fun made between _ => ?_
  cases made with
  | expression identity =>
    refine (expressionText_alike identity).next fun text _ _ => ?_
    exact .pure rfl
  | _ => exact .pure rfl

theorem concatenation_alike (values : List Value) :
    Alike Eq (concatenation values) (concatenation (values.map spelled)) workspace := by
  induction values generalizing workspace with
  | nil => exact .pure rfl
  | cons value rest ih =>
    rw [List.map_cons, concatenation, concatenation, Value.chars?_spelled]
    have later (text : String) {workspace : Workspace} :
        Alike Eq (do return text ++ (← concatenation rest)) (do return text ++ (← concatenation (rest.map spelled))) workspace := by
      refine ih.next fun others _ _ => ?_
      exact .pure rfl
    cases value.chars? with
    | some text => exact later text
    | none =>
      refine (interpolated_alike value).next fun text _ _ => ?_
      exact later text

theorem runnerCall_alike (name : String) (arguments : List Value) :
    Alike (spelled · = ·) (runnerCall name arguments) (runnerCall name (arguments.map spelled)) workspace := by
  refine (literals_alike arguments).next fun literals _ _ => ?_
  have whole : (Value.text (name ++ "(") :: commaSeparated literals ++ [Value.text ")"]).map spelled =
      .text (name ++ "(") :: commaSeparated (literals.map spelled) ++ [Value.text ")"] := by
    rw [List.map_append, List.map_cons, commaSeparated_spelled]
    rfl
  rw [← whole]
  exact compose_alike false _

theorem lineText_alike (settled : value.settled) : Alike Eq (lineText value) (lineText value.spelled) workspace := by
  have worded : Alike Eq (ask (·.wording value)) (ask (·.wording value.spelled)) workspace := wording_alike settled
  cases value with
  | expression identity =>
    refine (expressionText_alike identity).next fun text _ _ => ?_
    exact .pure rfl
  | bool value => exact .pure rfl
  | path segments => exact .pure (by rw [dotted_spelled])
  | pathLike identity segments =>
    have same := Value.segments?_spelled (.pathLike identity segments)
    simp only [spelled] at same worded
    simp only [spelled, lineText, same]
    cases (Value.pathLike identity segments).segments? with
    | some labels => exact .pure (by rw [dotted_spelled])
    | none => exact worded
  | _ => exact worded

end

end composition

section reference

/-- A failure whose message is made first. -/
theorem failWith_alike {same : α → β → Prop} {message copy : Build γ} {cause other : γ → Cause}
    (made : Alike (fun _ _ => True) message copy workspace) (alike : ∀ text copied, (cause text).category = (other copied).category) :
    Alike same (do fail (cause (← message))) (do fail (other (← copy))) workspace :=
  made.bind fun _ _ _ _ _ => .fail (alike _ _)

theorem shown_alike (value : Value) : Alike (fun _ _ => True) (ask (·.shown value)) (ask (·.shown value.spelled)) workspace :=
  .ask (workspace.store.anyShown_spelled value)

theorem anyWording_alike (value : Value) : Alike (fun _ _ => True) (ask (·.wording value)) (ask (·.wording value.spelled)) workspace :=
  .ask (workspace.store.anyWording_spelled value)

theorem segment_alike (value : Value) : Alike (Label.spelled · = ·) (segment value) (segment value.spelled) workspace := by
  rw [segment, segment, Value.label?_spelled]
  cases value.label? with
  | none => exact failWith_alike (shown_alike value) fun _ _ => rfl
  | some label =>
    have chars : label.spelled.chars.isEmpty = label.chars.isEmpty := rfl
    simp only [Option.map_some]
    by_cases empty : label.chars.isEmpty = true
    · rw [if_pos empty, if_pos (chars.trans empty)]
      exact failWith_alike (shown_alike value) fun _ _ => rfl
    · rw [if_neg empty, if_neg (chars ▸ empty)]
      exact .pure rfl

theorem extend_alike (segments : List Label) (more : List Value) :
    Alike (spelled · = ·) (extend segments more) (extend (segments.map Label.spelled) (more.map spelled)) workspace := by
  refine (Alike.mapM Label.spelled fun value _ workspace => segment_alike value).next fun labels _ _ => ?_
  exact .pure (by simp [spelled])

theorem appendTo_alike (value : Value) (more : List Value) :
    Alike (spelled · = ·) (appendTo value more) (appendTo value.spelled (more.map spelled)) workspace := by
  cases value with
  | path segments => exact extend_alike segments more
  | _ => exact .fail rfl

theorem index_alike (value : Value) (keys : List Value) :
    Alike (spelled · = ·) (index value keys) (index value.spelled (keys.map spelled)) workspace := by
  induction keys generalizing value workspace with
  | nil => exact .pure rfl
  | cons key rest ih =>
    cases value with
    | path segments =>
      refine (extend_alike segments [key]).next fun longer _ _ => ?_
      exact ih longer
    | _ => exact .fail rfl

theorem attributeOf_alike (value : Value) (name : String) :
    Alike (spelled · = ·) (attributeOf value name) (attributeOf value.spelled name) workspace := by
  cases value with
  | path segments =>
    have listed : (Value.tuple (segments.map Value.ofLabel)).spelled = .tuple ((segments.map Label.spelled).map Value.ofLabel) := by
      simp [spelled, Function.comp_def]
    simp only [spelled, attributeOf]
    split
    · exact .pure listed
    · split
      · exact .pure rfl
      · split
        · split
          · exact .pure listed
          · exact .fail rfl
        · exact extend_alike segments [.text name]
  | _ => exact .fail rfl

theorem attributesOf_alike (value : Value) (names : List String) :
    Alike (spelled · = ·) (attributesOf value names) (attributesOf value.spelled names) workspace := by
  induction names generalizing value workspace with
  | nil => exact .pure rfl
  | cons name rest ih =>
    refine (attributeOf_alike value name).next fun found _ _ => ?_
    exact ih found

theorem requireKnown_alike (kind : String) (name : Value) (declared : Option (List Value)) :
    Alike Eq (requireKnown kind name declared) (requireKnown kind name.spelled (declared.map (List.map spelled))) workspace := by
  cases declared with
  | none => exact .pure rfl
  | some declared =>
    simp only [requireKnown, Option.map_some, Value.any_equals_spelled]
    cases declared.any (Value.equals name) with
    | true => exact .pure rfl
    | false =>
      refine (anyWording_alike name).bind fun text copied between _ _ => ?_
      have chars : (declared.map spelled).mapM Value.chars? = declared.mapM Value.chars? := by
        rw [List.mapM_map]
        exact congrArg declared.mapM (funext Value.chars?_spelled)
      simp only [chars]
      cases declared.mapM Value.chars? with
      | some names => exact .fail rfl
      | none => exact .fail rfl

theorem texts_spelled (names : Option (List String)) : (texts names).map (List.map spelled) = texts names := by
  cases names with
  | none => rfl
  | some names => simp [texts, spelled, Function.comp_def]

theorem reference_alike (known : Known) (helper : String) (arguments : List Value) :
    Alike (spelled · = ·) (reference known helper arguments) (reference known.spelled helper (arguments.map spelled)) workspace := by
  have names (kind : String) (name : Value) (declared : Option (List String)) {workspace : Workspace} :
      Alike Eq (requireKnown kind name (texts declared)) (requireKnown kind name.spelled (texts declared)) workspace := by
    have alike : Alike Eq (requireKnown kind name (texts declared))
        (requireKnown kind name.spelled ((texts declared).map (List.map spelled))) workspace := requireKnown_alike kind name (texts declared)
    rwa [texts_spelled] at alike
  have steps (id : Value) {workspace : Workspace} :
      Alike Eq
        (do
          if known.steps.isSome && !id.isKey then fail .mistyped
          requireKnown "step id" id known.steps)
        (do
          if known.spelled.steps.isSome && !id.spelled.isKey then fail .mistyped
          requireKnown "step id" id.spelled known.spelled.steps) workspace := by
    have tracked : known.spelled.steps.isSome = known.steps.isSome := Option.isSome_map
    rw [tracked, Value.isKey_spelled]
    cases known.steps.isSome && !id.isKey with
    | true => exact .fail rfl
    | false => exact requireKnown_alike "step id" id known.steps
  unfold reference
  split
  · exact (names _ _ _).next fun _ _ _ => extend_alike (root "matrix") _
  · exact (names _ _ _).next fun _ _ _ => extend_alike (root "needs") _
  · exact (steps _).next fun _ _ _ => extend_alike (root "steps") _
  · exact (steps _).next fun _ _ _ => (extend_alike (root "steps") _).bind fun path _ _ _ same => by
      rw [← same]
      exact index_alike path _
  · exact (names _ _ _).next fun _ _ _ => extend_alike (root "job") _
  · exact extend_alike (root "secrets") _
  · exact extend_alike (root "inputs") _
  · exact extend_alike (root "env") _
  · -- Arguments that no helper takes: their copies are as many.
    clear names steps
    split
    · simp_all [List.map_eq_cons_iff]
      exact .fail rfl
    · simp_all [List.map_eq_cons_iff]
      exact .fail rfl

end reference

section makers

theorem contextRoot_alike (ambient : Ambient) (name : String) :
    Alike (spelled · = ·) (contextRoot ambient name) (contextRoot ambient.spelled name) workspace := by
  cases ambient with
  | names known =>
    simp only [Ambient.spelled, contextRoot]
    split
    · exact .pure rfl
    · exact .fail rfl
  | object value => exact attributeOf_alike value name

theorem contextReference_alike (ambient : Ambient) (helper : String) (arguments : List Value) :
    Alike (spelled · = ·) (contextReference ambient helper arguments)
      (contextReference ambient.spelled helper (arguments.map spelled)) workspace := by
  cases ambient with
  | names known => exact reference_alike known helper arguments
  | object value => exact .fail rfl

/-- The arguments are those by position under their names and those by name. -/
theorem bindArguments_alike (positional named : List String) (values : List Value) (namedValues : List (String × Value)) :
    Alike (fun arguments copies => arguments = positional.zip values ++ namedValues ∧ spelledNamed arguments = copies)
      (bindArguments positional named values namedValues)
      (bindArguments positional named (values.map spelled) (spelledNamed namedValues)) workspace := by
  have placed (name : String) : (spelledNamed (positional.zip values)).any (·.1 == name) = (positional.zip values).any (·.1 == name) :=
    List.any_map
  simp only [bindArguments, List.length_map, Event.zip_spelled, placed]
  split
  · exact .fail rfl
  · refine (Alike.forIn fun argument _ state workspace => ?_).next fun _ _ _ => .pure ⟨rfl, List.map_append⟩
    obtain ⟨name, value⟩ := argument
    simp only [Prod.map_apply, id]
    split
    · exact .fail rfl
    · exact .pure rfl

theorem argument?_spelled (arguments : List (String × Value)) (name : String) :
    argument? (spelledNamed arguments) name = (argument? arguments name).map spelled := Event.lookup_spelled name arguments

theorem argumentOr_spelled (default : Value) (arguments : List (String × Value)) (name : String) :
    argumentOr default.spelled (spelledNamed arguments) name = (argumentOr default arguments name).spelled := by
  rw [argumentOr, argumentOr, argument?_spelled]
  cases argument? arguments name <;> rfl

theorem argument_alike (arguments : List (String × Value)) (name : String) :
    Alike (fun value copy => argument? arguments name = some value ∧ value.spelled = copy) (argument arguments name)
      (argument (spelledNamed arguments) name) workspace := by
  rw [argument, argument, argument?_spelled]
  cases argument? arguments name with
  | some value => exact .pure ⟨rfl, rfl⟩
  | none => exact .fail rfl

/-- An argument is one of the values that are given. -/
theorem mem_of_argument? {positional : List String} {values : List Value} {named : List (String × Value)} {name : String} {value : Value}
    (found : argument? (positional.zip values ++ named) name = some value) : value ∈ values ++ named.map Prod.snd := by
  obtain ⟨before, after, same, -⟩ := List.lookup_eq_some_iff.mp found
  have listed : (name, value) ∈ positional.zip values ++ named := by
    rw [same]
    exact List.mem_append_right before List.mem_cons_self
  rcases List.mem_append.mp listed with byPosition | byName
  · exact List.mem_append_left _ (List.of_mem_zip byPosition).2
  · exact List.mem_append_right _ (List.mem_map_of_mem byName)

theorem copied_alike (value : Value) : Alike (spelled · = ·) (copied value) (copied value.spelled) workspace := by
  rw [copied, copied, Value.truth_spelled]
  refine (Alike.ofExcept (Agrees.refl value.truth)).next fun isSet _ _ => ?_
  cases isSet with
  | false => exact .pure rfl
  | true =>
    refine (Alike.ofExcept (Value.toEntries_spelled value)).next fun entries _ _ => ?_
    exact .pure (by simp [spelled])

theorem or_spelled {given default : Option Value} (fixed : default.map spelled = default) :
    (given.map spelled).or default = (given.or default).map spelled := by
  cases given with
  | none => exact fixed.symm
  | some value => rfl

theorem settings_alike (kind : EventKind) (arguments : List (String × Value)) :
    Alike (List.map spelled · = ·) (settings kind arguments) (settings kind (spelledNamed arguments)) workspace := by
  refine Alike.mapM_same spelled fun name _ workspace => ?_
  have fixed : (settingDefault kind name).map spelled = settingDefault kind name := by
    unfold settingDefault
    split <;> rfl
  rw [argument?_spelled, or_spelled fixed]
  cases (argument? arguments name).or (settingDefault kind name) with
  | some value => exact .pure rfl
  | none => exact .fail rfl

theorem makeEvent_alike (factory : Factory) (values : List Value) (named : List (String × Value)) :
    Alike (spelled · = ·) (makeEvent factory values named) (makeEvent factory (values.map spelled) (spelledNamed named)) workspace := by
  have set {workspace : Workspace} (kind : EventKind) (arguments : List (String × Value)) :
      Alike (spelled · = ·) (do return .event kind (← settings kind arguments))
        (do return .event kind (← settings kind (spelledNamed arguments))) workspace := by
    refine (settings_alike kind arguments).next fun settings _ _ => ?_
    exact .pure (by simp [spelled])
  have bound {workspace : Workspace} (kind : EventKind) (next copy : List (String × Value) → Build Value)
      (alike : ∀ arguments workspace, Alike (spelled · = ·) (next arguments) (copy (spelledNamed arguments)) workspace) (given : List String) :
      Alike (spelled · = ·) (bindArguments (usualSettings kind) given values named >>= next)
        (bindArguments (usualSettings kind) given (values.map spelled) (spelledNamed named) >>= copy) workspace := by
    refine (bindArguments_alike _ _ values named).bind ?_
    rintro arguments _ _ - ⟨-, rfl⟩
    exact alike arguments _
  have copies {workspace : Workspace} (kind : EventKind) (arguments : List (String × Value)) :
      Alike (spelled · = ·) (do return .event kind (← (← settings kind arguments).mapM copied))
        (do return .event kind (← (← settings kind (spelledNamed arguments)).mapM copied)) workspace := by
    refine (settings_alike kind arguments).next fun settings _ _ => ?_
    refine (Alike.mapM spelled fun value _ workspace => copied_alike value).next fun copies _ _ => ?_
    exact .pure (by simp [spelled])
  cases factory with
  | on kind =>
    cases kind with
    | schedule =>
      cases values with
      | nil =>
        have refused {named : List (String × Value)} (apart : ∀ cron, named ≠ [("cron", cron)]) :
            makeEvent (.on .schedule) [] named = fail .mistyped := by
          unfold makeEvent
          split <;> simp_all
        by_cases single : ∃ cron, named = [("cron", cron)]
        · obtain ⟨cron, rfl⟩ := single
          exact .pure rfl
        · rw [List.map_nil, refused (not_exists.mp single), refused]
          · exact .fail rfl
          · intro cron same
            obtain ⟨⟨name, given⟩, rfl, same⟩ := List.map_eq_singleton_iff.mp same
            cases same
            exact single ⟨given, rfl⟩
      | cons cron crons =>
        cases named with
        | nil => exact .pure (by simp [spelled])
        | cons argument rest => exact .fail rfl
    | run =>
      refine bound .run _ _ (fun arguments workspace => ?_) []
      refine (argument_alike arguments "workflows").bind ?_
      rintro workflows _ _ - ⟨-, rfl⟩
      refine (Alike.ofExcept (Value.iterate_spelled workflows)).next fun items _ _ => ?_
      exact .pure (by simp [spelled, ← argumentOr_spelled])
    | dispatch => exact bound .dispatch _ _ (fun arguments _ => copies .dispatch arguments) _
    | call => exact bound .call _ _ (fun arguments _ => copies .call arguments) _
    | _ => exact bound _ _ _ (fun arguments _ => set _ arguments) _
  | event kind =>
    refine (bindArguments_alike _ _ values named).bind ?_
    rintro arguments _ _ - ⟨-, rfl⟩
    exact set kind arguments
  | input kind =>
    refine (bindArguments_alike _ _ values named).bind ?_
    rintro arguments _ _ - ⟨-, rfl⟩
    refine .pure ?_
    have default (name : String) : (inputDefault name).spelled = inputDefault name := by
      unfold inputDefault
      split <;> rfl
    have each (name : String) : (argumentOr (inputDefault name) arguments name).spelled =
        argumentOr (inputDefault name) (spelledNamed arguments) name := by
      rw [← argumentOr_spelled, default]
    simp [spelled, each, Function.comp_def]

/-- What a command reads as text. -/
def commandReads (kind : CommandKind) (values : List Value) (named : List (String × Value)) : List Value :=
  match kind with
  | .verbatim => []
  | .group => (argument? (["title", "commands"].zip values ++ named) "title").toList
  | _ => values ++ named.map Prod.snd

/-- The properties of an annotation that are given. -/
def givenProperties (arguments : List (String × Value)) : List (String × Value) :=
  noticeProperties.filterMap fun (key, parameter) =>
    match argumentOr .null arguments parameter with
    | .null => none
    | value => some (key, value)

theorem notice_eq (kind : String) (message : Value) (arguments : List (String × Value)) :
    notice kind message arguments = (do
      let properties ← (givenProperties arguments).mapM fun (key, value) => do return s!"{key}={← lineText value}"
      let properties := ",".intercalate properties
      let message ← lineText message
      return line (if properties.isEmpty then s!"echo ::{kind}::{message}" else s!"echo ::{kind} {properties}::{message}")) := rfl

theorem givenProperties_spelled (arguments : List (String × Value)) :
    givenProperties (spelledNamed arguments) = spelledNamed (givenProperties arguments) := by
  have copied (parameter : String) : argumentOr .null (spelledNamed arguments) parameter = (argumentOr .null arguments parameter).spelled :=
    argumentOr_spelled .null arguments parameter
  simp only [givenProperties, copied, List.map_filterMap]
  refine List.filterMap_congr fun property _ => ?_
  obtain ⟨key, parameter⟩ := property
  simp only
  cases argumentOr .null arguments parameter <;> rfl

theorem argument_of_givenProperties {arguments : List (String × Value)} {property : String × Value}
    (member : property ∈ givenProperties arguments) :
    ∃ name, argument? arguments name = some property.2 := by
  obtain ⟨⟨key, parameter⟩, -, made⟩ := List.mem_filterMap.mp member
  simp only [argumentOr] at made
  cases found : argument? arguments parameter with
  | none => simp [found] at made
  | some value =>
    rw [found, Option.getD_some] at made
    refine ⟨parameter, ?_⟩
    cases value <;> cases made <;> exact found

theorem properties_alike {properties : List (String × Value)} (settled : ∀ property ∈ properties, property.2.settled) :
    Alike Eq (properties.mapM fun (key, value) => do return s!"{key}={← lineText value}")
      ((spelledNamed properties).mapM fun (key, value) => do return s!"{key}={← lineText value}") workspace := by
  refine Alike.mapM_eq fun property member workspace => ?_
  refine (lineText_alike property.2 (settled property member)).next fun text _ _ => ?_
  exact .pure rfl

theorem notice_alike (kind : String) {message : Value} {arguments : List (String × Value)} (settled : message.settled)
    (all : ∀ name value, argument? arguments name = some value → value.settled) :
    Alike (spelled · = ·) (notice kind message arguments) (notice kind message.spelled (spelledNamed arguments)) workspace := by
  rw [notice_eq, notice_eq, givenProperties_spelled]
  have given : ∀ property ∈ givenProperties arguments, property.2.settled := fun property member =>
    (argument_of_givenProperties member).elim fun name found => all name property.2 found
  refine (properties_alike given).next fun properties _ _ => ?_
  refine (lineText_alike message settled).next fun text _ _ => ?_
  exact .pure rfl

theorem setting_alike {name value : Value} (file : String) (onName : name.settled) (onValue : value.settled) :
    Alike Eq (setting name value file) (setting name.spelled value.spelled file) workspace := by
  refine (wording_alike onName).next fun name _ _ => ?_
  refine (lineText_alike value onValue).next fun text _ _ => ?_
  exact .pure rfl

theorem directive_alike (kind : CommandKind) (values : List Value) (named : List (String × Value))
    (steady : Steady (commandReads kind values named)) :
    Alike (spelled · = ·) (directive kind values named) (directive kind (values.map spelled) (spelledNamed named)) workspace := by
  have given (all : Steady (values ++ named.map Prod.snd)) {positional : List String} {name : String} {value : Value}
      (found : argument? (positional.zip values ++ named) name = some value) : value.settled := all value (mem_of_argument? found)
  have one (all : Steady (values ++ named.map Prod.snd)) (name : String) (text : String → String) :
      Alike (spelled · = ·)
        (do
          let arguments ← bindArguments [name] [] values named
          return line (text (← lineText (← argument arguments name))))
        (do
          let arguments ← bindArguments [name] [] (values.map spelled) (spelledNamed named)
          return line (text (← lineText (← argument arguments name)))) workspace := by
    refine (bindArguments_alike _ _ values named).bind ?_
    rintro arguments _ _ - ⟨rfl, rfl⟩
    refine (argument_alike _ name).bind ?_
    rintro message _ _ - ⟨found, rfl⟩
    refine (lineText_alike message (given all found)).next fun written _ _ => ?_
    exact .pure rfl
  cases kind with
  | debug => exact one steady "message" fun message => s!"echo ::debug::{message}"
  | mask => exact one steady "value" fun value => s!"echo ::add-mask::{value}"
  | notice kind =>
    refine (bindArguments_alike _ _ values named).bind ?_
    rintro arguments _ _ - ⟨rfl, rfl⟩
    refine (argument_alike _ "message").bind ?_
    rintro message _ _ - ⟨found, rfl⟩
    exact notice_alike kind (given steady found) fun _ _ => given steady
  | output =>
    refine (bindArguments_alike _ _ values named).bind ?_
    rintro arguments _ _ - ⟨rfl, rfl⟩
    refine (argument_alike _ "name").bind ?_
    rintro name _ _ - ⟨onName, rfl⟩
    refine (argument_alike _ "value").bind ?_
    rintro value _ _ - ⟨onValue, rfl⟩
    refine (setting_alike "GITHUB_OUTPUT" (given steady onName) (given steady onValue)).next fun text _ _ => ?_
    exact .pure rfl
  | env =>
    refine (bindArguments_alike _ _ values named).bind ?_
    rintro arguments _ _ - ⟨rfl, rfl⟩
    refine (argument_alike _ "name").bind ?_
    rintro name _ _ - ⟨onName, rfl⟩
    refine (argument_alike _ "value").bind ?_
    rintro value _ _ - ⟨onValue, rfl⟩
    refine (setting_alike "GITHUB_ENV" (given steady onName) (given steady onValue)).next fun text _ _ => ?_
    exact .pure rfl
  | group =>
    refine (bindArguments_alike _ _ values named).bind ?_
    rintro arguments _ _ - ⟨rfl, rfl⟩
    have titled {workspace : Workspace} (title : Option Value) (settled : ∀ value, title = some value → value.settled) :
        Alike Eq (ask (·.wording (title.getD .null))) (ask (·.wording ((title.map spelled).getD .null))) workspace := by
      cases title with
      | none => exact wording_alike rfl
      | some title => exact wording_alike (settled title rfl)
    rw [argument?_spelled]
    refine (titled _ fun title found => steady title (Option.mem_toList.mpr found)).next fun title _ _ => ?_
    refine (argument_alike _ "commands").bind ?_
    rintro commands _ _ - ⟨-, rfl⟩
    refine (Alike.ofExcept (Value.iterate_spelled commands)).next fun items _ _ => ?_
    exact .pure (by simp [spelled, line])
  | verbatim =>
    refine (bindArguments_alike _ _ values named).bind ?_
    rintro arguments _ _ - ⟨rfl, rfl⟩
    refine (argument_alike _ "value").bind ?_
    rintro value _ _ - ⟨-, rfl⟩
    exact .pure (by simp only [spelled, ← argumentOr_spelled])

theorem stepSet_spelled (step : Step) (field : StepField) (value : Value) :
    (step.set field value).spelled = step.spelled.set field value.spelled := by
  simp only [Step.set, Step.spelled, apply_ite spelled]

theorem input_spelled (preset : Preset) (value : Value) : preset.input value.spelled = (preset.input value).spelled := by
  cases preset with
  | setupUv =>
    have latest : Value.equals value.spelled (.text "latest") = Value.equals value (.text "latest") :=
      Value.equals_spelled value (.text "latest")
    simp only [Preset.input, latest]
    split <;> rfl
  | _ => rfl

theorem parameters_spelled (preset : Preset) : ∀ parameter ∈ preset.parameters, parameter.2.2.map spelled = parameter.2.2 := by
  cases preset <;> simp [Preset.parameters, spelled]

theorem ownInputs_alike (preset : Preset) (arguments : List (String × Value)) :
    Alike (spelledNamed · = ·)
      (preset.parameters.mapM fun (name, input, default) =>
        match (arguments.lookup name).or default with
        | some value => return (input, preset.input value)
        | none => fail .mistyped)
      (preset.parameters.mapM fun (name, input, default) =>
        match ((spelledNamed arguments).lookup name).or default with
        | some value => return (input, preset.input value)
        | none => fail .mistyped) workspace := by
  refine Alike.mapM_same (Prod.map id spelled) fun parameter member workspace => ?_
  have fixed := parameters_spelled preset parameter member
  obtain ⟨name, input, default⟩ := parameter
  simp only [Event.lookup_spelled, or_spelled fixed]
  cases (arguments.lookup name).or default with
  | some value => exact .pure (congrArg (Prod.mk input) (input_spelled preset value).symm)
  | none => exact .fail rfl

/-- Inputs that are given twice, or are none, are so in the copies. -/
theorem refusedInputs_spelled (own others : List (String × Value)) :
    (spelledNamed others).any (fun (name, _) => name == "uses" || (spelledNamed own).any (·.1 == name)) =
      others.any fun (name, _) => name == "uses" || own.any (·.1 == name) := by
  simp [List.any_map, Function.comp_def]

theorem setInputs_spelled (own others : List (String × Value)) :
    (spelledNamed own ++ spelledNamed others).filter (fun (_, value) => !value.isNull) =
      spelledNamed ((own ++ others).filter fun (_, value) => !value.isNull) := by
  rw [spelledNamed, spelledNamed, ← List.map_append, List.filter_map]
  simp [Function.comp_def]

theorem dashed_spelled (inputs : List (String × Value)) :
    (spelledNamed inputs).map (fun (name, value) => ((.text (Event.dashed name) : Value), value)) =
      Value.spelledPairs (inputs.map fun (name, value) => (.text (Event.dashed name), value)) := by
  simp [spelled, Function.comp_def]

theorem toStep_alike (preset : Preset) (values : List Value) (named : List (String × Value)) :
    Alike (Step.spelled · = ·) (preset.toStep values named) (preset.toStep (values.map spelled) (spelledNamed named)) workspace := by
  have names : (spelledNamed named).map Prod.fst = named.map Prod.fst := by simp
  have others : (spelledNamed named).filter (fun argument => !(preset.parameters.map Prod.fst).contains argument.1) =
      spelledNamed (named.filter fun argument => !(preset.parameters.map Prod.fst).contains argument.1) := List.filter_map
  simp only [Preset.toStep, names, others]
  refine (bindArguments_alike _ _ values named).bind ?_
  rintro arguments _ _ - ⟨-, rfl⟩
  refine (ownInputs_alike preset arguments).next fun own _ _ => ?_
  generalize named.filter (fun argument => !(preset.parameters.map Prod.fst).contains argument.1) = others
  have entries (inputs : List (Value × Value)) : Event.update [] (Value.spelledPairs inputs) = Value.spelledPairs (Event.update [] inputs) :=
    Event.update_spelled [] inputs
  simp only [refusedInputs_spelled, setInputs_spelled, dashed_spelled, entries]
  split
  · exact .fail rfl
  · refine .pure ?_
    generalize Event.update [] _ = entries
    cases entries with
    | nil => exact stepSet_spelled {} .uses _
    | cons entry rest =>
      show (Step.set (Step.set {} .uses _) .inputs (.map (entry :: rest))).spelled = _
      rw [stepSet_spelled, stepSet_spelled, spelled, Value.spelledEntries_eq]
      rfl

end makers

end WorkflowCompiler.Build
