import WorkflowCompiler.Proofs.SoundMethods

/-! Calls in sound workspaces. A recipe makes objects from what is there, and functions and statements
do no more than recipes and methods: no object that a session comes to refers to one that is not. -/

namespace WorkflowCompiler

open Value (AllWithin EntriesWithin NamedWithin)

namespace Build

variable {inside : Target → Prop}

theorem upholds_newIdentity : Upholds inside Any newIdentity :=
  upholds_reads_bind reads_get fun _ => upholds_bind_any (upholds_modify fun _ => ⟨rfl, rfl, rfl⟩) fun _ _ _ => upholds_pure trivial

theorem upholds_newFunction {closure : Closure} (within : closure.Within inside) : Upholds inside Value.Within (newFunction closure) := by
  intro workspace sound more
  refine ⟨⟨sound.objects, ?_, sound.registers⟩, le_rfl, gives_ok (Value.within_function _)⟩
  exact List.forall_mem_append.mpr ⟨sound.closures, fun other member => by
    cases List.mem_singleton.mp member
    exact within.mono more⟩

theorem upholds_pathText {value : Value} : Upholds inside Value.Within (pathText value) := by
  unfold pathText
  split
  · exact upholds_text _
  · refine upholds_ofExcept_bind fun items _ => ?_
    split
    · exact upholds_text _
    · exact upholds_fail _
  · exact upholds_fail _

mutual

theorem ofTree_within (tree : Tree) : (ofTree tree).Within inside := by
  cases tree with
  | null => exact Value.within_null
  | bool => exact Value.within_bool _
  | int => exact Value.within_int _
  | float => exact Value.within_float _
  | text => exact Value.within_text _
  | stamp => exact Value.within_foreign _ _
  | bytes => exact Value.within_bytes _
  | set => exact Value.within_foreign _ _
  | list items => exact Value.within_list.mpr (ofItems_within items)
  | map entries => exact Value.within_map.mpr (ofEntries_within entries)

theorem ofItems_within (items : List Tree) : AllWithin inside (ofTree.ofItems items) := by
  cases items with
  | nil => exact Value.allWithin_nil
  | cons item rest => exact Value.allWithin_cons.mpr ⟨ofTree_within item, ofItems_within rest⟩

theorem ofEntries_within (entries : List (Tree × Tree)) : EntriesWithin inside (ofTree.ofEntries entries) := by
  cases entries with
  | nil => exact Value.entriesWithin_nil
  | cons entry rest =>
    obtain ⟨key, value⟩ := entry
    exact Value.entriesWithin_cons.mpr ⟨⟨ofTree_within key, ofTree_within value⟩, ofEntries_within rest⟩

end

theorem upholds_applyBuiltin {function : Builtin} {arguments : List Value} (within : AllWithin inside arguments) :
    Upholds inside Value.Within (applyBuiltin function arguments) := by
  have bool (truth : Bool) : Upholds inside Value.Within (pure (.bool truth)) := upholds_pure (Value.within_bool truth)
  unfold applyBuiltin
  split
  · exact upholds_literal _ (within _ (by simp))
  · exact upholds_bind (upholds_literal _ (within _ (by simp))) fun _ _ _ made => upholds_compose (by simpa using made)
  · exact upholds_bind_any (upholds_interpolated (within _ (by simp))) fun _ _ _ => upholds_text _
  · exact upholds_binaryNamed (within _ (by simp)) (within _ (by simp))
  · exact upholds_binary _ (within _ (by simp)) (within _ (by simp))
  · exact upholds_negation (within _ (by simp))
  · exact upholds_group (within _ (by simp))
  · exact upholds_runnerCall within
  · exact upholds_runnerCall within
  · exact upholds_runnerCall (by simpa using within _ List.mem_cons_self)
  · exact upholds_runnerCall within
  · exact upholds_bind_any (upholds_concatenation within) fun _ _ _ => upholds_text _
  · exact upholds_compose (by simp)
  · exact upholds_compose within
  · exact bool _
  · exact upholds_conjoin (within _ (by simp)) (within _ (by simp))
  · exact upholds_disjoin (within _ (by simp)) (within _ (by simp))
  · exact upholds_invert (within _ (by simp))
  · exact upholds_ofExcept_bind fun _ _ => bool _
  · exact upholds_ask_bind fun _ => upholds_text _
  · exact upholds_ask_bind fun _ => upholds_text _
  · exact bool _
  · exact upholds_pathText
  · exact upholds_ask_bind fun _ => upholds_pure (ofTree_within _)
  · exact upholds_reads_bind (reads_lineText _) fun _ => upholds_text _
  · exact upholds_pure (Value.within_list.mpr (Value.AllWithin.asList (within _ (by simp))))
  · exact bool _
  · exact upholds_ask_bind fun _ => upholds_text _
  · exact bool _
  · exact upholds_ofExcept_bind fun _ _ => bool _
  · exact upholds_fail _

theorem upholds_makeFailure {category : Category} {message : Value} {children : List Value} {collects : Bool} :
    Upholds inside Value.Within (makeFailure category message children collects) := by
  refine upholds_ask_bind fun _ => upholds_reads_bind (reads_mapM fun child => ?_) fun _ => ?_
  · split
    · exact reads_pure _
    · exact reads_bind (reads_ask _) fun _ => reads_pure _
  · exact upholds_bind_any upholds_newIdentity fun _ _ _ => upholds_pure (Value.within_failure _ _)

section

set_option linter.unusedSectionVars false

variable {call : Call} (safe : Safe call)
include safe

mutual

/-- A recipe whose values are there makes what is there. -/
theorem upholds_evaluate {inside : Target → Prop} {ambient : Ambient} (onAmbient : ambient.Within inside) (recipe : Recipe)
    (within : AllWithin inside recipe.values) : Upholds inside Value.Within (evaluate call ambient recipe) := by
  cases recipe with
  | value value => exact upholds_pure (within value List.mem_cons_self)
  | foreign => exact upholds_bind_any upholds_newIdentity fun _ _ _ => upholds_pure (Value.within_foreign _ _)
  | list items =>
    rw [evaluate]
    exact upholds_bind (upholds_evaluateAll onAmbient items within) fun _ _ _ made => upholds_pure (Value.within_list.mpr made)
  | tuple items =>
    rw [evaluate]
    exact upholds_bind (upholds_evaluateAll onAmbient items within) fun _ _ _ made => upholds_pure (Value.within_tuple.mpr made)
  | map entries =>
    rw [evaluate]
    refine upholds_bind (upholds_evaluateEntries onAmbient entries within) fun _ made _ onMade => ?_
    exact upholds_ofExcept_bind fun entries listed => upholds_pure (Value.within_map.mpr (Value.gives_ofEntries onMade entries listed))
  | path segments =>
    rw [evaluate]
    exact upholds_bind (upholds_evaluateAll onAmbient segments within) fun _ _ _ _ => upholds_extend
  | pathLike segments =>
    rw [evaluate]
    refine upholds_bind (upholds_evaluate onAmbient segments within) fun _ _ _ _ => ?_
    exact upholds_bind_any upholds_newIdentity fun _ _ _ => upholds_pure (Value.within_pathLike _ _)
  | append path segments =>
    obtain ⟨onPath, onSegments⟩ := Value.allWithin_append.mp within
    rw [evaluate]
    refine upholds_bind (upholds_evaluate onAmbient path onPath) fun _ _ more _ => ?_
    exact upholds_bind (upholds_evaluateAll (onAmbient.mono more) segments (onSegments.mono more)) fun _ _ _ _ => upholds_appendTo
  | attributes object names =>
    rw [evaluate]
    exact upholds_bind (upholds_evaluate onAmbient object within) fun _ _ _ made => upholds_attributesOf made
  | contextPath root segments =>
    rw [evaluate]
    refine upholds_bind upholds_contextRoot fun _ _ more onRoot => ?_
    exact upholds_bind (upholds_evaluateAll (onAmbient.mono more) segments (within.mono more)) fun _ _ further _ =>
      upholds_index (onRoot.mono further)
  | contextName helper arguments segments =>
    obtain ⟨onArguments, onSegments⟩ := Value.allWithin_append.mp within
    rw [evaluate]
    refine upholds_bind (upholds_evaluateAll onAmbient arguments onArguments) fun _ _ more _ => ?_
    refine upholds_bind upholds_contextReference fun _ _ further made => ?_
    have both := more.trans further
    exact upholds_bind (upholds_evaluateAll (onAmbient.mono both) segments (onSegments.mono both)) fun _ _ last _ =>
      upholds_index (made.mono last)
  | apply function arguments =>
    rw [evaluate]
    exact upholds_bind (upholds_evaluateAll onAmbient arguments within) fun _ _ _ made => upholds_applyBuiltin made
  | command kind arguments named =>
    obtain ⟨onArguments, onNamed⟩ := Value.allWithin_append.mp within
    rw [evaluate]
    refine upholds_bind (upholds_evaluateAll onAmbient arguments onArguments) fun _ _ more made => ?_
    exact upholds_bind (upholds_evaluateNamed (onAmbient.mono more) named (onNamed.mono more)) fun _ _ further madeNamed =>
      upholds_directive (made.mono further) madeNamed
  | preset kind arguments named operations =>
    obtain ⟨given, onOperations⟩ := Value.allWithin_append.mp within
    obtain ⟨onArguments, onNamed⟩ := Value.allWithin_append.mp given
    rw [evaluate]
    refine upholds_bind (upholds_evaluateAll onAmbient arguments onArguments) fun _ _ more made => ?_
    refine upholds_bind (upholds_evaluateNamed (onAmbient.mono more) named (onNamed.mono more)) fun _ _ further madeNamed => ?_
    refine upholds_bind (upholds_toStep (made.mono further) madeNamed) fun _ _ next onStep => ?_
    refine upholds_bind (upholds_newStep onStep) fun _ fresh last there => ?_
    have all := ((more.trans further).trans next).trans last
    exact upholds_bind_any (upholds_performAll (onAmbient.mono all) (within_step.mpr there) operations (onOperations.mono all))
      fun _ _ more => upholds_pure (within_step.mpr (more _ there))
  | event factory arguments named =>
    obtain ⟨onArguments, onNamed⟩ := Value.allWithin_append.mp within
    rw [evaluate]
    refine upholds_bind (upholds_evaluateAll onAmbient arguments onArguments) fun _ _ more made => ?_
    exact upholds_bind (upholds_evaluateNamed (onAmbient.mono more) named (onNamed.mono more)) fun _ _ further madeNamed =>
      upholds_makeEvent (made.mono further) madeNamed
  | step known operations =>
    rw [evaluate]
    refine upholds_bind (upholds_newStep fun _ => Value.within_null) fun _ fresh more there => ?_
    exact upholds_bind_any (upholds_performAll (onAmbient.mono more) (within_step.mpr there) operations (within.mono more))
      fun _ _ more => upholds_pure (within_step.mpr (more _ there))
  | job operations =>
    rw [evaluate]
    refine upholds_bind (upholds_newJob ⟨fun _ => Value.within_null, nofun⟩) fun _ fresh more there => ?_
    exact upholds_bind_any (upholds_performAll (onAmbient.mono more) (within_job.mpr there) operations (within.mono more))
      fun _ _ more => upholds_pure (within_job.mpr (more _ there))
  | workflow name fileName operations =>
    obtain ⟨named, onOperations⟩ := Value.allWithin_append.mp within
    obtain ⟨onName, onFileName⟩ := Value.allWithin_append.mp named
    rw [evaluate]
    refine upholds_bind (upholds_evaluate onAmbient name onName) fun _ _ more madeName => ?_
    refine upholds_bind (upholds_evaluate (onAmbient.mono more) fileName (onFileName.mono more)) fun _ _ further madeFile => ?_
    refine upholds_bind (upholds_makeWorkflow (madeName.mono further) madeFile) fun _ fresh last there => ?_
    have all := (more.trans further).trans last
    exact upholds_bind_any (upholds_performAll (onAmbient.mono all) (within_workflow.mpr there) operations (onOperations.mono all))
      fun _ _ more => upholds_pure (within_workflow.mpr (more _ there))
  | builder operations result => exact upholds_newFunction ⟨onAmbient, Value.allWithin_append.mp within⟩
  | callback body => exact upholds_newFunction within
  | register name =>
    rw [evaluate]
    refine upholds_get_bind fun workspace sound _ => ?_
    split
    · next value found => exact upholds_pure (sound.registers.lookup found)
    · exact upholds_fail _
  | failure category message children collects =>
    obtain ⟨onMessage, onChildren⟩ := Value.allWithin_append.mp within
    rw [evaluate]
    refine upholds_bind (upholds_evaluate onAmbient message onMessage) fun _ _ more _ => ?_
    exact upholds_bind (upholds_evaluateAll (onAmbient.mono more) children (onChildren.mono more)) fun _ _ _ _ => upholds_makeFailure

theorem upholds_evaluateAll {inside : Target → Prop} {ambient : Ambient} (onAmbient : ambient.Within inside) (recipes : List Recipe)
    (within : AllWithin inside (Recipe.valuesOfAll recipes)) : Upholds inside AllWithin (evaluateAll call ambient recipes) := by
  cases recipes with
  | nil => exact upholds_pure Value.allWithin_nil
  | cons recipe rest =>
    obtain ⟨first, others⟩ := Value.allWithin_append.mp within
    unfold evaluateAll
    refine upholds_bind (upholds_evaluate onAmbient recipe first) fun _ value more made => ?_
    refine upholds_bind (upholds_evaluateAll (onAmbient.mono more) rest (others.mono more)) fun _ values further onRest => ?_
    exact upholds_pure (Value.allWithin_cons.mpr ⟨made.mono further, onRest⟩)

theorem upholds_evaluateEntries {inside : Target → Prop} {ambient : Ambient} (onAmbient : ambient.Within inside)
    (entries : List (Recipe × Recipe)) (within : AllWithin inside (Recipe.valuesOfEntries entries)) :
    Upholds inside EntriesWithin (evaluateEntries call ambient entries) := by
  cases entries with
  | nil => exact upholds_pure Value.entriesWithin_nil
  | cons entry rest =>
    obtain ⟨first, others⟩ := Value.allWithin_append.mp within
    unfold evaluateEntries
    refine upholds_bind (upholds_evaluateEntry onAmbient entry first) fun _ value more made => ?_
    refine upholds_bind (upholds_evaluateEntries (onAmbient.mono more) rest (others.mono more)) fun _ values further onRest => ?_
    exact upholds_pure (Value.entriesWithin_cons.mpr ⟨⟨made.1.mono further, made.2.mono further⟩, onRest⟩)

theorem upholds_evaluateEntry {inside : Target → Prop} {ambient : Ambient} (onAmbient : ambient.Within inside) (entry : Recipe × Recipe)
    (within : AllWithin inside (Recipe.valuesOfEntry entry)) :
    Upholds inside (fun inside (entry : Value × Value) => entry.1.Within inside ∧ entry.2.Within inside) (evaluateEntry call ambient entry) := by
  obtain ⟨key, value⟩ := entry
  obtain ⟨onKey, onValue⟩ := Value.allWithin_append.mp within
  unfold evaluateEntry
  refine upholds_bind (upholds_evaluate onAmbient key onKey) fun _ key more madeKey => ?_
  refine upholds_bind (upholds_evaluate (onAmbient.mono more) value (onValue.mono more)) fun _ value further madeValue => ?_
  exact upholds_pure ⟨madeKey.mono further, madeValue⟩

theorem upholds_evaluateNamed {inside : Target → Prop} {ambient : Ambient} (onAmbient : ambient.Within inside)
    (arguments : List (String × Recipe)) (within : AllWithin inside (Recipe.valuesOfNamed arguments)) :
    Upholds inside NamedWithin (evaluateNamed call ambient arguments) := by
  cases arguments with
  | nil => exact upholds_pure nofun
  | cons argument rest =>
    obtain ⟨first, others⟩ := Value.allWithin_append.mp within
    unfold evaluateNamed
    refine upholds_bind (upholds_evaluateArgument onAmbient argument first) fun _ value more made => ?_
    refine upholds_bind (upholds_evaluateNamed (onAmbient.mono more) rest (others.mono more)) fun _ values further onRest => ?_
    exact upholds_pure (List.forall_mem_cons.mpr ⟨made.mono further, onRest⟩)

theorem upholds_evaluateArgument {inside : Target → Prop} {ambient : Ambient} (onAmbient : ambient.Within inside)
    (argument : String × Recipe) (within : AllWithin inside (Recipe.valuesOfArgument argument)) :
    Upholds inside (fun inside (entry : String × Value) => entry.2.Within inside) (evaluateArgument call ambient argument) := by
  obtain ⟨name, recipe⟩ := argument
  unfold evaluateArgument
  exact upholds_bind (upholds_evaluate onAmbient recipe within) fun _ _ _ made => upholds_pure made

theorem upholds_performAll {inside : Target → Prop} {ambient : Ambient} (onAmbient : ambient.Within inside) {value : Value}
    (onValue : value.Within inside) (operations : List (String × List Recipe))
    (within : AllWithin inside (Recipe.valuesOfOperations operations)) :
    Upholds inside Any (performAll call ambient value operations) := by
  cases operations with
  | nil => exact upholds_pure trivial
  | cons operation rest =>
    obtain ⟨first, others⟩ := Value.allWithin_append.mp within
    unfold performAll
    refine upholds_bind_any (upholds_perform onAmbient onValue operation first) fun _ _ more => ?_
    exact upholds_performAll (onAmbient.mono more) (onValue.mono more) rest (others.mono more)

theorem upholds_perform {inside : Target → Prop} {ambient : Ambient} (onAmbient : ambient.Within inside) {value : Value}
    (onValue : value.Within inside) (operation : String × List Recipe)
    (within : AllWithin inside (Recipe.valuesOfOperation operation)) : Upholds inside Any (perform call ambient value operation) := by
  obtain ⟨method, arguments⟩ := operation
  unfold perform
  refine upholds_bind (upholds_evaluateAll onAmbient arguments within) fun _ arguments more made => ?_
  exact upholds_discard (upholds_callMethod safe (onValue.mono more) made)

end

end

theorem names_within (known : Known) : (Ambient.names known).Within inside := trivial

theorem ambientValue_within {ambient : Ambient} (within : ambient.Within inside) : (ambientValue ambient).Within inside := by
  cases ambient with
  | names => exact Value.within_foreign _ _
  | object => exact within

/-- However deep calls may nest, they leave sound workspaces. -/
theorem safe_callWithin (depth : Nat) : Safe (callWithin depth) := by
  induction depth with
  | zero => exact fun inside function ambient _ => upholds_fail _
  | succ depth ih =>
    intro inside function argument within
    unfold callWithin
    refine upholds_get_bind fun workspace sound more => ?_
    have onArgument := within.mono more
    split
    · next body known => exact upholds_evaluate ih onArgument body (sound.closures _ (List.mem_of_getElem? known))
    · next ambient operations result known =>
      obtain ⟨onAmbient, onOperations, onResult⟩ := sound.closures _ (List.mem_of_getElem? known)
      refine upholds_bind_any (upholds_performAll ih onAmbient (ambientValue_within onArgument) operations onOperations) fun _ _ further => ?_
      split
      · exact upholds_pure (ambientValue_within (onArgument.mono further))
      · next recipe => exact upholds_evaluate ih (onAmbient.mono further) recipe (onResult.mono further)
    · exact upholds_fail _

theorem upholds_evaluateTop (recipe : Recipe) (within : AllWithin inside recipe.values) :
    Upholds inside Value.Within (evaluateTop recipe) :=
  upholds_evaluate (safe_callWithin callDepth) (names_within {}) recipe within

end Build

namespace Statement

/-- The values that stand in a statement. -/
def values : Statement → List Value
  | .assign _ recipe => recipe.values
  | .call _ _ arguments => Recipe.valuesOfAll arguments
  | .examine recipe => recipe.values
  | .render _ arguments => Recipe.valuesOfAll arguments
  | .validate _ arguments => Recipe.valuesOfAll arguments
  | .describe _ => []
  | .setDebug _ => []
  | .debug _ => []

end Statement

namespace Build

variable {inside : Target → Prop}

theorem reads_viewOf (value : Value) : Reads (viewOf value) := reads_ask _

theorem upholds_register {name : String} : Upholds inside Value.Within (register name) :=
  upholds_evaluateTop (.register name) Value.allWithin_nil

theorem upholds_evaluateArguments {arguments : List Recipe} (within : AllWithin inside (Recipe.valuesOfAll arguments)) :
    Upholds inside AllWithin (evaluateArguments arguments) :=
  upholds_evaluateAll (safe_callWithin callDepth) (names_within {}) arguments within

theorem reads_renderAlone (value : Value) (arguments : List Value) : Reads (renderAlone value arguments) := by
  unfold renderAlone
  split <;> simp

theorem reads_validateAlone (value : Value) (arguments : List Value) : Reads (validateAlone value arguments) := by
  unfold validateAlone
  dsimp only
  split <;> simp

theorem upholds_assign {name : String} {value : Value} (within : value.Within inside) :
    Upholds inside Any (modify fun workspace : Workspace => { workspace with registers := (name, value) :: workspace.registers } : Build Unit) :=
  fun _ sound more =>
    ⟨⟨sound.objects, sound.closures, List.forall_mem_cons.mpr ⟨within.mono more, sound.registers⟩⟩, le_rfl, fun _ _ => trivial⟩

theorem upholds_execute {statement : Statement} (within : AllWithin inside statement.values) : Upholds inside Any (execute statement) := by
  cases statement with
  | assign name recipe =>
    refine upholds_bind (upholds_evaluateTop recipe within) fun _ value _ made => ?_
    exact upholds_bind_any (upholds_assign made) fun _ _ _ => upholds_reads (reads_viewOf value)
  | call name method arguments =>
    refine upholds_bind upholds_register fun _ value more onValue => ?_
    refine upholds_bind (upholds_evaluateArguments (within.mono more)) fun _ arguments further made => ?_
    refine upholds_bind (upholds_callMethod (safe_callWithin callDepth) (onValue.mono further) made) fun _ result _ _ => ?_
    exact upholds_ite (upholds_reads (reads_viewOf _)) (upholds_reads (reads_bind (reads_viewOf _) fun _ => reads_pure _))
  | examine recipe => exact upholds_bind (upholds_evaluateTop recipe within) fun _ _ _ _ => upholds_reads (reads_viewOf _)
  | render name arguments =>
    refine upholds_bind upholds_register fun _ value more onValue => ?_
    exact upholds_bind (upholds_evaluateArguments (within.mono more)) fun _ arguments _ _ => upholds_reads (reads_renderAlone _ _)
  | validate name arguments =>
    refine upholds_bind upholds_register fun _ value more onValue => ?_
    exact upholds_bind (upholds_evaluateArguments (within.mono more)) fun _ arguments _ _ => upholds_reads (reads_validateAlone _ _)
  | describe name => exact upholds_bind upholds_register fun _ _ _ _ => upholds_reads (reads_bind (reads_ask _) fun _ => reads_pure _)
  | setDebug enabled => exact upholds_bind_any (upholds_modify fun _ => ⟨rfl, rfl, rfl⟩) fun _ _ _ => upholds_pure trivial
  | debug text => exact upholds_bind_any (upholds_debugLine (reads_pure text)) fun _ _ _ => upholds_pure trivial

end Build

namespace Session

open Build (upholds_execute)

/-- A statement leaves a sound workspace. -/
theorem sound_step {workspace : Workspace} (sound : workspace.Sound) {statement : Statement}
    (within : AllWithin workspace.store.Has statement.values) : (step workspace statement).2.Sound := by
  have start : Workspace.Sound { workspace with printed := "" } := ⟨sound.objects, sound.closures, sound.registers⟩
  exact (upholds_execute within _ start le_rfl).1

/-- Workspaces that sessions come to. What stands in a statement are plain values: objects are made
by recipes and found in registers. -/
inductive Reached : Workspace → Prop
  | start (debug : Bool) : Reached { debug }
  | step {workspace : Workspace} (reached : Reached workspace) {statement : Statement} (plain : AllWithin (fun _ => False) statement.values) :
      Reached (step workspace statement).2

theorem Reached.sound {workspace : Workspace} (reached : Reached workspace) : workspace.Sound := by
  induction reached with
  | start debug => exact ⟨Store.closed_iff.mpr ⟨nofun, nofun, nofun, nofun⟩, nofun, nofun⟩
  | step reached plain ih => exact sound_step ih (plain.mono fun _ => False.elim)

end Session

end WorkflowCompiler
