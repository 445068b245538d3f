import WorkflowCompiler.Proofs.SoundCalls
import WorkflowCompiler.Proofs.StoreChanges

/-! What sessions do to jobs and workflows. Recipes, functions and statements change them in no other
way than the methods that they call, so that a law which each change keeps holds of all that a session
comes to. -/

namespace WorkflowCompiler

open Store (Changes)

namespace Build

section Evaluation

set_option linter.unusedSectionVars false

variable {call : Call} (traced : ∀ function ambient, Traced (call function ambient)) (ambient : Ambient)
include traced

mutual

theorem traced_evaluate (recipe : Recipe) : Traced (evaluate call ambient recipe) := by
  cases recipe with
  | value value => exact traced_pure value
  | foreign => exact traced_bind traced_newIdentity fun _ => traced_pure _
  | list items | tuple items =>
    rw [evaluate]
    exact traced_bind (traced_evaluateAll items) fun _ => traced_pure _
  | map entries =>
    rw [evaluate]
    exact traced_bind (traced_evaluateEntries entries) fun _ => traced_bind (traced_ofExcept _) fun _ => traced_pure _
  | path segments =>
    rw [evaluate]
    exact traced_bind (traced_evaluateAll segments) fun _ => (reads_extend _ _).traced
  | pathLike segments =>
    rw [evaluate]
    exact traced_bind (traced_evaluate segments) fun _ => traced_bind traced_newIdentity fun _ => traced_pure _
  | append path segments =>
    rw [evaluate]
    exact traced_bind (traced_evaluate path) fun _ => traced_bind (traced_evaluateAll segments) fun _ => (reads_appendTo _ _).traced
  | attributes object names =>
    rw [evaluate]
    exact traced_bind (traced_evaluate object) fun _ => (reads_attributesOf _ _).traced
  | contextPath root segments =>
    rw [evaluate]
    exact traced_bind (reads_contextRoot _ _).traced fun _ => traced_bind (traced_evaluateAll segments) fun _ => (reads_index _ _).traced
  | contextName helper arguments segments =>
    rw [evaluate]
    exact traced_bind (traced_evaluateAll arguments) fun _ => traced_bind (reads_contextReference _ _ _).traced fun _ =>
      traced_bind (traced_evaluateAll segments) fun _ => (reads_index _ _).traced
  | apply function arguments =>
    rw [evaluate]
    exact traced_bind (traced_evaluateAll arguments) fun _ => traced_applyBuiltin _ _
  | command kind arguments named =>
    rw [evaluate]
    exact traced_bind (traced_evaluateAll arguments) fun _ =>
      traced_bind (traced_evaluateNamed named) fun _ => (reads_directive _ _ _).traced
  | preset kind arguments named operations =>
    rw [evaluate]
    refine traced_bind (traced_evaluateAll arguments) fun _ => traced_bind (traced_evaluateNamed named) fun _ => ?_
    refine traced_bind (reads_toStep _ _ _).traced fun _ => traced_bind (traced_newStep _) fun _ => ?_
    exact traced_bind (traced_performAll _ operations) fun _ => traced_pure _
  | event factory arguments named =>
    rw [evaluate]
    exact traced_bind (traced_evaluateAll arguments) fun _ =>
      traced_bind (traced_evaluateNamed named) fun _ => (reads_makeEvent _ _ _).traced
  | step known operations =>
    rw [evaluate]
    exact traced_bind (traced_newStep _) fun _ => traced_bind (traced_performAll _ operations) fun _ => traced_pure _
  | job operations =>
    rw [evaluate]
    exact traced_bind traced_newJob fun _ => traced_bind (traced_performAll _ operations) fun _ => traced_pure _
  | workflow name fileName operations =>
    rw [evaluate]
    refine traced_bind (traced_evaluate name) fun _ => traced_bind (traced_evaluate fileName) fun _ => ?_
    exact traced_bind (traced_makeWorkflow _ _) fun _ => traced_bind (traced_performAll _ operations) fun _ => traced_pure _
  | builder | callback => exact traced_newFunction _
  | register name =>
    rw [evaluate]
    refine traced_bind traced_get fun workspace => ?_
    split
    · exact traced_pure _
    · exact traced_fail _
  | failure category message children collects =>
    rw [evaluate]
    exact traced_bind (traced_evaluate message) fun _ =>
      traced_bind (traced_evaluateAll children) fun _ => traced_makeFailure _ _ _ _

theorem traced_evaluateAll (recipes : List Recipe) : Traced (evaluateAll call ambient recipes) := by
  cases recipes with
  | nil => exact traced_pure []
  | cons recipe rest =>
    unfold evaluateAll
    exact traced_bind (traced_evaluate recipe) fun _ => traced_bind (traced_evaluateAll rest) fun _ => traced_pure _

theorem traced_evaluateEntries (entries : List (Recipe × Recipe)) : Traced (evaluateEntries call ambient entries) := by
  cases entries with
  | nil => exact traced_pure []
  | cons entry rest =>
    unfold evaluateEntries
    exact traced_bind (traced_evaluateEntry entry) fun _ => traced_bind (traced_evaluateEntries rest) fun _ => traced_pure _

theorem traced_evaluateEntry (entry : Recipe × Recipe) : Traced (evaluateEntry call ambient entry) := by
  obtain ⟨key, value⟩ := entry
  unfold evaluateEntry
  exact traced_bind (traced_evaluate key) fun _ => traced_bind (traced_evaluate value) fun _ => traced_pure _

theorem traced_evaluateNamed (arguments : List (String × Recipe)) : Traced (evaluateNamed call ambient arguments) := by
  cases arguments with
  | nil => exact traced_pure []
  | cons argument rest =>
    unfold evaluateNamed
    exact traced_bind (traced_evaluateArgument argument) fun _ => traced_bind (traced_evaluateNamed rest) fun _ => traced_pure _

theorem traced_evaluateArgument (argument : String × Recipe) : Traced (evaluateArgument call ambient argument) := by
  obtain ⟨name, recipe⟩ := argument
  unfold evaluateArgument
  exact traced_bind (traced_evaluate recipe) fun _ => traced_pure _

theorem traced_performAll (value : Value) (operations : List (String × List Recipe)) :
    Traced (performAll call ambient value operations) := by
  cases operations with
  | nil => exact traced_pure ()
  | cons operation rest =>
    unfold performAll
    exact traced_bind (traced_perform value operation) fun _ => traced_performAll value rest

theorem traced_perform (value : Value) (operation : String × List Recipe) : Traced (perform call ambient value operation) := by
  obtain ⟨method, arguments⟩ := operation
  unfold perform
  exact traced_bind (traced_evaluateAll arguments) fun arguments => traced_map (traced_callMethod traced value method arguments)

end

end Evaluation

theorem traced_callWithin (depth function : Nat) (ambient : Ambient) : Traced (callWithin depth function ambient) := by
  induction depth generalizing function ambient with
  | zero => exact traced_fail .endless
  | succ depth ih =>
    unfold callWithin
    refine traced_bind traced_get fun workspace => ?_
    split
    · exact traced_evaluate ih ambient _
    · refine traced_bind (traced_performAll ih _ _ _) fun _ => ?_
      split
      · exact traced_pure _
      · exact traced_evaluate ih _ _
    · exact traced_fail _

theorem traced_evaluateTop (recipe : Recipe) : Traced (evaluateTop recipe) := traced_evaluate (traced_callWithin callDepth) _ recipe

theorem traced_evaluateArguments (arguments : List Recipe) : Traced (evaluateArguments arguments) :=
  traced_evaluateAll (traced_callWithin callDepth) _ arguments

theorem traced_execute (statement : Statement) : Traced (execute statement) := by
  have onRegister (name : String) : Traced (register name) := traced_evaluateTop _
  cases statement with
  | assign name recipe =>
    refine traced_bind (traced_evaluateTop recipe) fun value => traced_bind (traced_modify fun _ => rfl) fun _ => ?_
    exact (reads_viewOf value).traced
  | call name method arguments =>
    refine traced_bind (onRegister name) fun value => traced_bind (traced_evaluateArguments arguments) fun arguments => ?_
    refine traced_bind (traced_callMethod (traced_callWithin callDepth) value method arguments) fun result => ?_
    exact traced_ite (reads_viewOf _).traced (traced_bind (reads_viewOf _).traced fun _ => traced_pure _)
  | examine recipe => exact traced_bind (traced_evaluateTop recipe) fun _ => (reads_viewOf _).traced
  | render name arguments =>
    exact traced_bind (onRegister name) fun _ => traced_bind (traced_evaluateArguments arguments) fun _ => (reads_renderAlone _ _).traced
  | validate name arguments =>
    exact traced_bind (onRegister name) fun _ => traced_bind (traced_evaluateArguments arguments) fun _ => (reads_validateAlone _ _).traced
  | describe name => exact traced_bind (onRegister name) fun _ => traced_bind (traced_ask _) fun _ => traced_pure _
  | setDebug enabled => exact traced_bind (traced_modify fun _ => rfl) fun _ => traced_pure _
  | debug text => exact traced_bind (traced_debugLine (traced_pure text)) fun _ => traced_pure _

end Build

namespace Session

/-- All that a session comes to has been made from nothing, change by change. -/
theorem Reached.changes {workspace : Workspace} (reached : Reached workspace) : Changes {} workspace.store := by
  induction reached with
  | start debug => exact .refl
  | @step workspace _ statement _ ih => exact ih.trans (Build.traced_execute statement { workspace with printed := "" })

end Session

end WorkflowCompiler
