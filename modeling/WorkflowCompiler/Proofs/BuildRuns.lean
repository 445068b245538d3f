import WorkflowCompiler.Script.Session

/-! What running a step of building gives, and the workspace that it leaves. -/

namespace WorkflowCompiler.Build

@[simp] theorem run_pure (value : α) (workspace : Workspace) :
    (pure value : Build α).run workspace = (.ok value, workspace) := rfl

theorem run_bind (first : Build α) (next : α → Build β) (workspace : Workspace) :
    (first >>= next).run workspace =
      match first.run workspace with
      | (.ok value, after) => (next value).run after
      | (.error failure, after) => (.error failure, after) := by
  show StateT.run (ExceptT.run (first >>= next)) workspace = _
  simp only [ExceptT.run_bind, StateT.run_bind]
  show (do let result ← StateT.run (ExceptT.run first) workspace; _) = _
  unfold Build.run
  rcases StateT.run (ExceptT.run first) workspace with ⟨result, after⟩
  cases result <;> rfl

theorem run_bind_ok {first : Build α} {next : α → Build β} {workspace after : Workspace} {value : α}
    (result : first.run workspace = (.ok value, after)) :
    (first >>= next).run workspace = (next value).run after := by
  rw [run_bind, result]

@[simp] theorem run_ofExcept_ok (value : α) (workspace : Workspace) :
    (ofExcept (.ok value) : Build α).run workspace = (.ok value, workspace) := rfl

theorem run_ask {question : Store → Except Failure α} {workspace : Workspace} {value : α}
    (answer : question workspace.store = .ok value) :
    (ask question).run workspace = (.ok value, workspace) := by
  have inner : (ask question).run workspace = (ofExcept (question workspace.store)).run workspace := rfl
  rw [inner, answer, run_ofExcept_ok]

theorem run_ask_eq (question : Store → Except Failure α) (workspace : Workspace) :
    (ask question).run workspace = (question workspace.store, workspace) := by
  show (ofExcept (question workspace.store)).run workspace = _
  cases question workspace.store <;> rfl

theorem run_ofExcept_eq (result : Except Failure α) (workspace : Workspace) :
    (ofExcept result).run workspace = (result, workspace) := by
  cases result <;> rfl

/-- Building in two parts fails in the first, or goes on from what the first gives. -/
theorem run_bind_cases {first : Build α} {next : α → Build β} {workspace after : Workspace} {result : Except Failure β}
    (ran : (first >>= next).run workspace = (result, after)) :
    (∃ failure, first.run workspace = (.error failure, after) ∧ result = .error failure) ∨
    ∃ value between, first.run workspace = (.ok value, between) ∧ (next value).run between = (result, after) := by
  rw [run_bind] at ran
  rcases onFirst : first.run workspace with ⟨failure | value, between⟩
  · rw [onFirst] at ran
    cases ran
    exact .inl ⟨failure, rfl, rfl⟩
  · rw [onFirst] at ran
    exact .inr ⟨value, between, rfl, ran⟩

theorem run_mapM_ask (question : Store → α → Except Failure β) (items : List α) (workspace : Workspace) :
    (items.mapM fun item => ask (question · item)).run workspace = (items.mapM (question workspace.store), workspace) := by
  induction items with
  | nil => rfl
  | cons item rest ih =>
    simp only [List.mapM_cons]
    rw [run_bind, run_ask_eq]
    rcases question workspace.store item with failure | value
    · rfl
    · simp only [run_bind, ih]
      cases rest.mapM (question workspace.store) <;> rfl

@[simp] theorem run_store (workspace : Workspace) : store.run workspace = (.ok workspace.store, workspace) := rfl

theorem run_newExpression (expression : Expression) (workspace : Workspace) :
    (newExpression expression).run workspace =
      (.ok workspace.store.expressions.length,
        { workspace with store :=
          { workspace.store with expressions := workspace.store.expressions ++ [expression] } }) := rfl

end WorkflowCompiler.Build
