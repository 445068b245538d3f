import WorkflowCompiler.Script.Session
import WorkflowCompiler.Publish.Files

/-! Reports on workflows that recipes describe: their records and their files. -/

namespace WorkflowCompiler.Build

/-- The workflows of recipes, made in one workspace. -/
def workflows (recipes : List Recipe) : Build (List Value) := evaluateArguments recipes

def reportRecords (recipes : List Recipe) : Build View := do
  let workflows ← workflows recipes
  ask fun store => do
    let records ← Publish.records store workflows
    return .map (← records.mapM fun (name, record) => do
      return (← store.view name, ← store.recordView record))

def reportFiles (recipes : List Recipe) : Build View := do
  let workflows ← workflows recipes
  ask fun store => do
    let records ← Publish.records store workflows
    return .list (← records.mapM fun (name, record) => do
      return View.list [← store.view name, .text (Publish.fileText (← record.tree))])

/-- The document that holds a value of plain data. -/
def reportDocument (recipe : Recipe) : Build View := do
  match (← evaluateTop recipe).data? with
  | some tree => return .text (Yaml.document tree)
  | none => fail .unreadable

end WorkflowCompiler.Build

namespace WorkflowCompiler.Session

def view (build : Build View) : Except Failure View := (build.run {}).1

end WorkflowCompiler.Session
