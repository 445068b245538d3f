import WorkflowCompiler.Builder.Workspace

/-! Views: what there is to see of a value. A view of a builder holds the record that it renders
to, or the failure to render it, and what it has declared. -/

namespace WorkflowCompiler

inductive View
  | null
  | bool (value : Bool)
  | int (value : Int)
  | float (value : Binary64)
  | text (value : String)
  | choice (value : Choice)
  | bytes (values : List Nat)
  | file (path : String)
  | foreign (typeName : String)
  | function
  | failure (value : Failure)
  | list (items : List View)
  | set (items : List View)
  | map (entries : List (View × View))
  | expression (text : String) (contents : List View)
  | path (segments : View)
  | command (line output exported : View)
  | step (record id outputs exported : View)
  | job (record axes needs stepIds stepOutputs services : View)
  | workflow (record : View) (summary : String) (fileName jobIds danglingNeeds : View)
  | event (entries : View)
deriving Inhabited

namespace View

mutual

def ofTree : Tree → View
  | .null => .null
  | .bool value => .bool value
  | .int value => .int value
  | .float value => .float value
  | .text value => .text value
  | .stamp value => .foreign (if value.length = 10 then "date" else "datetime")
  | .bytes values => .bytes values
  | .set members => .set (ofTrees members)
  | .list items => .list (ofTrees items)
  | .map entries => .map (ofEntries entries)

def ofTrees : List Tree → List View
  | [] => []
  | tree :: rest => ofTree tree :: ofTrees rest

def ofEntries : List (Tree × Tree) → List (View × View)
  | [] => []
  | entry :: rest => ofEntry entry :: ofEntries rest

def ofEntry : Tree × Tree → View × View
  | (key, value) => (ofTree key, ofTree value)

end

def ofFailing (view : α → View) : Except Failure α → View
  | .ok value => view value
  | .error fault => .failure fault

def ofLabel : Label → View
  | .text value => .text value
  | .choice value => .choice value

def texts (names : List String) : View := .list (names.map .text)

end View

namespace Store

/-- How deep the things shown in a view may lie in one another. -/
def viewDepth : Nat := 1000

/-- The view of a value, no more than so many levels deep. -/
def viewWithin (store : Store) : Nat → Value → Except Failure View
  | 0, _ => .error (.ofCause .endless)
  | depth + 1, value => do
    let view := store.viewWithin depth
    let views (values : List Value) := values.mapM view
    let mapView (entries : List (Value × Value)) : Except Failure View := do
      return .map (← entries.mapM fun (key, value) => do return (← view key, ← view value))
    match value with
    | .null => return .null
    | .bool value => return .bool value
    | .int value => return .int value
    | .float value => return .float value
    | .text value => return .text value
    | .choice value => return .choice value
    | .bytes values => return .bytes values
    | .file name => return .file name
    | .list items => return .list (← views items)
    | .tuple items => return .list (← views items)
    | .map entries => mapView entries
    | .path segments => return .path (.list (segments.map View.ofLabel))
    | .pathLike _ segments => return .path (← view segments)
    | .foreign _ "method" => return .function
    | .foreign _ name => return .foreign name
    | .function _ => return .function
    | .failure _ value => return .failure value
    | .command line output exported => return .command (← view line) (← view output) (← view exported)
    | .expression identity =>
      let contents ← (store.expression identity).contents.mapM fun
        | .text value => pure (.text value)
        | .path segments => pure (.path (.list (segments.map View.ofLabel)))
        | .nested inner => view (.expression inner)
      return .expression (← store.expressionText identity) contents
    | .event _ _ =>
      match Event.entries value with
      | .ok entries => return .event (← mapView entries)
      | .error fault => return .event (.failure fault)
    | .input _ _ =>
      match Event.entries value with
      | .ok entries => return .event (← mapView entries)
      | .error fault => return .event (.failure fault)
    | .step identity =>
      let step := store.step identity
      return .step (.ofFailing .ofTree (store.renderStep identity)) (← view step.id)
        (.list (← views step.outputs)) (.list (← views step.exported))
    | .job identity =>
      let job := store.job identity
      let outputs ← (← store.stepOutputs job).mapM fun (id, outputs) => do
        return (← view id, View.set (← views outputs))
      return .job (.ofFailing .ofTree (store.renderJob identity .null))
        (job.axes.elim .null View.texts) (View.texts job.neededJobs)
        (.list (← views (store.stepIds job))) (.map outputs) (View.texts job.services)
    | .workflow identity =>
      let workflow := store.workflow identity
      let record ← match store.renderWorkflow identity with
        | .ok record => recordView view record
        | .error fault => pure (.failure fault)
      let dangling ← (store.danglingNeeds workflow).mapM fun (jobId, needed) => do
        return View.list [← view jobId, .text needed]
      return .workflow record (← store.shown value) (← view workflow.fileName)
        (.list (← views (workflow.jobs.map Prod.fst))) (.list dangling)
where
  recordView (view : Value → Except Failure View) (record : WorkflowRecord) :
      Except Failure View := do
    let sections := record.sections.map fun (name, tree) => (View.text name, View.ofTree tree)
    return .map ((.text "name", ← view record.name) :: sections)

def view (store : Store) (value : Value) : Except Failure View := store.viewWithin viewDepth value

def recordView (store : Store) (record : WorkflowRecord) : Except Failure View :=
  viewWithin.recordView store.view record

end Store

end WorkflowCompiler
