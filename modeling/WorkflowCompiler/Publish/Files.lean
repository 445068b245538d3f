import WorkflowCompiler.Builder.Rendering
import WorkflowCompiler.Yaml.Document

/-! Workflow files: the records of a set of workflows by file name, and the text of a file. -/

namespace WorkflowCompiler

/-- Data that YAML can hold as it is. -/
def Value.data? : Value → Option Tree
  | .null => some .null
  | .bool value => some (.bool value)
  | .int value => some (.int value)
  | .float value => some (.float value)
  | .text value => some (.text value)
  | .list items => (itemData? items).map .list
  | .tuple items => (itemData? items).map .list
  | .map entries => (entryData? entries).map .map
  | _ => none
where
  itemData? : List Value → Option (List Tree)
    | [] => some []
    | item :: rest => do return (← data? item) :: (← itemData? rest)
  entryData? : List (Value × Value) → Option (List (Tree × Tree))
    | [] => some []
    | (key, value) :: rest => do return (← data? key, ← data? value) :: (← entryData? rest)

/-- The record as plain data; a name that is no data cannot be written. -/
def WorkflowRecord.tree (record : WorkflowRecord) : Except Failure Tree :=
  match record.name.data? with
  | some name => .ok (Tree.record (("name", name) :: record.sections))
  | none => .error (.ofCause .unreadable)

namespace Publish

/-- The file names taken so far with the names of the workflows that took them. -/
abbrev Owners := List (Value × Value)

/-- The records of the workflows that could be rendered, and the faults of all others: a file
name that is taken, or an invalid workflow. -/
def collectRecords (store : Store) (owners : Owners) :
    List Value → Except Failure (List (Value × WorkflowRecord) × List Failure)
  | [] => .ok ([], [])
  | .workflow identity :: rest => do
    let workflow := store.workflow identity
    if !workflow.fileName.isKey then .error (.ofCause .mistyped)
    match Value.lookup? workflow.fileName owners with
    | some owner =>
      let fault := Failure.ofCause (.sharedFileName (← store.wording owner)
        (← store.wording workflow.name) (← store.wording workflow.fileName))
      let (records, faults) ← collectRecords store owners rest
      return (records, fault :: faults)
    | none =>
      let owners := owners ++ [(workflow.fileName, workflow.name)]
      match store.renderWorkflow identity with
      | .ok record =>
        let (records, faults) ← collectRecords store owners rest
        return ((workflow.fileName, record) :: records, faults)
      | .error fault =>
        if fault.category != .validation then .error fault
        let (records, faults) ← collectRecords store owners rest
        return (records, fault :: faults)
  | other :: _ => .error (.ofCause (.noAttribute other.typeName "file_name"))

/-- The records of workflows by file name, or all faults of all of them. -/
def records (store : Store) (workflows : List Value) :
    Except Failure (List (Value × WorkflowRecord)) := do
  let (records, faults) ← collectRecords store [] workflows
  if !faults.isEmpty then .error (Failure.collect .invalidWorkflows faults)
  return records

/-- The comment at the top of every file. -/
def header : String :=
  "\n".intercalate
    ["# ============================================================================",
      "# GENERATED FILE - DO NOT EDIT MANUALLY",
      "#",
      "# This workflow is generated by wfcompose. To modify:",
      "#   1. Edit the source workflow definition",
      "#   2. Run: wfcompose generate",
      "#   3. Commit the regenerated file",
      "#",
      "# ============================================================================",
      ""]

def fileText (tree : Tree) : String := header ++ "\n" ++ Yaml.document tree

end Publish

end WorkflowCompiler
