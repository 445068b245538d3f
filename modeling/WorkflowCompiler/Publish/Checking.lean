import WorkflowCompiler.Publish.Writing
import WorkflowCompiler.Yaml.Load
import WorkflowCompiler.Diff.Report

/-! Whether the files of a directory are those of the workflows. Both are laid out as one text,
file after file in the order of their names, and the texts are compared. -/

namespace WorkflowCompiler.Publish

/-- A file as it is compared: the name that it is sorted by, the name that is shown, and what it
holds. -/
structure Listed where
  key : String
  name : String
  tree : Tree

namespace Listed

/-- A file under the name that it is shown by. -/
def ofFile : String × Tree → Listed
  | (name, tree) => ⟨name, name, tree⟩

def precedes (left right : Listed) : Bool := decide (left.key ≤ right.key)

def text (listed : Listed) : String :=
  "File: " ++ listed.name ++ fileExtension ++ "\n" ++ Yaml.document listed.tree

end Listed

def comparison (files : List Listed) : String :=
  "\n\n".intercalate ((files.mergeSort Listed.precedes).map Listed.text)

/-- The records as files. Names have an order if they are texts, or if there is but one. -/
def expected (store : Store) (records : List (Value × WorkflowRecord)) :
    Except Failure (List Listed) :=
  records.mapM fun (name, record) => do
    let key ← match name.chars?, records with
      | some key, _ => pure key
      | none, [_] => pure ""
      | none, _ => .error (.ofCause .mistyped)
    return ⟨key, ← store.wording name, ← record.tree⟩

def isWorkflowFile (name : String) : Bool := fileExtension.toList.isSuffixOf name.toList

/-- The name of a workflow file without its extension; the extension alone is a name. -/
def stem? (name : String) : Option String :=
  if !isWorkflowFile name then none
  else if name == fileExtension then some name
  else some (String.ofList (name.toList.take (name.length - fileExtension.length)))

/-- What a file holds if it is no mapping. -/
def mappingOf : Tree → Tree
  | .map entries => .map entries
  | _ => .map []

/-- What a text is read as: line breaks of every kind are line feeds, and what is no mapping is
empty. -/
def readText (text : String) : Except Failure Tree :=
  match Yaml.load (String.ofList (Text.plainBreaks text.toList)) with
  | .ok tree => .ok (mappingOf tree)
  | .error fault => .error (.ofCause (.unloadable fault))

def readContent : Content → Except Failure Tree
  | .text text => readText text
  | .bytes _ _ => .error (.ofCause .undecodable)

/-- The name and the tree of a workflow file in the directory `root`; nothing for what is none. What
has the name of one is looked at even if it is a directory. -/
def readEntry (root : Path) : String × Entry → Except Failure (Option (String × Tree))
  | (name, entry) =>
    match stem? name with
    | none => .ok none
    | some stem =>
      let path := root.child name
      if Disk.longestPath < path.text.utf8ByteSize then .error (Disk.refusal .nameTooLong path)
      else match entry with
        | .directory => .ok none
        | .file content => do return some (stem, ← readContent content)

def byFileName (left right : String × Entry) : Bool := decide (left.1 ≤ right.1)

/-- Of two files with one name the later counts, in the place of the earlier. -/
def byName (files : List (String × Tree)) : List (String × Tree) :=
  files.foldl (fun found (name, tree) => Workflow.putNamed name tree found) []

/-- The workflow files directly in a directory, by name. -/
def readFiles (disk : Disk) (current : Place) (root : Path) :
    Except Failure (List (String × Tree)) := do
  if Disk.holdsNul root then return []
  if !(← disk.isAt current root Disk.isDirectory) then return []
  match disk.locate current root with
  | .error fault => .error (Disk.refusal fault root)
  | .ok place =>
    let files ← ((disk.within place).mergeSort byFileName).filterMapM (readEntry root)
    return byName files

/-- How the files of a directory differ from those of the workflows; the empty text if they do
not. -/
def check (store : Store) (current : Place) (disk : Disk) (workflows : List Value) (root : Path) :
    Except Failure String := do
  let expected ← expected store (← records store workflows)
  let actual ← readFiles disk current root
  return Diff.difference {} (comparison (actual.map Listed.ofFile)) (comparison expected)

end WorkflowCompiler.Publish
