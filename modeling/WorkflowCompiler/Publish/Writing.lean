import WorkflowCompiler.Publish.Bundle
import WorkflowCompiler.Publish.Files

/-! Writing workflow files. All workflows are rendered before anything on the disk changes; a file
that cannot be written does not keep the others from being written. -/

namespace WorkflowCompiler.Publish

/-- What a run left behind and how it ended. -/
structure Outcome where
  disk : Disk
  notes : List Note
  result : Except Failure Unit

def fileExtension : String := ".yml"

def filePath (root : Path) (fileName : String) : Path :=
  root.join (Path.ofText (fileName ++ fileExtension))

/-- Makes the directory for the files; with `cleanup` it is empty afterwards. -/
def prepare (disk : Disk) (current : Place) (root : Path) (cleanup : Bool) :
    Disk × Except Failure Unit :=
  if !cleanup then disk.makePath current true root
  else if Disk.holdsNul root then disk.makePath current false root
  else match disk.isAt current root fun _ => true with
    | .error failure => (disk, .error failure)
    | .ok false => disk.makePath current false root
    | .ok true =>
      match disk.locate current root with
      | .error fault => (disk, .error (Disk.refusal fault root))
      | .ok place =>
        match disk.find place with
        | some (.file _) => (disk, .error (Disk.refusal .notDirectory root))
        | _ => disk.empty root place

/-- The files of the records with their texts, up to the first record that has none. -/
def texts (store : Store) (root : Path) :
    List (Value × WorkflowRecord) → List (Path × String) × Except Failure Unit
  | [] => ([], .ok ())
  | (name, record) :: rest =>
    match store.wording name, record.tree with
    | .ok name, .ok tree =>
      let (files, result) := texts store root rest
      ((filePath root name, fileText tree) :: files, result)
    | .error failure, _ => ([], .error failure)
    | _, .error failure => ([], .error failure)

/-- Writes files one after the other and tells how each fared. -/
def writeFiles (current : Place) (disk : Disk) :
    List (Path × String) → Disk × List (Path × Except Failure Unit)
  | [] => (disk, [])
  | (path, text) :: rest =>
    match disk.write current path text with
    | .ok disk =>
      let (disk, results) := writeFiles current disk rest
      (disk, (path, .ok ()) :: results)
    | .error failure =>
      let (disk, results) := writeFiles current disk rest
      (disk, (path, .error failure) :: results)

def isDiskFault (failure : Failure) : Bool :=
  match failure.category with
  | .disk _ => true
  | _ => false

def byReport (left right : Failure) : Bool := decide (left.report ≤ right.report)

def failureOf : Path × Except Failure Unit → Option Failure
  | (_, .error failure) => some failure
  | (_, .ok ()) => none

/-- The files that were refused, summed up. Any other fault stands for itself. -/
def summary (root : Path) (results : List (Path × Except Failure Unit)) : Except Failure Unit :=
  let failures := results.filterMap failureOf
  match failures.find? (!isDiskFault ·) with
  | some failure => .error failure
  | none =>
    if failures.isEmpty then .ok ()
    else .error (.mk (.notWritten failures.length results.length root.text)
      (failures.mergeSort byReport))

def written (results : List (Path × Except Failure Unit)) : List Note :=
  results.filterMap fun
    | (path, .ok ()) => some (.wrote path)
    | _ => none

/-- The order in which files that are written at the same time are done. -/
abbrev Order := List (Path × String) → List (Path × String)

/-- Writes the files of the workflows into the directory `root`, in some order. -/
def generateIn (order : Order) (store : Store) (current : Place) (disk : Disk) (workflows : List Value)
    (root : Path) (cleanup : Bool) : Outcome :=
  match records store workflows with
  | .error failure => ⟨disk, [], .error failure⟩
  | .ok records =>
    let notes := if cleanup then [Note.emptying root] else []
    match prepare disk current root cleanup with
    | (disk, .error failure) => ⟨disk, notes, .error failure⟩
    | (disk, .ok ()) =>
      let (files, rendered) := texts store root records
      let (disk, results) := writeFiles current disk (order files)
      match rendered with
      | .error failure => ⟨disk, notes, .error failure⟩
      | .ok () => ⟨disk, notes ++ written results, summary root results⟩

def generate : Store → Place → Disk → List Value → Path → Bool → Outcome := generateIn id

end WorkflowCompiler.Publish
