import WorkflowCompiler.Path.Posix
import WorkflowCompiler.Failure

/-! Files and directories. A place is the list of the names that lead to it from the root, which is
always a directory. Everything else that there is has an entry. -/

namespace WorkflowCompiler

/-- What a file holds: a text, or bytes that are none. -/
inductive Content
  | text (value : String)
  | bytes (values : ByteArray) (noText : ¬ values.IsValidUTF8)

namespace Content

instance : DecidableEq Content
  | text first, text second => decidable_of_iff (first = second) (by simp)
  | bytes first _, bytes second _ => @decidable_of_iff _ (first = second) (by simp) (ByteArray.instDecidableEq first second)
  | text _, bytes _ _ => isFalse (by simp)
  | bytes _ _, text _ => isFalse (by simp)

instance : Coe String Content := ⟨text⟩

instance : Repr Content where
  reprPrec
    | text value, precedence => reprPrec value precedence
    | bytes values _, precedence => reprPrec values.toList precedence

end Content

inductive Entry
  | file (content : Content)
  | directory
deriving DecidableEq, Repr

abbrev Place := List String

structure Disk where
  entries : List (Place × Entry) := []
deriving DecidableEq, Repr, Inhabited

namespace Disk

def find (disk : Disk) (place : Place) : Option Entry :=
  if place = [] then some .directory else disk.entries.lookup place

def put (disk : Disk) (place : Place) (entry : Entry) : Disk :=
  ⟨disk.entries.filter (·.1 != place) ++ [(place, entry)]⟩

/-- Removes a place with all below it. -/
def erase (disk : Disk) (place : Place) : Disk :=
  ⟨disk.entries.filter fun (other, _) => !place.isPrefixOf other⟩

/-- What is directly in a directory, by name. -/
def within (disk : Disk) (place : Place) : List (String × Entry) :=
  disk.entries.filterMap fun (other, entry) =>
    match other.getLast? with
    | some name => if other.dropLast == place then some (name, entry) else none
    | none => none

/-- Whether the first place comes first in the order of names, read from the root. -/
def precedes (left right : Place × Entry) : Bool :=
  !right.1.lex left.1 fun name other => decide (name < other)

/-- All entries in order: a directory before what it holds, names by their characters. -/
def sorted (disk : Disk) : List (Place × Entry) := disk.entries.mergeSort precedes

/-- All entries below a place in order, by the names that lead there. -/
def below (disk : Disk) (base : Place) : List (Place × Entry) :=
  disk.sorted.filterMap fun (place, entry) =>
    if base.isPrefixOf place && place != base then some (place.drop base.length, entry) else none

/-- How many bytes a name may have. -/
def longestName : Nat := 255

def isUp (part : String) : Bool := part == ".."

/-- Follows components from a place. All that lies on the way must be a directory. -/
def follow (disk : Disk) (place : Place) : List String → Except DiskFault Place
  | [] => .ok place
  | part :: rest =>
    match disk.find place with
    | none => .error .noEntry
    | some (.file _) => .error .notDirectory
    | some .directory =>
      if longestName < part.utf8ByteSize then .error .nameTooLong
      else if isUp part then follow disk place.dropLast rest
      else follow disk (place ++ [part]) rest

/-- Where a path starts: relative paths start at `current`. From there components `..` lead up,
also when the directory that they leave was removed in the meantime. -/
def start (current : Place) (path : Path) : Place :=
  Path.climb (if path.isAbsolute then [] else current) (path.parts.takeWhile isUp)

/-- Where a path leads. -/
def reach (disk : Disk) (current : Place) (path : Path) : Except DiskFault Place :=
  follow disk (start current path) (path.parts.dropWhile isUp)

/-- How many bytes the text of a path may have. -/
def longestPath : Nat := 4095

/-- The place of a path. -/
def locate (disk : Disk) (current : Place) (path : Path) : Except DiskFault Place :=
  if longestPath < path.text.utf8ByteSize then .error .nameTooLong else disk.reach current path

/-- What is at a path. -/
def status (disk : Disk) (current : Place) (path : Path) : Except DiskFault Entry := do
  match disk.find (← disk.locate current path) with
  | some entry => .ok entry
  | none => .error .noEntry

def isDirectory : Entry → Bool
  | .directory => true
  | .file _ => false

def isFile (entry : Entry) : Bool := !isDirectory entry

def refusal (fault : DiskFault) (path : Path) : Failure := .ofCause (.refused fault path.text)

/-- Whether there is something at a path that is as `wanted`. That there is nothing is no fault. -/
def isAt (disk : Disk) (current : Place) (path : Path) (wanted : Entry → Bool) :
    Except Failure Bool :=
  match disk.status current path with
  | .ok entry => .ok (wanted entry)
  | .error .noEntry => .ok false
  | .error .notDirectory => .ok false
  | .error fault => .error (refusal fault path)

def holdsNul (path : Path) : Bool := path.parts.any (·.toList.contains '\x00')

/-- Makes a directory whose parent is there. -/
def makeDirectory (disk : Disk) (current : Place) (path : Path) : Except DiskFault Disk := do
  let place ← disk.locate current path
  match disk.find place with
  | some _ => .error .alreadyExists
  | none => .ok (disk.put place .directory)

/-- What a refusal to make a directory comes to: none, if the directory is there and that is all
that is wanted. -/
def settle (disk : Disk) (current : Place) (lenient : Bool) (path : Path) (fault : DiskFault) :
    Except Failure Unit := do
  if lenient && (← disk.isAt current path isDirectory) then return
  .error (refusal fault path)

/-- Makes a directory with the parents that are missing, at most `depth` of them. Parents that
were made stay when the directory cannot be made. -/
def makeDirectories (disk : Disk) (current : Place) (lenient : Bool) (path : Path) :
    Nat → Disk × Except Failure Unit
  | 0 => (disk, .error (refusal .noEntry path))
  | depth + 1 =>
    match disk.makeDirectory current path with
    | .ok made => (made, .ok ())
    | .error .noEntry =>
      if path.parts.isEmpty then (disk, .error (refusal .noEntry path))
      else match disk.makeDirectories current true path.parent depth with
        | (disk, .error failure) => (disk, .error failure)
        | (disk, .ok ()) =>
          match disk.makeDirectory current path with
          | .ok made => (made, .ok ())
          | .error fault => (disk, disk.settle current lenient path fault)
    | .error fault => (disk, disk.settle current lenient path fault)

/-- Makes a directory and all of its parents. A directory that is there already is a fault unless
`lenient`. -/
def makePath (disk : Disk) (current : Place) (lenient : Bool) (path : Path) :
    Disk × Except Failure Unit :=
  if holdsNul path then (disk, .error (.ofCause .nulInPath))
  else disk.makeDirectories current lenient path (path.parts.length + 1)

/-- Removes what is directly in a directory, one name after the other, with all below it. What was
removed before a name that is refused stays removed. -/
def removeAll (disk : Disk) (path : Path) (place : Place) : List String → Disk × Except Failure Unit
  | [] => (disk, .ok ())
  | name :: rest =>
    let child := path.child name
    if longestPath < child.text.utf8ByteSize then (disk, .error (refusal .nameTooLong child))
    else (disk.erase (place ++ [name])).removeAll path place rest

/-- Empties the directory that a path leads to. -/
def empty (disk : Disk) (path : Path) (place : Place) : Disk × Except Failure Unit :=
  disk.removeAll path place ((disk.within place).map Prod.fst)

/-- Writes a file, in place of the one that is there. -/
def write (disk : Disk) (current : Place) (path : Path) (text : String) : Except Failure Disk :=
  if holdsNul path then .error (.ofCause .nulInPath)
  else match disk.locate current path with
    | .error fault => .error (refusal fault path)
    | .ok place =>
      match disk.find place with
      | some .directory => .error (refusal .isDirectory path)
      | _ => .ok (disk.put place (.file (.text text)))

end Disk

end WorkflowCompiler
