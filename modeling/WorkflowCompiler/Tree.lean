import WorkflowCompiler.Number.Decimal
import WorkflowCompiler.Number.Size

/-! Plain data: what a workflow renders to and what a YAML document holds. A mapping is a list
of entries in the order in which they are written. Dates, bytes and sets are in documents only. -/

namespace WorkflowCompiler

inductive Tree
  | null
  | bool (value : Bool)
  | int (value : Int)
  | float (value : Binary64)
  | text (value : String)
  | stamp (value : String)
  | bytes (values : List Nat)
  | set (members : List Tree)
  | list (items : List Tree)
  | map (entries : List (Tree × Tree))
deriving Inhabited, Repr

namespace Tree

def boolText (value : Bool) : String := if value then "true" else "false"

/-- A mapping whose keys are texts. -/
def record (fields : List (String × Tree)) : Tree :=
  .map (fields.map fun (name, value) => (.text name, value))

def size? : Tree → Option Size
  | .bool value => some (.ofBool value)
  | .int value => some (.whole value)
  | .float value => some (.ofFloat value)
  | _ => none

mutual

/-- Whether two keys name one entry: numbers are compared by size, sequences item by item. -/
def sameKey : Tree → Tree → Bool
  | .null, .null => true
  | .text left, .text right => left == right
  | .stamp left, .stamp right => left == right
  | .bytes left, .bytes right => left == right
  | .list left, .list right => sameKeys left right
  | left, right =>
    match left.size?, right.size? with
    | some left, some right => left.equals right
    | _, _ => false

def sameKeys : List Tree → List Tree → Bool
  | [], [] => true
  | left :: lefts, right :: rights => sameKey left right && sameKeys lefts rights
  | _, _ => false

end

/-- Puts a value under a key; a key that is there keeps its place. -/
def insert (key value : Tree) : List (Tree × Tree) → List (Tree × Tree)
  | [] => [(key, value)]
  | (other, old) :: rest =>
    if sameKey key other then (other, value) :: rest else (other, old) :: insert key value rest

end Tree

end WorkflowCompiler
