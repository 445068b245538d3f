import WorkflowCompiler.Value
import WorkflowCompiler.Number.Size

/-! Equality of values and mappings keyed by values. Numbers are compared by size, so that a
truth value equals zero or one; texts by their characters, lists and mappings by their members;
objects that change are equal only to themselves. -/

namespace WorkflowCompiler.Value

def size? : Value → Option Size
  | .bool value => some (.ofBool value)
  | .int value => some (.whole value)
  | .float value => some (.ofFloat value)
  | _ => none

def sameSize (left right : Value) : Bool :=
  match left.size?, right.size? with
  | some left, some right => left.equals right
  | _, _ => false

def sameChars (left right : Value) : Bool :=
  match left.chars?, right.chars? with
  | some left, some right => left == right
  | _, _ => false

mutual

def equals : Value → Value → Bool
  | .null, right => right.isNull
  | .bytes left, .bytes right => left == right
  | .file left, .file right => left == right
  | .list left, .list right => equalItems left right
  | .tuple left, .tuple right => equalItems left right
  | .map left, .map right => left.length == right.length && equalEntries left right
  | .path left, .path right => left.map Label.chars == right.map Label.chars
  | .pathLike left _, .pathLike right _ => left == right
  | .foreign left _, .foreign right _ => left == right
  | .expression left, .expression right => left == right
  | .step left, .step right => left == right
  | .job left, .job right => left == right
  | .workflow left, .workflow right => left == right
  | .command line output exported, .command line' output' exported' =>
    equals line line' && equals output output' && equals exported exported'
  | .event left settings, .event right settings' => left == right && equalItems settings settings'
  | .input left settings, .input right settings' => left == right && equalItems settings settings'
  | .function left, .function right => left == right
  | .failure left _, .failure right _ => left == right
  | left, right => sameSize left right || sameChars left right

def equalItems : List Value → List Value → Bool
  | [], [] => true
  | left :: lefts, right :: rights => equals left right && equalItems lefts rights
  | _, _ => false

/-- Whether every entry has an equal one among `right`. -/
def equalEntries : List (Value × Value) → List (Value × Value) → Bool
  | [], _ => true
  | entry :: rest, right => hasEntry entry right && equalEntries rest right

def hasEntry : Value × Value → List (Value × Value) → Bool
  | (key, value), right =>
    match right.find? fun other => equals key other.1 with
    | some other => equals value other.2
    | none => false

end

mutual

/-- Whether a mapping may have the value as a key. -/
def isKey : Value → Bool
  | .list _ => false
  | .map _ => false
  | .event _ _ => false
  | .input _ _ => false
  | .tuple items => areKeys items
  | .command line output exported => isKey line && isKey output && isKey exported
  | _ => true

def areKeys : List Value → Bool
  | [] => true
  | value :: rest => isKey value && areKeys rest

end

def lookup? (key : Value) (entries : List (Value × α)) : Option α :=
  (entries.find? fun entry => equals key entry.1).map Prod.snd

/-- A key that is there keeps its place and takes the new value. -/
def insert (key : Value) (item : α) : List (Value × α) → List (Value × α)
  | [] => [(key, item)]
  | (other, old) :: rest =>
    if equals key other then (other, item) :: rest else (other, old) :: insert key item rest

/-- Adds an entry unless its key cannot be one. -/
def insertKey (entries : List (Value × α)) (key : Value) (item : α) :
    Except Failure (List (Value × α)) :=
  if key.isKey then .ok (insert key item entries) else .error (.ofCause .mistyped)

/-- A mapping from entries in order. -/
def ofEntries (entries : List (Value × α)) : Except Failure (List (Value × α)) :=
  entries.foldlM (fun found entry => insertKey found entry.1 entry.2) []

/-- A mapping, or pairs that make one. A context path looks like a mapping and is none. -/
def toEntries : Value → Except Failure (List (Value × Value))
  | .map entries => .ok entries
  | .path _ => .error (.ofCause .mistyped)
  | value => do
    let items ← value.iterate
    let pairs ← items.zipIdx.mapM fun (item, position) => do
      match ← item.iterate with
      | [key, item] => .ok (key, item)
      | parts => .error (.ofCause (.badPairLength position parts.length))
    ofEntries pairs

/-- The entries of a mapping, asked for by name. Asking a context path gives another path. -/
def itemEntries : Value → Except Failure (List (Value × Value))
  | .map entries => .ok entries
  | .path _ => .error (.ofCause .mistyped)
  | other => .error (.ofCause (.noAttribute other.typeName "items"))

/-- The modulus by which numbers are hashed. -/
def hashModulus : Nat := Nat.pow 2 61 - 1

def hashOfInt (value : Int) : Int :=
  let reduced : Int := value.natAbs % hashModulus
  let signed := if value < 0 then -reduced else reduced
  if signed = -1 then -2 else signed

/-- A value with the same hash in a plainer form; values are hashed alike if and only if their
forms are equal. -/
def hashForm : Value → Value
  | .float (.infinite negative) => .int (if negative then -314159 else 314159)
  | .text "" => .int 0
  | .bytes [] => .int 0
  | .path segments => .tuple [.tuple (segments.map ofLabel)]
  | .command line output exported => .tuple [line, output, exported]
  | value =>
    match value.size? with
    | some (.whole whole) => .int (hashOfInt whole)
    | _ => value

def sameHash (left right : Value) : Except Failure Bool :=
  if left.isKey && right.isKey then .ok (left.hashForm.equals right.hashForm)
  else .error (.ofCause .mistyped)

end WorkflowCompiler.Value
