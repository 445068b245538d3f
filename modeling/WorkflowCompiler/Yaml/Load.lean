import WorkflowCompiler.Text.Blank
import WorkflowCompiler.Tree
import WorkflowCompiler.Yaml.Base64
import WorkflowCompiler.Yaml.Node
import WorkflowCompiler.Yaml.Timestamp
import WorkflowCompiler.Yaml.Tokens

/-! Reading a document into plain data. A reference stands for the node that bears its anchor; a
merge key takes over the entries of other mappings, whose place is before the mapping's own. No
mapping may name an entry twice. A tag asks for data of its kind, whatever the spelling tells. -/

namespace WorkflowCompiler.Yaml

/-- What a node stands for. A mapping stays open for merging: its entries are still in the order
in which they are written, and `repeats` tells that two of them have one key. -/
inductive Part
  | done (tree : Tree)
  | items (parts : List Part)
  | mapping (entries : List (Tree × Tree)) (repeats : Bool)
deriving Inhabited

/-- Anchors with what they stand for, the latest first; nothing for one whose node is still being
read. `loops` tells that a node was found to hold itself. -/
structure Reading where
  anchors : List (String × Option Part) := []
  loops : Bool := false

def bitValue (base : Nat) (digits : List Char) : Nat :=
  digits.foldl (fun value digit => base * value + hexValue digit) 0

/-- The groups of a number in base sixty. -/
def groups : List Char → List (List Char)
  | [] => [[]]
  | ':' :: rest => [] :: groups rest
  | c :: rest =>
    match groups rest with
    | [] => [[c]]
    | group :: others => (c :: group) :: others

/-- The letter that may tell the base of a number behind a zero. -/
def baseLetter : Nat → Char
  | 2 => 'b'
  | 8 => 'o'
  | _ => 'x'

def withoutBase (base : Nat) : List Char → List Char
  | '0' :: letter :: digits =>
    if base != 10 && letter.toLower == baseLetter base then digits else '0' :: letter :: digits
  | digits => digits

/-- A whole number in a base, with blanks around it and a sign if need be. -/
def wholeNumber (base : Nat) (written : List Char) : Except Fault Int :=
  let trimmed := Text.trim written
  let digits := withoutBase base (afterSign trimmed)
  if digits.isEmpty || !digits.all fun c => isHex c && hexValue c < base then
    .error (.notWhole base (String.ofList written))
  else .ok (if trimmed.head? == some '-' then -(bitValue base digits : Int) else bitValue base digits)

/-- The size of an integer, its sign and underscores left out. -/
def intSize (version : Version) : List Char → Except Fault Int
  | '0' :: 'b' :: digits => wholeNumber 2 digits
  | '0' :: 'o' :: digits => wholeNumber 8 digits
  | '0' :: 'x' :: digits => wholeNumber 16 digits
  | digits =>
    if version = .current then wholeNumber 10 digits
    else match digits.head? with
      | none => .error .noDigits
      | some '0' => wholeNumber 8 digits
      | some _ => do
        let values ← (groups digits).mapM (wholeNumber 10)
        return values.foldl (60 * · + ·) 0

/-- The integer that a scalar of that kind spells. -/
def intValue (version : Version) (text : List Char) : Except Fault Int := do
  let written := text.filter (· != '_')
  if written.isEmpty then .error .noDigits
  let size ← intSize version (afterSign written)
  return if written.head? == some '-' then -size else size

/-- A number with a fraction or an exponent, with blanks around it and a sign if need be, or the
word for one without end. -/
def fractionNumber (negative : Bool) (written : List Char) : Except Fault Binary64 :=
  let trimmed := Text.trim written
  let negative := negative != (trimmed.head? == some '-')
  let digits := afterSign trimmed
  if digits == "infinity".toList then .ok (.infinite negative)
  else match Binary64.ofUnsigned? negative digits with
    | some value => .ok value
    | none => .error (.notFraction (String.ofList written))

/-- A number in base sixty, its groups from the last one on. Every sum is rounded. -/
def sixtyfoldFloat : List (List Char) → Except Fault Binary64
  | [] => .error .noDigits
  | last :: others => do
    let value ← fractionNumber false last
    return (others.foldl (fun (value, weight) group =>
      (Binary64.addWhole value (bitValue 10 group * weight), 60 * weight)) (value, 60)).1

def floatValue (version : Version) (text : List Char) : Except Fault Binary64 := do
  let written := (text.filter (· != '_')).map Char.toLower
  if written.isEmpty then .error .noDigits
  let negative := written.head? == some '-'
  let digits := afterSign written
  if digits == ".inf".toList then return .infinite negative
  else if digits == ".nan".toList then return .notANumber
  else if version = .older && digits.contains ':' then
    let _ ← (groups digits).mapM (fractionNumber false)
    let value ← sixtyfoldFloat (groups digits).reverse
    return if negative then value.negate else value
  else fractionNumber negative digits

/-- The truth value that a word of either version spells, whatever the size of its letters. -/
def truthValue (text : String) : Except Fault Bool :=
  let word := String.ofList (text.toList.map Char.toLower)
  if (trueWords .older).contains word then .ok true
  else if (falseWords .older).contains word then .ok false
  else .error (.notATruthValue word)

def bytesOf (text : String) : Except Fault (List Nat) :=
  match if text.toList.all (·.toNat < 0x80) then Base64.decode? text.toList else none with
  | some values => .ok values
  | none => .error .malformed

def stampText (text : List Char) : Except Fault String := (stampChars text).map String.ofList

def scalarTree (version : Version) (text : String) (plain : Bool) : Except Fault Tree :=
  if !plain then .ok (.text text)
  else match kindIn version text with
    | .null => .ok .null
    | .bool value => .ok (.bool value)
    | .int => (intValue version text.toList).map .int
    | .float => (floatValue version text.toList).map .float
    | .timestamp => (stampText text.toList).map .stamp
    | .mergeKey => .error .malformed
    | .defaultKey => .error .malformed
    | .text => .ok (.text text)

/-- The kinds of data that a tag can ask for. -/
inductive Tag
  | null
  | bool
  | int
  | float
  | text
  | stamp
  | bytes
  | list
  | map
  | set
  | orderedMap
  | pairs
deriving DecidableEq, Repr

def tagSpace : String := "tag:yaml.org,2002:"

def tagNames : List (String × Tag) :=
  [("null", .null), ("bool", .bool), ("int", .int), ("float", .float), ("str", .text), ("timestamp", .stamp),
    ("binary", .bytes), ("seq", .list), ("map", .map), ("set", .set), ("omap", .orderedMap), ("pairs", .pairs)]

def Tag.ofText? (text : String) : Option Tag :=
  (tagNames.find? fun (name, _) => tagSpace ++ name == text).map Prod.snd

/-- A text without a line feed at its end. -/
def withoutFinalFeed (text : List Char) : List Char :=
  if text.getLast? == some '\n' then text.dropLast else text

/-- A scalar as data of the kind that its tag asks for. -/
def taggedScalar (version : Version) (tag : Option Tag) (text : String) : Except Fault Tree :=
  match tag with
  | some .null => .ok .null
  | some .bool => (truthValue text).map .bool
  | some .int => (intValue version text.toList).map .int
  | some .float => (floatValue version text.toList).map .float
  | some .text => .ok (.text text)
  | some .stamp => (stampText (withoutFinalFeed text.toList)).map .stamp
  | some .bytes => (bytesOf text).map .bytes
  | _ => .error .malformed

/-- The entries of a mapping, of which the last one of a key counts in the place of the first. -/
def unique (entries : List (Tree × Tree)) : List (Tree × Tree) :=
  entries.foldl (fun found (key, value) => Tree.insert key value found) []

mutual

/-- The data that a part stands for on its own. -/
def Part.tree : Part → Except Fault Tree
  | .done tree => .ok tree
  | .items parts => do return .list (← Part.trees parts)
  | .mapping entries repeats => if repeats then .error .malformed else .ok (.map (unique entries))

def Part.trees : List Part → Except Fault (List Tree)
  | [] => .ok []
  | part :: rest => do return (← Part.tree part) :: (← Part.trees rest)

end

/-- The entries that merging a part takes over; of several mappings the first one wins. -/
def Part.merged : Part → Except Fault (List (Tree × Tree))
  | .done _ => .error .malformed
  | .mapping entries _ => .ok entries
  | .items parts => do
    let merged ← parts.mapM fun
      | .mapping entries _ => .ok entries
      | _ => .error .malformed
    return merged.reverse.flatten

def isCollection : Tree → Bool
  | .list _ => true
  | .map _ => true
  | .set _ => true
  | _ => false

/-- Why data cannot be a key. A list can, if none of its items holds anything. -/
def keyFault? : Tree → Option Fault
  | .list items => if items.any isCollection then some .unhashable else none
  | tree => if isCollection tree then some .malformed else none

def isMergeKey : Node → Bool
  | .scalar text plain => plain && kindOf text == .mergeKey
  | .anchored _ (.scalar text plain) => plain && kindOf text == .mergeKey
  | _ => false

def isDefaultKey : Node → Bool
  | .scalar text plain => plain && kindOf text == .defaultKey
  | _ => false

/-- Fills in the anchor that was left open last. -/
def fillAnchor (name : String) (part : Part) : List (String × Option Part) → List (String × Option Part)
  | [] => []
  | (other, found) :: rest =>
    if other = name && found.isNone then (other, some part) :: rest
    else (other, found) :: fillAnchor name part rest

def Reading.openAnchor (name : String) (reading : Reading) : Reading :=
  { reading with anchors := (name, none) :: reading.anchors }

def Reading.closeAnchor (name : String) (part : Part) (reading : Reading) : Reading :=
  { reading with anchors := fillAnchor name part reading.anchors }

/-- What a reference stands for. In place of a node that holds it there is nothing. -/
def Reading.referred (name : String) (reading : Reading) : Except Fault (Part × Reading) :=
  match reading.anchors.lookup name with
  | none => .error .malformed
  | some none => .ok (.done .null, { reading with loops := true })
  | some (some part) => .ok (part, reading)

def distinct : List Tree → Bool
  | [] => true
  | key :: rest => !rest.any (Tree.sameKey key) && distinct rest

/-- The members of a set: the keys of a mapping. -/
def membersOf : Part → Except Fault Tree
  | .mapping entries false => .ok (.set ((unique entries).map Prod.fst))
  | _ => .error .malformed

/-- Pairs as a mapping, `found` being the entries so far. -/
def orderedEntries (found : List (Tree × Tree)) : List (Tree × Tree) → Except Fault (List (Tree × Tree))
  | [] => .ok found
  | (key, value) :: rest =>
    if isCollection key then .error .unhashable
    else if found.any fun entry => Tree.sameKey key entry.1 then .error .repeatedKey
    else orderedEntries (found ++ [(key, value)]) rest

mutual

def Node.part (version : Version) (reading : Reading) : Node → Except Fault (Part × Reading)
  | .scalar text plain => do return (.done (← scalarTree version text plain), reading)
  | .sequence items => do
    let (parts, reading) ← Node.parts version reading items
    return (.items parts, reading)
  | .mapping entries => do
    let (merged, own, reading) ← Node.entries version reading none [] entries
    let repeats := merged.isNone && !distinct (own.map Prod.fst)
    return (.mapping (merged.getD [] ++ own) repeats, reading)
  | .anchored name node => do
    let (part, reading) ← Node.part version (reading.openAnchor name) node
    return (part, reading.closeAnchor name part)
  | .reference name => reading.referred name
  | .tagged tag (.scalar text _) => do
    return (.done (← taggedScalar version (Tag.ofText? tag) text), reading)
  | .tagged tag (.sequence items) =>
    match Tag.ofText? tag with
    | some .list => do
      let (parts, reading) ← Node.parts version reading items
      return (.items parts, reading)
    | some .orderedMap => do
      let (pairs, reading) ← Node.pairs version reading items
      return (.done (.map (← orderedEntries [] pairs)), reading)
    | some .pairs => do
      let (pairs, reading) ← Node.pairs version reading items
      return (.done (.list (pairs.map fun (key, value) => .list [key, value])), reading)
    | _ => .error .malformed
  | .tagged tag (.mapping entries) =>
    if !([some Tag.map, some Tag.set].contains (Tag.ofText? tag)) then .error .malformed
    else do
      let (merged, own, reading) ← Node.entries version reading none [] entries
      let repeats := merged.isNone && !distinct (own.map Prod.fst)
      let part := Part.mapping (merged.getD [] ++ own) repeats
      if Tag.ofText? tag = some .set then return (.done (← membersOf part), reading)
      return (part, reading)
  | .tagged _ _ => .error .malformed

def Node.parts (version : Version) (reading : Reading) : List Node → Except Fault (List Part × Reading)
  | [] => .ok ([], reading)
  | node :: rest => do
    let (part, reading) ← Node.part version reading node
    let (parts, reading) ← Node.parts version reading rest
    return (part :: parts, reading)

/-- The items of a sequence, each a mapping with one entry. -/
def Node.pairs (version : Version) (reading : Reading) : List Node → Except Fault (List (Tree × Tree) × Reading)
  | [] => .ok ([], reading)
  | .mapping [(key, value)] :: rest => do
    let (key, reading) ← Node.part version reading key
    let (value, reading) ← Node.part version reading value
    let (pairs, reading) ← Node.pairs version reading rest
    return ((← key.tree, ← value.tree) :: pairs, reading)
  | _ => .error .malformed

/-- The entries that are merged in, if there are any, and those of the mapping itself. -/
def Node.entries (version : Version) (reading : Reading) (merged : Option (List (Tree × Tree)))
    (own : List (Tree × Tree)) :
    List (Node × Node) → Except Fault (Option (List (Tree × Tree)) × List (Tree × Tree) × Reading)
  | [] => .ok (merged, own, reading)
  | entry :: rest => do
    let (more, added, reading) ← Node.entry version reading entry
    match more, merged with
    | none, merged => Node.entries version reading merged (own ++ added) rest
    | some _, some _ => .error .malformed
    | some [], none => Node.entries version reading none own rest
    | some more, none => Node.entries version reading (some more) own rest

/-- An entry of a mapping: entries to merge, or one of its own. -/
def Node.entry (version : Version) (reading : Reading) :
    Node × Node → Except Fault (Option (List (Tree × Tree)) × List (Tree × Tree) × Reading)
  | (key, value) => do
    if isMergeKey key then
      let (part, reading) ← Node.part version reading value
      return (some (← part.merged), [], reading)
    else if isDefaultKey key then
      let (part, reading) ← Node.part version reading value
      return (none, [(.text "=", ← part.tree)], reading)
    else
      let (name, reading) ← Node.part version reading key
      let name ← name.tree
      let (part, reading) ← Node.part version reading value
      let tree ← part.tree
      match keyFault? name with
      | some fault => .error fault
      | none => return (none, [(name, tree)], reading)

end

/-- The version that a document asks for. -/
def versionOf : List Token → Version
  | .directive "YAML" 1 1 :: _ => .older
  | .directive _ _ _ :: rest => versionOf rest
  | .handle _ _ :: rest => versionOf rest
  | _ => .current

def isMapping : Tree → Bool
  | .map _ => true
  | _ => false

/-- The data of a document. That a mapping holds itself is no fault of the document, but there is no
end to its data. -/
def load (text : String) : Except Fault Tree :=
  match tokens? text with
  | none => .error .malformed
  | some tokens =>
    match Node.readDocument tokens with
    | none => .error .malformed
    | some none => .ok .null
    | some (some node) => do
      let (part, reading) ← Node.part (versionOf tokens) {} node
      let tree ← part.tree
      if reading.loops && isMapping tree then .error .endless
      return tree

end WorkflowCompiler.Yaml
