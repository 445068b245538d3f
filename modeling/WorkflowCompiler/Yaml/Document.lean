import WorkflowCompiler.Tree
import WorkflowCompiler.Yaml.Base64
import WorkflowCompiler.Yaml.ScalarText

/-! A tree as a YAML document in block layout. Mappings are indented by two; the dash of a
sequence item stands two further in and its content four. A mapping or sequence inside an
item starts on the line of the dash. Bytes and sets stand behind a tag. -/

namespace WorkflowCompiler.Yaml

def floatText : Binary64 → String
  | .notANumber => ".nan"
  | .infinite negative => if negative then "-.inf" else ".inf"
  | finite => finite.text

/-- The text of a scalar; null is written as `null` where it cannot
be left out. -/
def scalarText : Tree → String
  | .bool value => Tree.boolText value
  | .int value => toString value
  | .float value => floatText value
  | .text value => value
  | .stamp value => value
  | .bytes values => Base64.encode values
  | _ => "null"

def scalarStyle (ofText : String → Style) : Tree → Style
  | .text value => ofText value
  | .bytes values => if values.isEmpty then .singleQuoted else .literal
  | _ => .plain

/-- The tag of a scalar, where it must be written. -/
def scalarTag : Tree → List Char
  | .bytes _ => "!!binary ".toList
  | _ => []

/-- Keys of this length or more, their tag counted, are written after a question mark. -/
def longKey : Nat := 128

def tagLength : Tree → Nat
  | .bool _ => 6
  | .float _ => 7
  | .null => 6
  | .bytes _ => 8
  | .stamp _ => 11
  | _ => 5

def isShortKey : Tree → Bool
  | .list items => items.isEmpty
  | .map entries => entries.isEmpty
  | .set _ => false
  | key =>
    let text := scalarText key
    !isMultiline text.toList && text.length + tagLength key < longKey

/-- A scalar with what ends its line. -/
def scalarLine (place : Place) (text : String) (style : Style) : List Char :=
  styledText style place text.toList ++ (if style == .literal then [] else ['\n'])

def shortKey (indent : Nat) : Tree → List Char
  | .list _ => "[]".toList
  | .map _ => "\x7b\x7d".toList
  | key =>
    scalarTag key ++ styledText (scalarStyle keyStyle key) ⟨indent, some (indent + 2), false⟩ (scalarText key).toList

mutual

/-- What follows a key and its colon; `column` is where the colon ended. -/
def afterColon (indent column : Nat) : Tree → List Char
  | .list items =>
    if items.isEmpty then " []\n".toList else '\n' :: sequenceLines indent items
  | .map entries =>
    if entries.isEmpty then " \x7b\x7d\n".toList else '\n' :: mappingLines (indent + 2) entries
  | .set members =>
    " !!set".toList ++ if members.isEmpty then " \x7b\x7d\n".toList else '\n' :: memberLines (indent + 2) members
  | .null => ['\n']
  | scalar =>
    ' ' :: scalarTag scalar ++ scalarLine ⟨column + 1, some (indent + 2), true⟩ (scalarText scalar) (scalarStyle valueStyle scalar)

/-- A node on the line of the dash or question mark before it: its content starts in column
`indent`, its further lines are indented by as much. -/
def glued (indent : Nat) : Tree → List Char
  | .list items =>
    if items.isEmpty then "[]\n".toList else (sequenceLines indent items).drop indent
  | .map entries =>
    if entries.isEmpty then "\x7b\x7d\n".toList else (mappingLines indent entries).drop indent
  | .set members =>
    "!!set".toList ++ if members.isEmpty then " \x7b\x7d\n".toList else '\n' :: memberLines indent members
  | .null => ['\n']
  | scalar => scalarTag scalar ++ scalarLine ⟨indent, some indent, true⟩ (scalarText scalar) (scalarStyle valueStyle scalar)

def sequenceLines (indent : Nat) : List Tree → List Char
  | [] => []
  | item :: rest =>
    spaces indent ++ "  - ".toList ++ glued (indent + 4) item ++ sequenceLines indent rest

def mappingLines (indent : Nat) : List (Tree × Tree) → List Char
  | [] => []
  | entry :: rest => entryLines indent entry ++ mappingLines indent rest

def entryLines (indent : Nat) : Tree × Tree → List Char
  | (key, value) =>
    if isShortKey key then
      let written := shortKey indent key
      spaces indent ++ written ++ ':' :: afterColon indent (indent + written.length + 1) value
    else
      spaces indent ++ "? ".toList ++ glued (indent + 2) key ++ spaces indent ++
        (match value with
        | .null => ":\n".toList
        | value => ": ".toList ++ glued (indent + 2) value)

/-- The members of a set are keys without values. -/
def memberLines (indent : Nat) : List Tree → List Char
  | [] => []
  | member :: rest =>
    spaces indent ++
      (if isShortKey member then shortKey indent member ++ ":\n".toList
        else "? ".toList ++ glued (indent + 2) member ++ spaces indent ++ ":\n".toList)
      ++ memberLines indent rest

end

/-- Whether a line of `text` after the first would read as a document marker. -/
def hasInnerMarker : List Char → Bool
  | [] => false
  | '\n' :: '-' :: '-' :: '-' :: c :: rest => [' ', '\r', '\n'].contains c || hasInnerMarker rest
  | '\n' :: '.' :: '.' :: '.' :: c :: rest => [' ', '\r', '\n'].contains c || hasInnerMarker rest
  | _ :: rest => hasInnerMarker rest

/-- A document that is one text. -/
def rootText (text : String) : List Char :=
  let written := text.toList
  match valueStyle text with
  | .literal =>
    let margin := if needsIndentHint written || hasInnerMarker written then 2 else 0
    literalHeader written ++ '\n' :: literalLines margin true written
  | style => scalarLine ⟨0, none, true⟩ text style

/-- Whether the document needs an end marker: a scalar alone without quotes, or a last block
that keeps its final breaks. -/
def endsOpen : Tree → Bool
  | .list items => lastItem items
  | .map entries => lastEntry entries
  | .text text => valueStyle text == .literal && chomping text.toList == ['+']
  | _ => false
where
  lastItem : List Tree → Bool
    | [] => false
    | [item] => endsOpen item
    | _ :: rest => lastItem rest
  lastEntry : List (Tree × Tree) → Bool
    | [] => false
    | [(_, value)] => endsOpen value
    | _ :: rest => lastEntry rest

def isPlainRoot : Tree → Bool
  | .list _ => false
  | .map _ => false
  | .bytes _ => false
  | .set _ => false
  | .text text => valueStyle text == .plain
  | _ => true

def rootLines : Tree → List Char
  | .list items => if items.isEmpty then "[]\n".toList else sequenceLines 0 items
  | .map entries => if entries.isEmpty then "\x7b\x7d\n".toList else mappingLines 0 entries
  | .text text => rootText text
  | .bytes values => glued 0 (.bytes values)
  | .set members => glued 0 (.set members)
  | scalar => (scalarText scalar).toList ++ ['\n']

/-- The document that holds a tree. -/
def document (tree : Tree) : String :=
  String.ofList (rootLines tree ++ if isPlainRoot tree || endsOpen tree then "...\n".toList else [])

end WorkflowCompiler.Yaml
