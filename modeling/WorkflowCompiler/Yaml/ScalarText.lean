import WorkflowCompiler.Yaml.Style

/-! The characters of a scalar in each style. Lines are meant to be a hundred characters wide:
a single space beyond that may become a line break, where a place allows folding. -/

namespace WorkflowCompiler.Yaml

def lineWidth : Nat := 100

/-- Where a scalar starts, where its further lines start, and whether it may be folded. At the
root of a document there is no margin. -/
structure Place where
  column : Nat
  margin : Option Nat
  folds : Bool
deriving Repr

def spaces (count : Nat) : List Char := List.replicate count ' '

def Place.newLine (place : Place) : List Char := '\n' :: spaces (place.margin.getD 0)

def Place.left (place : Place) : Nat := place.margin.getD 0

/-- Writes a plain text. `opens` tells that a word may start here; a word that would cross the
line's width starts a new line unless it already stands at the margin. -/
def plainFrom (place : Place) (column : Nat) (opens : Bool) : List Char → List Char
  | [] => []
  | c :: rest =>
    if c == ' ' then
      if !opens && column ≥ lineWidth && place.folds && rest.head? != some ' ' then
        place.newLine ++ plainFrom place place.left true rest
      else ' ' :: plainFrom place (column + 1) true rest
    else
      let word := 1 + (rest.takeWhile (· != ' ')).length
      if opens && column + word > lineWidth && place.margin.any (· < column) then
        place.newLine ++ c :: plainFrom place (place.left + 1) false rest
      else c :: plainFrom place (column + 1) false rest

/-- Writes the inside of single quotes, `previous` being the character before. -/
def singleQuotedFrom (place : Place) (column : Nat) (previous : Option Char) :
    List Char → List Char
  | [] => []
  | c :: rest =>
    if isBreak c then
      let margin := if rest.head?.any isBreak then [] else spaces place.left
      c :: margin ++ singleQuotedFrom place margin.length (some c) rest
    else if c == ' ' && column > lineWidth && place.folds && previous.any (· != ' ')
        && rest.head?.any (· != ' ') then
      place.newLine ++ singleQuotedFrom place place.left (some c) rest
    else c :: singleQuotedFrom place (column + 1) (some c) rest

def hexUpper : Nat → Nat → List Char
  | 0, _ => []
  | width + 1, code => hexUpper width (code / 16) ++ [(Nat.digitChar (code % 16)).toUpper]

/-- The escape of a character inside double quotes; empty for one that is written as it is. -/
def escapeOf (c : Char) : List Char :=
  let code := c.toNat
  match code with
  | 0 => ['\\', '0']
  | 7 => ['\\', 'a']
  | 8 => ['\\', 'b']
  | 9 => ['\\', 't']
  | 10 => ['\\', 'n']
  | 11 => ['\\', 'v']
  | 12 => ['\\', 'f']
  | 13 => ['\\', 'r']
  | 0x1B => ['\\', 'e']
  | 0x22 => ['\\', '"']
  | 0x5C => ['\\', '\\']
  | 0x85 => ['\\', 'N']
  | 0xA0 => ['\\', '_']
  | 0x2028 => ['\\', 'L']
  | 0x2029 => ['\\', 'P']
  | _ =>
    if isShown c then []
    else if code ≤ 0xFF then '\\' :: 'x' :: hexUpper 2 code
    else if code ≤ 0xFFFF then '\\' :: 'u' :: hexUpper 4 code
    else '\\' :: 'U' :: hexUpper 8 code

/-- Whether a line break put before `text` has to be escaped: reading would not turn it back
into the one space that stands for it. -/
def breakNeedsEscape (previous : Char) (text : List Char) : Bool :=
  let word := text.takeWhile (· != ' ')
  !(text.contains ' ' && !word.contains '"' && !word.contains '\'' && (text.drop 1).head? != some ' '
    && !(previous == ' ' && text.head? == some ' '))

/-- Writes the inside of double quotes. `fresh` tells that an escape was written just before,
`skips` that the space in front has become a line break. -/
def doubleQuotedFrom (place : Place) (column : Nat) (previous : Option Char) (fresh skips : Bool) :
    List Char → List Char
  | [] => []
  | c :: rest =>
    if skips && c == ' ' then doubleQuotedFrom place column (some c) true false rest
    else
      let escape := escapeOf c
      let mayFold := place.folds && previous.isSome && !rest.isEmpty
      let escaped := breakNeedsEscape (previous.getD ' ') (c :: rest)
      let mark := if escaped then ['\\'] else []
      if escape.isEmpty then
        if mayFold && (c == ' ' || fresh) && column > lineWidth then
          if c != ' ' then mark ++ place.newLine ++ c :: doubleQuotedFrom place (place.left + 1) (some c) false false rest
          else if escaped then
            mark ++ place.newLine ++ '\\' :: c :: doubleQuotedFrom place (place.left + 2) (some c) false false rest
          else place.newLine ++ doubleQuotedFrom place place.left (some c) true false rest
        else c :: doubleQuotedFrom place (column + 1) (some c) false false rest
      else
        let column := column + escape.length
        if mayFold && column > lineWidth + 1 then
          let guard := if escaped && rest.head? == some ' ' then ['\\'] else []
          escape ++ mark ++ place.newLine ++ guard
            ++ doubleQuotedFrom place (place.left + guard.length) (some c) true (!escaped) rest
        else escape ++ doubleQuotedFrom place column (some c) true false rest

/-- How the end of a literal block is kept: nothing for one final break. -/
def chomping (text : List Char) : List Char :=
  match text.reverse with
  | [] => ['-']
  | last :: before =>
    if !isBreak last then ['-']
    else match before with
      | [] => ['+']
      | c :: _ => if isBreak c then ['+'] else []

def needsIndentHint (text : List Char) : Bool := text.head?.any isEdge

/-- The lines of a literal block, each non-empty one behind `margin` spaces. `starts` tells that
a line starts here. -/
def literalLines (margin : Nat) (starts : Bool) : List Char → List Char
  | [] => if starts then [] else ['\n']
  | c :: rest =>
    if isBreak c then c :: literalLines margin true rest
    else (if starts then spaces margin else []) ++ c :: literalLines margin false rest

def literalHeader (text : List Char) : List Char :=
  '|' :: (if needsIndentHint text then ['2'] else []) ++ chomping text

/-- A text in a style; literal blocks are not scalars of one line and end their own line. -/
def styledText (style : Style) (place : Place) (text : List Char) : List Char :=
  match style with
  | .plain => plainFrom place place.column true text
  | .singleQuoted => '\'' :: singleQuotedFrom place (place.column + 1) none text ++ ['\'']
  | .doubleQuoted => '"' :: doubleQuotedFrom place (place.column + 1) none false false text ++ ['"']
  | .literal => literalHeader text ++ '\n' :: literalLines place.left true text

end WorkflowCompiler.Yaml
