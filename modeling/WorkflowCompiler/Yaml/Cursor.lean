import WorkflowCompiler.Yaml.Style

/-! A position in a document, and the scalars that are read from it. The end of the document
reads as a NUL character. -/

namespace WorkflowCompiler.Yaml

structure Cursor where
  rest : List Char
  index : Nat := 0
  line : Nat := 0
  column : Nat := 0
deriving Repr

namespace Cursor

def peek (cursor : Cursor) : Char := cursor.rest.headD '\x00'

def peekAt (cursor : Cursor) (ahead : Nat) : Char := (cursor.rest.drop ahead).headD '\x00'

/-- Moves over one character. Only line feeds and carriage returns start a new line. -/
def next (cursor : Cursor) : Cursor :=
  match cursor.rest with
  | [] => cursor
  | c :: rest =>
    let after := { cursor with rest, index := cursor.index + 1 }
    if c == '\n' || (c == '\r' && rest.headD '\x00' != '\n') then
      { after with line := cursor.line + 1, column := 0 }
    else if c == '\uFEFF' then after
    else { after with column := cursor.column + 1 }

def skip (cursor : Cursor) : Nat → Cursor
  | 0 => cursor
  | count + 1 => cursor.next.skip count

def skipWhile (accepts : Char → Bool) (cursor : Cursor) : Cursor :=
  cursor.skip (cursor.rest.takeWhile accepts).length

def taken (accepts : Char → Bool) (cursor : Cursor) : List Char := cursor.rest.takeWhile accepts

def atEnd (cursor : Cursor) : Bool := cursor.rest.isEmpty

end Cursor

def isAnyBreak (c : Char) : Bool :=
  c == '\r' || c == '\n' || c == '\x85' || c == '\u2028' || c == '\u2029'

/-- Where a line ends. -/
def endsLine (c : Char) : Bool := isAnyBreak c || c == '\x00'

def endsLineOrGap (c : Char) : Bool := endsLine c || c == ' ' || c == '\t'

/-- Reads a line break, if there is one: the ordinary breaks all read as a line feed. -/
def scanBreak (cursor : Cursor) : List Char × Cursor :=
  let c := cursor.peek
  if c == '\r' && cursor.peekAt 1 == '\n' then (['\n'], cursor.skip 2)
  else if c == '\r' || c == '\n' || c == '\x85' then (['\n'], cursor.next)
  else if c == '\u2028' || c == '\u2029' then ([c], cursor.next)
  else ([], cursor)

/-- Whether a document marker stands here. -/
def atMarker (cursor : Cursor) (c : Char) : Bool :=
  cursor.peek == c && cursor.peekAt 1 == c && cursor.peekAt 2 == c && endsLineOrGap (cursor.peekAt 3)

def atAnyMarker (cursor : Cursor) : Bool := atMarker cursor '-' || atMarker cursor '.'

/-- Reads breaks between the lines of a quoted text, with the blanks around them. No document
marker may stand at the start of a line. -/
def scanQuotedBreaks : Nat → Cursor → Option (List Char × Cursor)
  | 0, _ => none
  | fuel + 1, cursor =>
    if atAnyMarker cursor then none
    else
      let cursor := cursor.skipWhile isSpaceOrTab
      if isAnyBreak cursor.peek then do
        let (line, cursor) := scanBreak cursor
        let (more, cursor) ← scanQuotedBreaks fuel cursor
        return (line ++ more, cursor)
      else some ([], cursor)

/-- What a line break in a flowing text becomes, `more` being the breaks of the empty lines after
it: a space, unless empty lines follow. -/
def foldBreak (line more : List Char) : List Char :=
  if line != ['\n'] then line ++ more else if more.isEmpty then [' '] else more

def scanQuotedSpaces (cursor : Cursor) : Option (List Char × Cursor) :=
  let blanks := cursor.taken isSpaceOrTab
  let cursor := cursor.skip blanks.length
  if cursor.atEnd then none
  else if isAnyBreak cursor.peek then do
    let (line, cursor) := scanBreak cursor
    let (more, cursor) ← scanQuotedBreaks (cursor.rest.length + 1) cursor
    return (foldBreak line more, cursor)
  else some (blanks, cursor)

/-- The character that a one-letter escape stands for. -/
def escaped? : Char → Option Char
  | '0' => some '\x00'
  | 'a' => some '\x07'
  | 'b' => some '\x08'
  | 't' => some '\t'
  | '\t' => some '\t'
  | 'n' => some '\n'
  | 'v' => some '\x0B'
  | 'f' => some '\x0C'
  | 'r' => some '\r'
  | 'e' => some '\x1B'
  | ' ' => some ' '
  | '"' => some '"'
  | '/' => some '/'
  | '\\' => some '\\'
  | 'N' => some '\x85'
  | '_' => some '\xA0'
  | 'L' => some '\u2028'
  | 'P' => some '\u2029'
  | _ => none

/-- How many digits an escape by number has. -/
def escapeWidth? : Char → Option Nat
  | 'x' => some 2
  | 'u' => some 4
  | 'U' => some 8
  | _ => none

def hexValue (c : Char) : Nat :=
  if c.isDigit then c.toNat - '0'.toNat else c.toLower.toNat - 'a'.toNat + 10

def ofCode? (code : Nat) : Option Char :=
  if code.isValidChar then some (Char.ofNat code) else none

/-- Reads the characters that an escape stands for; the backslash has been read. -/
def scanEscape (cursor : Cursor) : Option (List Char × Cursor) :=
  let c := cursor.peek
  match escaped? c, escapeWidth? c with
  | some meant, _ => if cursor.atEnd then none else some ([meant], cursor.next)
  | _, some width =>
    let digits := cursor.next.rest.take width
    if digits.length = width ∧ digits.all isHex then do
      let code := digits.foldl (fun value digit => 16 * value + hexValue digit) 0
      return ([← ofCode? code], cursor.skip (width + 1))
    else none
  | none, none =>
    if isAnyBreak c then
      let (_, cursor) := scanBreak cursor
      scanQuotedBreaks (cursor.rest.length + 1) cursor
    else none

/-- Reads a quoted text up to its closing quote. -/
def scanQuoted (quote : Char) : Nat → Cursor → Option (List Char × Cursor)
  | 0, _ => none
  | fuel + 1, cursor => do
    let c := cursor.peek
    if cursor.atEnd then none
    let (piece, after) ←
      if c == '\'' && quote == '\'' && cursor.peekAt 1 == '\'' then some (['\''], cursor.skip 2)
      else if c == quote then return ([], cursor.next)
      else if c == '\\' && quote == '"' then scanEscape cursor.next
      else if isSpaceOrTab c || isAnyBreak c then scanQuotedSpaces cursor
      else some ([c], cursor.next)
    let (more, after) ← scanQuoted quote fuel after
    return (piece ++ more, after)

/-- Reads the blanks and breaks inside a plain text. The flag tells whether a line ended; nothing
is read before a document marker. -/
def scanPlainSpaces (cursor : Cursor) : List Char × Bool × Cursor :=
  let blanks := cursor.taken (· == ' ')
  let cursor := cursor.skip blanks.length
  if isAnyBreak cursor.peek then
    let (line, cursor) := scanBreak cursor
    if atAnyMarker cursor then ([], true, cursor)
    else
      match breaks (cursor.rest.length + 1) cursor with
      | (some more, cursor) => (foldBreak line more, true, cursor)
      | (none, cursor) => ([], true, cursor)
  else (blanks, false, cursor)
where
  breaks : Nat → Cursor → Option (List Char) × Cursor
    | 0, cursor => (none, cursor)
    | fuel + 1, cursor =>
      let c := cursor.peek
      if c == ' ' then breaks fuel cursor.next
      else if isAnyBreak c then
        let (line, cursor) := scanBreak cursor
        if atAnyMarker cursor then (none, cursor)
        else
          let (more, cursor) := breaks fuel cursor
          (more.map (line ++ ·), cursor)
      else (some [], cursor)

/-- How many characters a plain text has up to the next blank, break or indicator. -/
def plainRun (inFlow : Bool) : List Char → Nat
  | [] => 0
  | c :: rest =>
    let following := rest.headD '\x00'
    let goesOn :=
      if c == ':' && !endsLineOrGap following then true
      else if c == '?' then true
      else !(endsLineOrGap c || (c == ':' && endsLineOrGap following)
        || (inFlow && [',', ':', '[', ']', '\x7b', '\x7d'].contains c))
    if goesOn then plainRun inFlow rest + 1 else 0

/-- Reads a plain text whose further lines are indented by at least `indent`. The flag tells
whether a line ended in it or after it. -/
def scanPlain (inFlow : Bool) (indent : Int) (ended : Bool) :
    Nat → Cursor → List Char × Bool × Cursor
  | 0, cursor => ([], ended, cursor)
  | fuel + 1, cursor =>
    let length := if cursor.peek == '#' then 0 else plainRun inFlow cursor.rest
    if length = 0 then ([], ended, cursor)
    else
      let word := cursor.rest.take length
      let (spaces, ended, cursor) := scanPlainSpaces (cursor.skip length)
      if spaces.isEmpty || cursor.peek == '#' || (!inFlow && (cursor.column : Int) < indent) then
        (word, ended, cursor)
      else
        let (more, ended, after) := scanPlain inFlow indent ended fuel cursor
        (word ++ (if more.isEmpty then [] else spaces ++ more), ended, after)

inductive Chomping
  | strip
  | clip
  | keep
deriving DecidableEq, Repr

/-- Reads what follows the sign of a block scalar: how it ends and its indentation. -/
def scanBlockHeader (cursor : Cursor) : Option (Chomping × Option Nat × Cursor) := do
  let sign (cursor : Cursor) : Option Chomping × Cursor :=
    if cursor.peek == '+' then (some .keep, cursor.next)
    else if cursor.peek == '-' then (some .strip, cursor.next)
    else (none, cursor)
  let digit (cursor : Cursor) : Option (Option Nat × Cursor) :=
    if cursor.peek.isDigit then
      let value := cursor.peek.toNat - '0'.toNat
      if value = 0 then none else some (some value, cursor.next)
    else some (none, cursor)
  let (first, cursor) := sign cursor
  let (increment, cursor) ← digit cursor
  let (second, cursor) := if first.isNone && increment.isSome then sign cursor else (none, cursor)
  let chomping := ((first.or second).getD .clip)
  if !(endsLine cursor.peek || cursor.peek == ' ') then none
  let cursor := cursor.skipWhile (· == ' ')
  let cursor := if cursor.peek == '#' then cursor.skipWhile (!endsLine ·) else cursor
  if !endsLine cursor.peek then none
  let (_, cursor) := scanBreak cursor
  return (chomping, increment, cursor)

/-- Reads the blank lines at the front of a block scalar, looking for its indentation. -/
def scanBlockIndent : Nat → Cursor → List Char × Nat × Cursor
  | 0, cursor => ([], 0, cursor)
  | fuel + 1, cursor =>
    if cursor.peek == ' ' then
      let cursor := cursor.next
      let (breaks, most, after) := scanBlockIndent fuel cursor
      (breaks, max cursor.column most, after)
    else if isAnyBreak cursor.peek then
      let (line, cursor) := scanBreak cursor
      let (breaks, most, after) := scanBlockIndent fuel cursor
      (line ++ breaks, most, after)
    else ([], 0, cursor)

/-- Skips indentation, no more than `indent` columns of it. -/
def skipIndent (indent : Nat) (cursor : Cursor) : Cursor :=
  cursor.skip ((cursor.rest.take (indent - cursor.column)).takeWhile (· == ' ')).length

/-- Reads blank lines inside a block scalar. -/
def scanBlockBreaks (indent : Nat) : Nat → Cursor → List Char × Cursor
  | 0, cursor => ([], cursor)
  | fuel + 1, cursor =>
    let cursor := skipIndent indent cursor
    if isAnyBreak cursor.peek then
      let (line, cursor) := scanBreak cursor
      let (more, cursor) := scanBlockBreaks indent fuel cursor
      (line ++ more, cursor)
    else ([], cursor)

/-- Reads the lines of a block scalar, `breaks` being those before the next line. Gives the text
without its end, the last line's break and the breaks after it. -/
def scanBlockLines (folded atRoot : Bool) (indent : Nat) (breaks : List Char) :
    Nat → Cursor → List Char × List Char × List Char × Cursor
  | 0, cursor => ([], [], breaks, cursor)
  | fuel + 1, cursor =>
    if cursor.column != indent || cursor.atEnd then ([], [], breaks, cursor)
    else
      let opens := !isSpaceOrTab cursor.peek
      let text := cursor.taken (!endsLine ·)
      let (line, cursor) := scanBreak (cursor.skip text.length)
      let (after, cursor) := scanBlockBreaks indent (cursor.rest.length + 1) cursor
      let marked := atRoot && cursor.column == 0 && atAnyMarker cursor
      if marked || cursor.column != indent || cursor.atEnd then (breaks ++ text, line, after, cursor)
      else
        let joint :=
          if folded && line == ['\n'] && opens && !isSpaceOrTab cursor.peek then
            if after.isEmpty then [' '] else []
          else line
        let (more, line, final, cursor) := scanBlockLines folded atRoot indent after fuel cursor
        (breaks ++ text ++ joint ++ more, line, final, cursor)

/-- Reads a block scalar inside a collection that is indented by `outer`; the sign has been
read. -/
def scanBlock (folded : Bool) (outer : Int) (cursor : Cursor) : Option (List Char × Cursor) := do
  let (chomping, increment, cursor) ← scanBlockHeader cursor
  let least := (outer + 1).toNat
  let fuel := cursor.rest.length + 1
  let (indent, breaks, cursor) :=
    match increment with
    | none =>
      let (breaks, most, cursor) := scanBlockIndent fuel cursor
      (max least most, breaks, cursor)
    | some increment =>
      let indent := max least 1 + increment - 1
      let (breaks, cursor) := scanBlockBreaks indent fuel cursor
      (indent, breaks, cursor)
  let atRoot := least == 0 && increment.isNone
  let (text, line, final, cursor) := scanBlockLines folded atRoot indent breaks fuel cursor
  let tail := match chomping with
    | .strip => []
    | .clip => line
    | .keep => line ++ final
  return (text ++ tail, cursor)

end WorkflowCompiler.Yaml
