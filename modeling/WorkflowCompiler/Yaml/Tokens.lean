import WorkflowCompiler.Text.Lines
import WorkflowCompiler.Yaml.Cursor
import WorkflowCompiler.Yaml.Token

/-! The tokens of a document. A key is recognised by the colon after it: the place where one may
have started is remembered, and the tokens that say so are put in there afterwards. Such a key
ends on the line on which it starts. -/

namespace WorkflowCompiler.Yaml

/-- A place where a key may have started: before the token of that number. -/
structure KeyStart where
  flowLevel : Nat
  token : Nat
  required : Bool
  line : Nat
  index : Nat
  column : Nat
deriving Repr

/-- The tokens found so far are in reverse. `indent` and `outer` are the columns of the open block
collections, `flow` the open brackets, innermost first. -/
structure Scan where
  cursor : Cursor
  reversed : List Token := []
  count : Nat := 0
  flow : List Char := []
  indent : Int := -1
  outer : List Int := []
  starts : List KeyStart := []
  keyAllowed : Bool := true
deriving Repr

namespace Scan

def inFlow (scan : Scan) : Bool := !scan.flow.isEmpty

def level (scan : Scan) : Nat := scan.flow.length

def emit (scan : Scan) (token : Token) : Scan :=
  { scan with reversed := token :: scan.reversed, count := scan.count + 1 }

/-- Puts tokens in before the token of that number. -/
def insertAt (scan : Scan) (number : Nat) (tokens : List Token) : Scan :=
  let later := scan.count - number
  { scan with
    reversed := scan.reversed.take later ++ tokens.reverse ++ scan.reversed.drop later
    count := scan.count + tokens.length }

def skip (scan : Scan) (count : Nat) : Scan := { scan with cursor := scan.cursor.skip count }

/-- Closes the block collections that are indented by more than `column`. -/
def unwind (scan : Scan) (column : Int) : Scan :=
  if scan.inFlow then scan else go scan.outer scan
where
  go : List Int → Scan → Scan
    | [], scan => scan
    | indent :: outer, scan =>
      if scan.indent > column then go outer ({ scan with indent, outer }.emit .blockEnd) else scan

/-- Opens a block collection if `column` is further in than the one that is open. -/
def indentTo (scan : Scan) (column : Nat) : Option Scan :=
  if scan.indent < column then
    some { scan with indent := column, outer := scan.indent :: scan.outer }
  else none

def keyStart? (scan : Scan) : Option KeyStart := scan.starts.find? (·.flowLevel == scan.level)

/-- Forgets where a key of this level may have started. A line that stands where only a key can
stand must have one. -/
def dropStart (scan : Scan) : Option Scan :=
  if scan.keyStart?.any (·.required) then none
  else some { scan with starts := scan.starts.filter (·.flowLevel != scan.level) }

/-- A key may start here, if one is allowed. -/
def saveStart (scan : Scan) : Option Scan :=
  if scan.keyAllowed then do
    let required := !scan.inFlow && scan.indent == scan.cursor.column
    let scan ← scan.dropStart
    return { scan with
      starts := ⟨scan.level, scan.count, required, scan.cursor.line, scan.cursor.index, scan.cursor.column⟩
        :: scan.starts }
  else some scan

/-- Forgets starts on earlier lines or too far back. -/
def dropStale (scan : Scan) : Option Scan :=
  let stale (start : KeyStart) : Bool :=
    start.line != scan.cursor.line || scan.cursor.index - start.index > 1024
  if scan.starts.any fun start => stale start && start.required then none
  else some { scan with starts := scan.starts.filter fun start => !stale start }

/-- Skips blanks, comments and line breaks. A line break lets a key follow. -/
def toNextToken : Nat → Scan → Scan
  | 0, scan => scan
  | fuel + 1, scan =>
    let cursor := scan.cursor.skipWhile fun c => c == ' ' || (scan.inFlow && c == '\t')
    let cursor := if cursor.peek == '#' then cursor.skipWhile (!endsLine ·) else cursor
    if isAnyBreak cursor.peek then
      let (_, cursor) := scanBreak cursor
      toNextToken fuel { scan with cursor, keyAllowed := scan.keyAllowed || !scan.inFlow }
    else { scan with cursor }

def isDirectiveChar (c : Char) : Bool :=
  c.isAlphanum || c == '-' || c == '_' || c == ':' || c == '.'

/-- Reads the end of a directive's line. -/
def endDirective (cursor : Cursor) : Option Cursor :=
  let cursor := cursor.skipWhile (· == ' ')
  let cursor := if cursor.peek == '#' then cursor.skipWhile (!endsLine ·) else cursor
  if endsLine cursor.peek then some (scanBreak cursor).2 else none

/-- Reads the handle of a tag: a name between exclamation marks, or two of them without any. -/
def scanHandle (cursor : Cursor) : Option (String × Cursor) :=
  let name := cursor.next.taken fun c => c.isAlphanum || c == '-' || c == '_'
  let after := cursor.next.skip name.length
  if cursor.peek == '!' && after.peek == '!' then
    some (String.ofList ('!' :: name ++ ['!']), after.next)
  else none

/-- Characters of an address. -/
def isAddressChar (c : Char) : Bool := c.isAlphanum || "-;/?:@&=+$,_.!~*'()[]%#".toList.contains c

def scanAddress (cursor : Cursor) : Option (String × Cursor) :=
  let written := cursor.taken isAddressChar
  if written.isEmpty then none else some (String.ofList written, cursor.skip written.length)

/-- Reads the meaning of a handle: the handle, and what stands for it in a tag. -/
def scanMeaning (cursor : Cursor) : Option (String × String × Cursor) := do
  let cursor := cursor.skipWhile (· == ' ')
  let (name, cursor) ← if cursor.peek == '!' && cursor.peekAt 1 == ' ' then some ("!", cursor.next)
    else scanHandle cursor
  if cursor.peek != ' ' then none
  let (meaning, cursor) ← scanAddress (cursor.skipWhile (· == ' '))
  if endsLine cursor.peek || cursor.peek == ' ' then some (name, meaning, cursor) else none

def fetchDirective (scan : Scan) : Option Scan := do
  let scan ← (scan.unwind (-1)).dropStart
  let cursor := scan.cursor.next
  let name := cursor.taken isDirectiveChar
  let cursor := cursor.skip name.length
  if name.isEmpty || !(endsLine cursor.peek || cursor.peek == ' ') then none
  if name == "YAML".toList then
    let cursor := cursor.skipWhile (· == ' ')
    let major := cursor.taken Char.isDigit
    let cursor := cursor.skip major.length
    if major.isEmpty || cursor.peek != '.' then none
    let minor := cursor.next.taken Char.isDigit
    let cursor := cursor.next.skip minor.length
    if minor.isEmpty || !(endsLine cursor.peek || cursor.peek == ' ') then none
    let cursor ← endDirective cursor
    return { scan with cursor, keyAllowed := false }.emit
      (.directive "YAML" (Binary64.digitsValue major) (Binary64.digitsValue minor))
  else if name == "TAG".toList then
    let (name, meaning, cursor) ← scanMeaning cursor
    let cursor ← endDirective cursor
    return { scan with cursor, keyAllowed := false }.emit (.handle name meaning)
  else
    let cursor ← endDirective (cursor.skipWhile (!endsLine ·))
    return { scan with cursor, keyAllowed := false }.emit (.directive (String.ofList name) 0 0)

def fetchMarker (scan : Scan) (token : Token) : Option Scan := do
  let scan ← (scan.unwind (-1)).dropStart
  return ({ scan with keyAllowed := false }.emit token).skip 3

def openFlow (scan : Scan) (bracket : Char) (token : Token) : Option Scan := do
  let scan ← scan.saveStart
  return ({ scan with flow := bracket :: scan.flow, keyAllowed := true }.emit token).skip 1

def closeFlow (scan : Scan) (token : Token) : Option Scan := do
  let scan ← scan.dropStart
  return ({ scan with flow := scan.flow.drop 1, keyAllowed := false }.emit token).skip 1

def fetchSeparator (scan : Scan) : Option Scan := do
  let scan ← { scan with keyAllowed := true }.dropStart
  return (scan.emit .separator).skip 1

/-- Opens a block collection where an entry, key or value stands further in. -/
def openBlock (scan : Scan) (token : Token) : Option Scan :=
  if scan.inFlow then some scan
  else if !scan.keyAllowed then none
  else some (match scan.indentTo scan.cursor.column with
    | some deeper => deeper.emit token
    | none => scan)

def fetchEntry (scan : Scan) : Option Scan := do
  let scan ← scan.openBlock .blockSequence
  let scan ← { scan with keyAllowed := true }.dropStart
  return (scan.emit .entry).skip 1

def fetchKey (scan : Scan) : Option Scan := do
  let scan ← scan.openBlock .blockMapping
  let scan ← { scan with keyAllowed := !scan.inFlow }.dropStart
  return (scan.emit .key).skip 1

def fetchValue (scan : Scan) : Option Scan :=
  match scan.keyStart? with
  | some start =>
    let scan := { scan with starts := scan.starts.filter (·.flowLevel != scan.level), keyAllowed := false }
    let scan :=
      match if scan.inFlow then none else scan.indentTo start.column with
      | some deeper => deeper.insertAt start.token [.blockMapping, .key]
      | none => scan.insertAt start.token [.key]
    some ((scan.emit .value).skip 1)
  | none => do
    let scan ← scan.openBlock .blockMapping
    let scan ← { scan with keyAllowed := !scan.inFlow }.dropStart
    return (scan.emit .value).skip 1

/-- Characters of the name of an anchor. -/
def isAnchorChar (c : Char) : Bool :=
  let code := c.toNat
  ((0x21 ≤ code && code ≤ 0x7E) || (0xA0 ≤ code && code ≤ 0xD7FF)
    || (0xE000 ≤ code && code ≤ 0xFFFD && code != 0xFEFF) || 0x10000 ≤ code)
    && !([',', '[', ']', '\x7b', '\x7d'].contains c)

def fetchAnchor (scan : Scan) (token : String → Token) : Option Scan := do
  let scan ← scan.saveStart
  let cursor := scan.cursor.next
  let name := cursor.taken isAnchorChar
  let cursor := cursor.skip name.length
  let ends := endsLineOrGap cursor.peek
    || ['?', ':', ',', '[', ']', '\x7b', '\x7d', '%', '@', '\x60'].contains cursor.peek
  if name.isEmpty || !ends then none
  return { scan with cursor, keyAllowed := false }.emit (token (String.ofList name))

/-- Whether an exclamation mark stands before the next blank or line break. -/
def hasHandle (cursor : Cursor) : Bool :=
  (cursor.taken fun c => !(endsLine c || c == ' ')).contains '!'

/-- Reads a tag: an address in angle brackets, a single exclamation mark, or a handle with what
follows it. -/
def scanTag (cursor : Cursor) : Option (Token × Cursor) :=
  let following := cursor.peekAt 1
  if following == '<' then do
    let (suffix, cursor) ← scanAddress (cursor.skip 2)
    if cursor.peek == '>' then some (.tag none suffix, cursor.next) else none
  else if endsLineOrGap following then some (.tag none "!", cursor.next)
  else do
    let (handle, cursor) ←
      if hasHandle cursor.next then scanHandle cursor else some ("!", cursor.next)
    let (suffix, cursor) ← scanAddress cursor
    return (.tag (some handle) suffix, cursor)

def fetchTag (scan : Scan) : Option Scan := do
  let scan ← scan.saveStart
  let (token, cursor) ← scanTag scan.cursor
  if endsLine cursor.peek || cursor.peek == ' ' then
    some ({ scan with cursor, keyAllowed := false }.emit token)
  else none

def fetchBlock (scan : Scan) (folded : Bool) : Option Scan := do
  let scan ← { scan with keyAllowed := true }.dropStart
  let (text, cursor) ← scanBlock folded scan.indent scan.cursor.next
  return { scan with cursor }.emit (.scalar (String.ofList text) false)

def fetchQuoted (scan : Scan) (quote : Char) : Option Scan := do
  let scan ← scan.saveStart
  let (text, cursor) ← scanQuoted quote (scan.cursor.rest.length + 1) scan.cursor.next
  return { scan with cursor, keyAllowed := false }.emit (.scalar (String.ofList text) false)

def fetchPlain (scan : Scan) : Option Scan := do
  let scan ← scan.saveStart
  let (text, ended, cursor) :=
    scanPlain scan.inFlow (scan.indent + 1) false (scan.cursor.rest.length + 1) scan.cursor
  return { scan with cursor, keyAllowed := ended }.emit (.scalar (String.ofList text) true)

def opensKey (scan : Scan) : Bool := scan.inFlow || endsLineOrGap (scan.cursor.peekAt 1)

/-- Whether a colon here opens a value. -/
def opensValue (scan : Scan) : Bool :=
  let gap := endsLineOrGap (scan.cursor.peekAt 1)
  match scan.flow with
  | [] => gap
  | '[' :: _ => gap
  | _ :: _ => gap || scan.starts.isEmpty || scan.reversed.head? != some .value

def opensPlain (scan : Scan) : Bool :=
  let c := scan.cursor.peek
  let following := scan.cursor.peekAt 1
  let indicators :=
    ['-', '?', ':', ',', '[', ']', '\x7b', '\x7d', '#', '&', '*', '!', '|', '>', '\'', '"', '%', '@', '\x60']
  if !(endsLineOrGap c || indicators.contains c) then true
  else if c == ':' && scan.inFlow && !isSpaceOrTab following then true
  else !endsLineOrGap following && (c == '-' || (!scan.inFlow && (c == '?' || c == ':')))

/-- Reads the token that starts here. -/
def fetch (scan : Scan) : Option Scan :=
  let cursor := scan.cursor
  match cursor.peek with
  | '[' => scan.openFlow '[' .flowSequence
  | '\x7b' => scan.openFlow '\x7b' .flowMapping
  | ']' => scan.closeFlow .flowSequenceEnd
  | '\x7d' => scan.closeFlow .flowMappingEnd
  | ',' => scan.fetchSeparator
  | '*' => scan.fetchAnchor .reference
  | '&' => scan.fetchAnchor .anchor
  | '!' => scan.fetchTag
  | '\'' => scan.fetchQuoted '\''
  | '"' => scan.fetchQuoted '"'
  | c =>
    if c == '%' && cursor.column == 0 then scan.fetchDirective
    else if cursor.column == 0 && atMarker cursor '-' then scan.fetchMarker .documentStart
    else if cursor.column == 0 && atMarker cursor '.' then scan.fetchMarker .documentEnd
    else if c == '-' && endsLineOrGap (cursor.peekAt 1) then scan.fetchEntry
    else if c == '?' && scan.opensKey then scan.fetchKey
    else if c == ':' && scan.opensValue then scan.fetchValue
    else if c == '|' && !scan.inFlow then scan.fetchBlock false
    else if c == '>' && !scan.inFlow then scan.fetchBlock true
    else if scan.opensPlain then scan.fetchPlain
    else none

/-- Reads all tokens. -/
def finish : Nat → Scan → Option (List Token)
  | 0, _ => none
  | fuel + 1, scan => do
    let scan ← (scan.toNextToken (scan.cursor.rest.length + 1)).dropStale
    let scan := scan.unwind scan.cursor.column
    if scan.cursor.atEnd then
      let scan ← (scan.unwind (-1)).dropStart
      return scan.reversed.reverse
    else finish fuel (← scan.fetch)

end Scan

/-- Characters that a document may hold. -/
def isReadable (c : Char) : Bool :=
  c == '\t' || c == '\n' || c == '\r' || isShown c || c == '\uFEFF'

/-- The tokens of a document; nothing if it is not one. Every ordinary line break is a line feed. -/
def tokens? (text : String) : Option (List Token) :=
  let written := Text.plainBreaks text.toList
  if !written.all isReadable then none
  else
    let cursor : Cursor := { rest := written }
    let cursor := if cursor.peek == '\uFEFF' then cursor.next else cursor
    Scan.finish (written.length + 2) { cursor }

end WorkflowCompiler.Yaml
