import WorkflowCompiler.Yaml.Resolution

/-! The style in which a text is written. A value with a line feed is always a literal block.
A text that would be misread as something else, or whose characters mean something to YAML,
is quoted; single quotes are preferred and double quotes can hold anything. -/

namespace WorkflowCompiler.Yaml

def isBreak (c : Char) : Bool :=
  c == '\n' || c == '\x85' || c == '\u2028' || c == '\u2029'

/-- Blanks, breaks and the NUL that stands for the end of the document. -/
def isGap (c : Char) : Bool :=
  c == '\x00' || c == ' ' || c == '\t' || c == '\r' || isBreak c

/-- Characters that a document may show as they are. -/
def isShown (c : Char) : Bool :=
  let code := c.toNat
  ((0x20 ≤ code && code ≤ 0x7E) || code == 0x85 || (0xA0 ≤ code && code ≤ 0xD7FF)
    || (0xE000 ≤ code && code ≤ 0xFFFD) || 0x10000 ≤ code) && code != 0xFEFF

def isSpecial (c : Char) : Bool := c != '\n' && !isShown c

/-- Whether the text ends here or goes on with a gap. -/
def opensGap : List Char → Bool
  | [] => true
  | c :: _ => isGap c

/-- A colon that ends a key or a `#` that opens a comment, `previous` standing before. -/
def hasInnerIndicator (previous : Char) : List Char → Bool
  | [] => false
  | c :: rest =>
    (c == ':' && opensGap rest) || (c == '#' && isGap previous) || hasInnerIndicator c rest

def startsWithIndicator : List Char → Bool
  | [] => false
  | c :: rest =>
    [',', '[', ']', '\x7b', '\x7d', '#', '&', '*', '!', '|', '>', '\'', '"', '%', '@', '\x60'].contains c
      || ((c == '?' || c == ':' || c == '-') && opensGap rest)

def startsWithMarker : List Char → Bool
  | '-' :: '-' :: '-' :: _ => true
  | '.' :: '.' :: '.' :: _ => true
  | _ => false

def hasIndicator (text : List Char) : Bool :=
  startsWithMarker text || startsWithIndicator text ||
    match text with
    | [] => false
    | c :: rest => hasInnerIndicator c rest

def isMultiline (text : List Char) : Bool := text.any isBreak

def isEdge (c : Char) : Bool := c == ' ' || isBreak c

/-- A space next to a break, on the side that `first` and `second` tell. -/
def hasPair (first second : Char → Bool) : List Char → Bool
  | [] => false
  | [_] => false
  | c :: d :: rest => (first c && second d) || hasPair first second (d :: rest)

def isSpace (c : Char) : Bool := c == ' '

def canBePlain (text : List Char) : Bool :=
  !(text.head?.any isEdge || text.getLast?.any isEdge || text.any isSpecial
    || isMultiline text || hasIndicator text)

def canBeSingleQuoted (text : List Char) : Bool :=
  !(text.any isSpecial || hasPair isBreak isSpace text || hasPair isSpace isBreak text)

inductive Style
  | plain
  | singleQuoted
  | doubleQuoted
  | literal
deriving DecidableEq, Repr

/-- The style of a text as a mapping key. -/
def keyStyle (text : String) : Style :=
  let written := text.toList
  if kindOf text = .text && canBePlain written then .plain
  else if written.contains '\'' || written.contains '\n' then .doubleQuoted
  else if canBeSingleQuoted written then .singleQuoted
  else .doubleQuoted

/-- The style of a text anywhere else. -/
def valueStyle (text : String) : Style :=
  if text.toList.contains '\n' then .literal else keyStyle text

end WorkflowCompiler.Yaml
