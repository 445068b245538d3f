import WorkflowCompiler.Text.Blank

/-! What a text looks like once it is printed: without the control characters that would move the
cursor, with blanks for tabs, and with an emoji for a name between colons that stands for one. In a
message a backslash before an opening bracket that starts no tag is an escape, and is not seen. -/

namespace WorkflowCompiler.Command

def movesCursor (c : Char) : Bool :=
  c == '\x07' || c == '\x08' || c == '\x0b' || c == '\x0c' || c == '\x0d'

def tabWidth : Nat := 8

/-- Fills up with blanks to the next multiple of the tab width; `column` is where the text starts. -/
def expandTabs (column : Nat) : List Char → List Char
  | [] => []
  | '\n' :: rest => '\n' :: expandTabs 0 rest
  | '\t' :: rest =>
    let width := tabWidth - column % tabWidth
    List.replicate width ' ' ++ expandTabs (column + width) rest
  | c :: rest => c :: expandTabs (column + 1) rest

/-- Whether what follows an opening bracket makes it the start of a tag. -/
def startsTag : List Char → Bool
  | [] => false
  | c :: rest =>
    (('a' ≤ c && c ≤ 'z') || c == '#' || c == '/' || c == '@')
      && (rest.find? fun c => c == '[' || c == ']') == some ']'

def unescapeBrackets : List Char → List Char
  | [] => []
  | '\\' :: '[' :: rest =>
    if startsTag rest then '\\' :: '[' :: unescapeBrackets rest else '[' :: unescapeBrackets rest
  | c :: rest => c :: unescapeBrackets rest

/-- The emoji that the console has for a name, whatever the size of its letters. -/
abbrev Emoji := String → Option String

/-- A name without the variant that it ends in, and the character that asks for the variant. -/
def splitVariant (name : List Char) : List Char × List Char :=
  if "-emoji".toList.isSuffixOf name then (name.take (name.length - 6), ['\uFE0F'])
  else if "-text".toList.isSuffixOf name then (name.take (name.length - 5), ['\uFE0E'])
  else (name, [])

/-- What is shown for a name between colons. -/
def shownCode (emoji : Emoji) (name : List Char) : List Char :=
  let (base, variant) := splitVariant name
  match emoji (String.ofList base) with
  | some shown => shown.toList ++ variant
  | none => ':' :: name ++ [':']

/-- Shows names between colons. A name has no blank in it, and its two colons are not those of
another; `name` is what follows a colon that may be the first of a pair, in reverse. -/
def showCodes (emoji : Emoji) : Option (List Char) → List Char → List Char
  | none, [] => []
  | some name, [] => ':' :: name.reverse
  | none, ':' :: rest => showCodes emoji (some []) rest
  | some name, ':' :: rest => shownCode emoji name.reverse ++ showCodes emoji none rest
  | none, c :: rest => c :: showCodes emoji none rest
  | some name, c :: rest =>
    if Text.isBlank c then ':' :: name.reverse ++ c :: showCodes emoji none rest
    else showCodes emoji (some (c :: name)) rest

/-- The pieces of a message in which names are looked for: what would be a tag is a piece of its
own. -/
def pieces (inTag : Bool) : List Char → List (List Char)
  | [] => [[]]
  | c :: rest =>
    if c == '[' && startsTag rest then [] :: (pieces true rest).modifyHead (c :: ·)
    else if c == ']' && inTag then [c] :: pieces false rest
    else (pieces inTag rest).modifyHead (c :: ·)

def line (shown : List Char) : String :=
  String.ofList (expandTabs 0 (shown.filter (!movesCursor ·))) ++ "\n"

/-- The line for a text that is printed as it is. -/
def plainLine (emoji : Emoji) (text : String) : String := line (showCodes emoji none text.toList)

/-- The line for a message behind its coloured label. -/
def messageLine (emoji : Emoji) (label text : String) : String :=
  line (label.toList ++ (pieces false (unescapeBrackets text.toList)).flatMap (showCodes emoji none))

end WorkflowCompiler.Command
