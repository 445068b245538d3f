import WorkflowCompiler.Number.Decimal

/-! What an unquoted YAML scalar stands for, decided by its spelling alone. Whatever spells
none of the other kinds is text. A document may ask for the older version of the format, in which
more words are truth values and numbers may be written in base sixty. -/

namespace WorkflowCompiler.Yaml

/-- The versions of the format, 1.1 and 1.2. -/
inductive Version
  | older
  | current
deriving DecidableEq, Repr

inductive Kind
  | null
  | bool (value : Bool)
  | int
  | float
  | timestamp
  | mergeKey
  | defaultKey
  | text
deriving DecidableEq, Repr

def afterSign : List Char → List Char
  | '-' :: rest => rest
  | '+' :: rest => rest
  | text => text

/-- At least one character, all of them accepted or underscores. -/
def isDigitRun (accepts : Char → Bool) (text : List Char) : Bool :=
  !text.isEmpty && text.all fun c => accepts c || c == '_'

def isOctal (c : Char) : Bool := '0' ≤ c && c ≤ '7'

def isHex (c : Char) : Bool :=
  c.isDigit || ('a' ≤ c && c ≤ 'f') || ('A' ≤ c && c ≤ 'F')

def isIntBody : List Char → Bool
  | '0' :: 'b' :: digits => isDigitRun (fun c => c == '0' || c == '1') digits
  | '0' :: 'o' :: digits => isDigitRun isOctal digits
  | '0' :: 'x' :: digits => isDigitRun isHex digits
  | digits => isDigitRun Char.isDigit digits

def isInt (text : List Char) : Bool :=
  text.head?.any (fun c => c.isDigit || c == '-' || c == '+') && isIntBody (afterSign text)

/-- An exponent, `e` included; its sign may be left out only if `bare`. -/
def isExponent (bare : Bool) : List Char → Bool
  | e :: rest =>
    (e == 'e' || e == 'E') &&
      match rest with
      | '-' :: digits => !digits.isEmpty && digits.all Char.isDigit
      | '+' :: digits => !digits.isEmpty && digits.all Char.isDigit
      | digits => bare && !digits.isEmpty && digits.all Char.isDigit
  | [] => false

def isFloatBody (text : List Char) : Bool :=
  let inRun := fun c : Char => c.isDigit || c == '_'
  match text with
  | '.' :: rest =>
    let exponent := rest.dropWhile inRun
    (rest.head?.any inRun && (exponent.isEmpty || isExponent false exponent))
      || ["inf".toList, "Inf".toList, "INF".toList].contains rest
  | first :: rest =>
    first.isDigit &&
      match rest.dropWhile inRun with
      | '.' :: more =>
        let exponent := more.dropWhile inRun
        exponent.isEmpty || isExponent true exponent
      | exponent => isExponent true exponent
  | [] => false

def isFloat (text : List Char) : Bool :=
  isFloatBody (afterSign text) || [".nan".toList, ".NaN".toList, ".NAN".toList].contains text

/-- Drops between `least` and `most` digits, as many as there are. -/
def dropDigits? (least most : Nat) (text : List Char) : Option (List Char) :=
  let count := ((text.take most).takeWhile Char.isDigit).length
  if count < least then none else some (text.drop count)

def dropChar? (expected : Char) : List Char → Option (List Char)
  | c :: rest => if c == expected then some rest else none
  | [] => none

def isSpaceOrTab (c : Char) : Bool := c == ' ' || c == '\t'

def isZone (text : List Char) : Bool :=
  match text.dropWhile isSpaceOrTab with
  | [] => text.isEmpty
  | ['Z'] => true
  | sign :: rest =>
    (sign == '-' || sign == '+') &&
      match dropDigits? 1 2 rest with
      | some [] => true
      | some (':' :: minutes) => dropDigits? 2 2 minutes == some []
      | _ => false

def isTimeOfDay (text : List Char) : Bool :=
  let afterSeconds := do
    let text ← dropDigits? 1 2 text
    let text ← dropChar? ':' text
    let text ← dropDigits? 2 2 text
    let text ← dropChar? ':' text
    dropDigits? 2 2 text
  match afterSeconds with
  | some ('.' :: rest) => isZone (rest.dropWhile Char.isDigit)
  | some rest => isZone rest
  | none => false

def isTimestamp (text : List Char) : Bool :=
  let date (least : Nat) := do
    let text ← dropDigits? 4 4 text
    let text ← dropChar? '-' text
    let text ← dropDigits? least 2 text
    let text ← dropChar? '-' text
    dropDigits? least 2 text
  date 2 == some [] ||
    match date 1 with
    | some (separator :: rest) =>
      if separator == 'T' || separator == 't' then isTimeOfDay rest
      else isSpaceOrTab separator && isTimeOfDay (rest.dropWhile isSpaceOrTab)
    | _ => false

/-- Groups of at most two digits below sixty, a colon before each of them. -/
def areSixtieths : List Char → Bool
  | [] => true
  | ':' :: tens :: ones :: rest =>
    if ones.isDigit then ('0' ≤ tens && tens ≤ '5') && areSixtieths rest
    else tens.isDigit && areSixtieths (ones :: rest)
  | [':', ones] => ones.isDigit
  | _ => false

/-- An integer in base sixty. -/
def isSixtyfold (text : List Char) : Bool :=
  let inRun := fun c : Char => c.isDigit || c == '_'
  let groups := text.dropWhile inRun
  text.head?.any (fun c => c.isDigit && c != '0') && !groups.isEmpty && areSixtieths groups

/-- An integer as the older version has it: a zero in front makes it octal. -/
def isOlderInt (text : List Char) : Bool :=
  text.head?.any (fun c => c.isDigit || c == '-' || c == '+') &&
    match afterSign text with
    | '0' :: 'b' :: digits => isDigitRun (fun c => c == '0' || c == '1') digits
    | '0' :: 'x' :: digits => isDigitRun isHex digits
    | digits =>
      isDigitRun isOctal digits || isSixtyfold digits
        || (digits.head? != some '0' && digits.head? != some '_' && isDigitRun Char.isDigit digits)

/-- A number in base sixty with a fraction. -/
def isSixtyfoldFloat (text : List Char) : Bool :=
  let inRun := fun c : Char => c.isDigit || c == '_'
  let groups := (text.dropWhile inRun).takeWhile (· != '.')
  text.head?.any Char.isDigit && !groups.isEmpty && areSixtieths groups &&
    match text.dropWhile (· != '.') with
    | '.' :: digits => digits.all inRun
    | _ => false

/-- A number with a fraction or an exponent as the older version has it. -/
def isOlderFloat (text : List Char) : Bool :=
  let body := afterSign text
  isSixtyfoldFloat body || [".nan".toList, ".NaN".toList, ".NAN".toList].contains text ||
    match body with
    | '.' :: first :: _ => isFloatBody body && (text == body || first.isAlpha)
    | _ => isFloatBody body

def trueWords : Version → List String
  | .older => ["y", "Y", "yes", "Yes", "YES", "true", "True", "TRUE", "on", "On", "ON"]
  | .current => ["true", "True", "TRUE"]

def falseWords : Version → List String
  | .older => ["n", "N", "no", "No", "NO", "false", "False", "FALSE", "off", "Off", "OFF"]
  | .current => ["false", "False", "FALSE"]

def isFloatIn : Version → List Char → Bool
  | .older => isOlderFloat
  | .current => isFloat

def isIntIn : Version → List Char → Bool
  | .older => isOlderInt
  | .current => isInt

/-- The kind of a scalar in a document of that version. -/
def kindIn (version : Version) (text : String) : Kind :=
  if ["", "~", "null", "Null", "NULL"].contains text then .null
  else if (trueWords version).contains text then .bool true
  else if (falseWords version).contains text then .bool false
  else if text == "<<" then .mergeKey
  else if text == "=" then .defaultKey
  else if isFloatIn version text.toList then .float
  else if isIntIn version text.toList then .int
  else if isTimestamp text.toList then .timestamp
  else .text

def kindOf (text : String) : Kind := kindIn .current text

end WorkflowCompiler.Yaml
