/-! Bytes written as text, three bytes in four characters. What is no character of the sixty-four
has no meaning, but for the sign that fills up the last four. -/

namespace WorkflowCompiler.Yaml.Base64

def digits : List Char :=
  "ABCDEFGHIJKLMNOPQRSTUVWXYZabcdefghijklmnopqrstuvwxyz0123456789+/".toList

def digit? (c : Char) : Option Nat := digits.findIdx? (· == c)

/-- The bytes that a text stands for; nothing if it breaks off inside of four characters. `place` is
the place among these four, `left` what is left of the character before, `fills` how many signs that
fill up stand directly before. -/
def decodeFrom (place left fills : Nat) : List Char → Option (List Nat)
  | [] => if place = 0 then some [] else none
  | '=' :: rest =>
    if 2 ≤ place ∧ 4 ≤ place + fills + 1 then some []
    else decodeFrom place left (if 2 ≤ place then fills + 1 else fills) rest
  | c :: rest =>
    match digit? c, place with
    | none, place => decodeFrom place left fills rest
    | some digit, 0 => decodeFrom 1 digit 0 rest
    | some digit, 1 => (decodeFrom 2 (digit % 16) 0 rest).map ((4 * left + digit / 16) :: ·)
    | some digit, 2 => (decodeFrom 3 (digit % 4) 0 rest).map ((16 * left + digit / 4) :: ·)
    | some digit, _ => (decodeFrom 0 0 0 rest).map ((64 * left + digit) :: ·)

def decode? (text : List Char) : Option (List Nat) := decodeFrom 0 0 0 text

def digit (value : Nat) : Char := digits.getD value '='

/-- Three bytes at a time; signs fill up the last four characters. -/
def encodeLine : List Nat → List Char
  | [] => []
  | [first] => [digit (first / 4), digit (first % 4 * 16), '=', '=']
  | [first, second] =>
    [digit (first / 4), digit (first % 4 * 16 + second / 16), digit (second % 16 * 4), '=']
  | first :: second :: third :: rest =>
    digit (first / 4) :: digit (first % 4 * 16 + second / 16) :: digit (second % 16 * 4 + third / 64)
      :: digit (third % 64) :: encodeLine rest

/-- How many bytes are written in one line. -/
def bytesPerLine : Nat := 57

/-- The lines for some bytes, `more` being the bound on how many there are. -/
def encodeLines : Nat → List Nat → List Char
  | 0, _ => []
  | more + 1, bytes =>
    if bytes.isEmpty then []
    else encodeLine (bytes.take bytesPerLine) ++ '\n' :: encodeLines more (bytes.drop bytesPerLine)

def encode (bytes : List Nat) : String := String.ofList (encodeLines bytes.length bytes)

end WorkflowCompiler.Yaml.Base64
