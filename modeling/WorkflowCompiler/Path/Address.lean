import WorkflowCompiler.Path.Host
import WorkflowCompiler.Path.Posix
import WorkflowCompiler.Text.Utf8

/-! Paths given as `file:` addresses. What stands after a question mark or a number sign and the
host are dropped; in the path a percent sign and two hexadecimal digits stand for a byte. -/

namespace WorkflowCompiler.Address

/-- A text with its escapes read: runs of ASCII characters are bytes, the others stand for
themselves. `bytes` are those of the run so far, in reverse. -/
def unescapeFrom (bytes : List Nat) : List Char → List Char
  | [] => Text.decodeUtf8 bytes.reverse
  | '%' :: high :: low :: rest =>
    match hexDigit? high, hexDigit? low with
    | some high, some low => unescapeFrom ((16 * high + low) :: bytes) rest
    | _, _ => unescapeFrom ('%'.toNat :: bytes) (high :: low :: rest)
  | c :: rest =>
    if c.toNat < 0x80 then unescapeFrom (c.toNat :: bytes) rest
    else Text.decodeUtf8 bytes.reverse ++ c :: unescapeFrom [] rest

def unescape (text : List Char) : List Char := unescapeFrom [] text

def scheme : String := "file:"

def isFileAddress (text : String) : Bool := text.startsWith scheme

/-- What an address has after its scheme; tabs and line breaks have no meaning in it. -/
def location (address : String) : List Char :=
  (address.toList.drop scheme.length).filter fun c => !(c == '\t' || c == '\r' || c == '\n')

def endsHost (c : Char) : Bool := c == '/' || c == '?' || c == '#'

/-- The host, if there is one, and what stands after it. -/
def splitHost : List Char → List Char × List Char
  | '/' :: '/' :: rest => (rest.takeWhile (!endsHost ·), rest.dropWhile (!endsHost ·))
  | location => ([], location)

/-- The path that an address names. -/
def pathText (address : String) : Except Failure String := do
  let (host, rest) := splitHost (location address)
  if let some cause := hostFault? host then .error (.ofCause cause)
  return String.ofList (unescape (rest.takeWhile fun c => !(c == '#' || c == '?')))

end WorkflowCompiler.Address
