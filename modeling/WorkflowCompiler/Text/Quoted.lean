import WorkflowCompiler.Text.Printable

/-! Text as messages show it: in single quotes, or in double quotes when it holds a single and
no double one. A backslash and the quote in use are escaped, and so is every character that
does not print. -/

namespace WorkflowCompiler.Text

/-- The last `width` hexadecimal digits of `code`. -/
def hexDigits : Nat → Nat → List Char
  | 0, _ => []
  | width + 1, code => hexDigits width (code / 16) ++ [Nat.digitChar (code % 16)]

def codeEscape (c : Char) : List Char :=
  let code := c.toNat
  if code < 0x100 then '\\' :: 'x' :: hexDigits 2 code
  else if code < 0x10000 then '\\' :: 'u' :: hexDigits 4 code
  else '\\' :: 'U' :: hexDigits 8 code

def quoteChar (quote c : Char) : List Char :=
  if c == quote || c == '\\' then ['\\', c]
  else match c with
    | '\n' => ['\\', 'n']
    | '\r' => ['\\', 'r']
    | '\t' => ['\\', 't']
    | c => if isPrintable c then [c] else codeEscape c

def quote (text : String) : String :=
  let mark := if text.contains '\'' && !text.contains '"' then '"' else '\''
  String.ofList (mark :: text.toList.flatMap (quoteChar mark) ++ [mark])

end WorkflowCompiler.Text
