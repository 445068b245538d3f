/-! Blank characters: the Unicode white space, with the four ASCII separators. -/

namespace WorkflowCompiler.Text

def isBlank (c : Char) : Bool :=
  let code := c.toNat
  (9 ≤ code && code ≤ 13) || (28 ≤ code && code ≤ 32) || code == 0x85 || code == 0xA0
    || code == 0x1680 || (0x2000 ≤ code && code ≤ 0x200A) || code == 0x2028 || code == 0x2029
    || code == 0x202F || code == 0x205F || code == 0x3000

/-- Drops the blanks at both ends. -/
def trim (text : List Char) : List Char :=
  ((text.dropWhile isBlank).reverse.dropWhile isBlank).reverse

/-- Whether a setting's text turns it on. -/
def isOn (setting : Option String) : Bool :=
  let chosen := String.ofList ((trim (setting.getD "").toList).map Char.toLower)
  !(["", "0", "false", "no"].contains chosen)

end WorkflowCompiler.Text
