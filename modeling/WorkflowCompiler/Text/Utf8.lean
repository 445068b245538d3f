/-! Bytes as UTF-8. Where bytes are no character, each longest piece that could have begun one
reads as the replacement character. -/

namespace WorkflowCompiler.Text

/-- What may follow a first byte: the bits of it that count, the bounds of the second byte, and
how many bytes follow in all. -/
def sequenceOf? (first : Nat) : Option (Nat × Nat × Nat × Nat) :=
  if 0xC2 ≤ first ∧ first ≤ 0xDF then some (first - 0xC0, 0x80, 0xBF, 1)
  else if first = 0xE0 then some (0, 0xA0, 0xBF, 2)
  else if first = 0xED then some (0xD, 0x80, 0x9F, 2)
  else if 0xE1 ≤ first ∧ first ≤ 0xEF then some (first - 0xE0, 0x80, 0xBF, 2)
  else if first = 0xF0 then some (0, 0x90, 0xBF, 3)
  else if 0xF1 ≤ first ∧ first ≤ 0xF3 then some (first - 0xF0, 0x80, 0xBF, 3)
  else if first = 0xF4 then some (4, 0x80, 0x8F, 3)
  else none

/-- Reads bytes; `pending` is the value so far of a character that has begun, the bounds of its
next byte and how many bytes it still needs. -/
def decodeFrom (pending : Option (Nat × Nat × Nat × Nat)) : List Nat → List Char
  | [] => if pending.isSome then ['\uFFFD'] else []
  | byte :: rest =>
    let fresh (before : List Char) : List Char :=
      if byte < 0x80 then before ++ Char.ofNat byte :: decodeFrom none rest
      else match sequenceOf? byte with
        | some begun => before ++ decodeFrom (some begun) rest
        | none => before ++ '\uFFFD' :: decodeFrom none rest
    match pending with
    | none => fresh []
    | some (value, least, most, more) =>
      if least ≤ byte ∧ byte ≤ most then
        let value := 64 * value + (byte - 0x80)
        if more ≤ 1 then Char.ofNat value :: decodeFrom none rest
        else decodeFrom (some (value, 0x80, 0xBF, more - 1)) rest
      else fresh ['\uFFFD']

def decodeUtf8 (bytes : List Nat) : List Char := decodeFrom none bytes

end WorkflowCompiler.Text
