import Mathlib.Data.List.TakeWhile
import WorkflowCompiler.Proofs.PathTexts
import WorkflowCompiler.Proofs.Utf8Decoding
import WorkflowCompiler.Publish.Destination

/-! Absolute paths as `file:` addresses. The address of a path has the bytes of its text, each but those of
plain ASCII characters as an escape; it names the path and nothing else. -/

namespace WorkflowCompiler

namespace Address

/-- Letters, digits, slashes and the four signs that stand for themselves. -/
def isPlain (c : Char) : Bool := c.isAlphanum || c == '_' || c == '.' || c == '-' || c == '~' || c == '/'

def hexDigits : List Char := ['0', '1', '2', '3', '4', '5', '6', '7', '8', '9', 'A', 'B', 'C', 'D', 'E', 'F']

def hexDigit (value : Nat) : Char := hexDigits.getD value '0'

def escapeByte (byte : Nat) : List Char :=
  if byte < 0x80 ∧ isPlain (Char.ofNat byte) then [Char.ofNat byte] else ['%', hexDigit (byte / 16), hexDigit (byte % 16)]

def escape (text : List Char) : List Char := (Text.encodeUtf8 text).flatMap escapeByte

/-- The address of an absolute path: there is no host in it. -/
def ofPath (path : Path) : String := String.ofList (scheme.toList ++ '/' :: '/' :: escape path.text.toList)

theorem hexDigit?_hexDigit {value : Nat} (small : value < 16) : hexDigit? (hexDigit value) = some value := by
  revert value
  decide

theorem isPlain_hexDigit {value : Nat} (small : value < 16) : isPlain (hexDigit value) := by
  revert value
  decide

/-- Escapes are read as the bytes that they stand for, together with those before them. -/
theorem unescapeFrom_escapes (before bytes : List Nat) (small : ∀ byte ∈ bytes, byte < 256) :
    unescapeFrom before (bytes.flatMap escapeByte) = Text.decodeUtf8 (before.reverse ++ bytes) := by
  induction bytes generalizing before with
  | nil => simp [unescapeFrom]
  | cons byte rest ih =>
    obtain ⟨first, others⟩ := List.forall_mem_cons.mp small
    have later := ih (byte :: before) others
    rw [List.reverse_cons, List.append_assoc, List.singleton_append] at later
    rw [List.flatMap_cons, ← later, escapeByte]
    split
    next kept =>
      obtain ⟨single, plain⟩ := kept
      have number : (Char.ofNat byte).toNat = byte := by
        rw [Char.toNat_ofNat, if_pos (.inl (by omega))]
      have other : Char.ofNat byte ≠ '%' := by
        intro same
        rw [same] at plain
        cases plain
      rw [List.singleton_append, unescapeFrom.eq_3]
      · rw [if_pos (by omega), number]
      · exact fun high low rest same => absurd same other
    · have high := hexDigit?_hexDigit (show byte / 16 < 16 by omega)
      have low := hexDigit?_hexDigit (show byte % 16 < 16 by omega)
      simp only [List.cons_append, List.nil_append]
      rw [unescapeFrom, high, low]
      dsimp only
      rw [Nat.div_add_mod]

theorem unescape_escape (text : List Char) : unescape (escape text) = text := by
  rw [unescape, escape, unescapeFrom_escapes [] _ Text.encodeUtf8_lt]
  exact Text.decodeUtf8_encodeUtf8 text

/-- An escaped text consists of plain characters and percent signs. -/
theorem plain_of_mem_escape {text : List Char} {c : Char} (member : c ∈ escape text) : c = '%' ∨ isPlain c := by
  obtain ⟨byte, among, inside⟩ := List.mem_flatMap.mp member
  have small := Text.encodeUtf8_lt byte among
  unfold escapeByte at inside
  split at inside
  next kept =>
    rw [List.mem_singleton.mp inside]
    exact .inr kept.2
  · simp only [List.mem_cons, List.not_mem_nil, or_false] at inside
    rcases inside with rfl | rfl | rfl
    · exact .inl rfl
    · exact .inr (isPlain_hexDigit (by omega))
    · exact .inr (isPlain_hexDigit (by omega))

theorem ne_of_mem_escape {text : List Char} {c : Char} (member : c ∈ escape text) (other : Char)
    (special : other ≠ '%' ∧ isPlain other = false) : c ≠ other := by
  rintro rfl
  rcases plain_of_mem_escape member with same | plain
  · exact special.1 same
  · rw [special.2] at plain
    cases plain

/-- A slash at the front stays there. -/
theorem escape_slash (rest : List Char) : escape ('/' :: rest) = '/' :: escape rest := by
  have slash : ((String.utf8EncodeChar '/').map UInt8.toNat).flatMap escapeByte = ['/'] := by decide +kernel
  rw [escape, Text.encodeUtf8, List.flatMap_cons, List.flatMap_append, slash, List.singleton_append, ← Text.encodeUtf8, ← escape]

theorem isFileAddress_ofPath (path : Path) : isFileAddress (ofPath path) = true := by
  rw [isFileAddress, String.startsWith_string_iff, ofPath, String.toList_ofList]
  exact List.prefix_append _ _

theorem location_ofPath (path : Path) : location (ofPath path) = '/' :: '/' :: escape path.text.toList := by
  rw [location, ofPath, String.toList_ofList, List.drop_left' String.length_toList]
  refine List.filter_eq_self.mpr fun c member => ?_
  rcases List.mem_cons.mp member with rfl | member
  · rfl
  rcases List.mem_cons.mp member with rfl | member
  · rfl
  simp [ne_of_mem_escape member '\t' (by decide), ne_of_mem_escape member '\r' (by decide),
    ne_of_mem_escape member '\n' (by decide)]

/-- The address of a path is read as the text of the path. -/
theorem pathText_ofPath {path : Path} (absolute : path.isAbsolute) : pathText (ofPath path) = .ok path.text := by
  obtain ⟨rest, slash⟩ := Path.exists_text absolute
  have split : splitHost (location (ofPath path)) = ([], escape path.text.toList) := by
    rw [location_ofPath, slash, escape_slash]
    rfl
  have whole : (escape path.text.toList).takeWhile (fun c => !(c == '#' || c == '?')) = escape path.text.toList := by
    refine List.takeWhile_eq_self_iff.mpr fun c member => ?_
    simp [ne_of_mem_escape member '#' (by decide), ne_of_mem_escape member '?' (by decide)]
  simp only [pathText, split, whole, unescape_escape, String.ofList_toList]
  rfl

/-- No absolute path reads as an address. -/
theorem isFileAddress_text {path : Path} (absolute : path.isAbsolute) : isFileAddress path.text = false := by
  obtain ⟨rest, chars⟩ := Path.exists_text absolute
  rw [Bool.eq_false_iff]
  intro address
  have starts := String.startsWith_string_iff.mp address
  rw [chars] at starts
  have first := (List.cons_prefix_cons.mp (show 'f' :: "ile:".toList <+: '/' :: rest from starts)).1
  cases first

end Address

namespace Publish

/-- Whatever the components of an absolute path hold, the address of the path resolves to the path. -/
theorem resolveRoot_ofPath (surroundings : Surroundings) {path : Path} (normal : path.Normal) (absolute : path.isAbsolute) :
    resolveRoot surroundings (some (Address.ofPath path)) = .ok path := by
  have resolved : resolveText surroundings (Address.ofPath path) = resolvePath surroundings path := by
    rw [resolveText, if_pos (Address.isFileAddress_ofPath path), Address.pathText_ofPath absolute]
    exact congrArg (resolvePath surroundings) (Path.ofText_text normal)
  show resolveText surroundings (Address.ofPath path) = .ok path
  rw [resolved, resolvePath, if_pos absolute]

/-- A path with signs that have a meaning in addresses, a line break and letters of several bytes. -/
theorem resolveRoot_ofPath_escaped :
    Path.Normal ⟨.double, ["50% a?b#c;d", "..", "ü\n日😀"]⟩ ∧
    Address.ofPath ⟨.double, ["50% a?b#c;d", "..", "ü\n日😀"]⟩ =
      "file:////50%25%20a%3Fb%23c%3Bd/../%C3%BC%0A%E6%97%A5%F0%9F%98%80" ∧
    resolveRoot { current := [] } (some (Address.ofPath ⟨.double, ["50% a?b#c;d", "..", "ü\n日😀"]⟩)) =
      .ok ⟨.double, ["50% a?b#c;d", "..", "ü\n日😀"]⟩ :=
  ⟨by decide +kernel, by decide +kernel, resolveRoot_ofPath { current := [] } (by decide +kernel) rfl⟩

end Publish

end WorkflowCompiler
