import Mathlib
import WorkflowCompiler.Text.Utf8

/-! Reading bytes as UTF-8. The bytes of a text are read as the text; and no matter what the bytes are, only a
byte of zero is read as the character NUL. -/

namespace WorkflowCompiler.Text

/-- The bytes of a text. -/
def encodeUtf8 (text : List Char) : List Nat := text.flatMap fun c => (String.utf8EncodeChar c).map UInt8.toNat

section

variable {byte : Nat} (rest : List Nat)

theorem decodeFrom_single (small : byte < 0x80) : decodeFrom none (byte :: rest) = Char.ofNat byte :: decodeFrom none rest := by
  simp [decodeFrom, small]

theorem decodeFrom_begun {begun : Nat × Nat × Nat × Nat} (begins : sequenceOf? byte = some begun) :
    decodeFrom none (byte :: rest) = decodeFrom (some begun) rest := by
  have large : ¬ byte < 0x80 := by
    intro small
    unfold sequenceOf? at begins
    repeat' split at begins
    all_goals first | omega | cases begins
  simp [decodeFrom, large, begins]

theorem decodeFrom_unread (large : ¬ byte < 0x80) (ends : sequenceOf? byte = none) :
    decodeFrom none (byte :: rest) = '\uFFFD' :: decodeFrom none rest := by
  simp [decodeFrom, large, ends]

variable {value least most more : Nat}

theorem decodeFrom_last (low : least ≤ byte) (high : byte ≤ most) :
    decodeFrom (some (value, least, most, 1)) (byte :: rest) =
      Char.ofNat (64 * value + (byte - 0x80)) :: decodeFrom none rest := by
  simp [decodeFrom, low, high]

theorem decodeFrom_next (low : least ≤ byte) (high : byte ≤ most) :
    decodeFrom (some (value, least, most, more + 2)) (byte :: rest) =
      decodeFrom (some (64 * value + (byte - 0x80), 0x80, 0xBF, more + 1)) rest := by
  simp [decodeFrom, low, high]

/-- A byte that does not go on with a character begins anew. -/
theorem decodeFrom_broken (outside : ¬ (least ≤ byte ∧ byte ≤ most)) :
    decodeFrom (some (value, least, most, more)) (byte :: rest) = '\uFFFD' :: decodeFrom none (byte :: rest) := by
  simp only [decodeFrom, if_neg outside]
  split
  · simp
  · split <;> simp

end

theorem sequenceOf?_two {lead : Nat} (low : 2 ≤ lead) (high : lead < 32) :
    sequenceOf? (lead + 0xC0) = some (lead, 0x80, 0xBF, 1) := by
  rw [sequenceOf?, if_pos (by omega)]
  simp

theorem sequenceOf?_three {lead : Nat} (high : lead < 16) :
    sequenceOf? (lead + 0xE0) = some (lead, if lead = 0 then 0xA0 else 0x80, if lead = 13 then 0x9F else 0xBF, 2) := by
  revert lead
  decide

theorem sequenceOf?_four {lead : Nat} (high : lead < 5) :
    sequenceOf? (lead + 0xF0) = some (lead, if lead = 0 then 0x90 else 0x80, if lead = 4 then 0x8F else 0xBF, 3) := by
  revert lead
  decide

/-- A character is read back from its bytes, whatever follows. -/
theorem decodeFrom_encodeChar (c : Char) (rest : List Nat) :
    decodeFrom none ((String.utf8EncodeChar c).map UInt8.toNat ++ rest) = c :: decodeFrom none rest := by
  have valid := c.valid
  have same : Char.ofNat c.val.toNat = c := Char.ofNat_toNat c
  simp only [UInt32.isValidChar, Nat.isValidChar] at valid
  generalize code : c.val.toNat = value at valid same
  have word {byte : Nat} (small : byte < 256) : (UInt8.ofNat byte).toNat = byte := UInt8.toNat_ofNat_of_lt' small
  have read {sum : Nat} (whole : sum = value) : Char.ofNat sum :: decodeFrom none rest = c :: decodeFrom none rest := by
    rw [whole, same]
  unfold String.utf8EncodeChar
  simp only [code]
  split
  · rw [List.map_singleton, word (by omega), List.singleton_append, decodeFrom_single _ (by omega), same]
  · split
    · simp only [List.map_cons, List.map_nil, List.cons_append, List.nil_append]
      rw [word (by omega), word (by omega), decodeFrom_begun _ (sequenceOf?_two (by omega) (by omega)),
        decodeFrom_last _ (by omega) (by omega)]
      exact read (by omega)
    · split
      · simp only [List.map_cons, List.map_nil, List.cons_append, List.nil_append]
        rw [word (by omega), word (by omega), word (by omega),
          decodeFrom_begun _ (sequenceOf?_three (by omega)), decodeFrom_next _ (by split <;> omega) (by split <;> omega),
          decodeFrom_last _ (by omega) (by omega)]
        exact read (by omega)
      · simp only [List.map_cons, List.map_nil, List.cons_append, List.nil_append]
        rw [word (by omega), word (by omega), word (by omega), word (by omega),
          decodeFrom_begun _ (sequenceOf?_four (by omega)), decodeFrom_next _ (by split <;> omega) (by split <;> omega),
          decodeFrom_next _ (by omega) (by omega), decodeFrom_last _ (by omega) (by omega)]
        exact read (by omega)

/-- A text is read back from its bytes. -/
theorem decodeUtf8_encodeUtf8 (text : List Char) : decodeUtf8 (encodeUtf8 text) = text := by
  induction text with
  | nil => rfl
  | cons c rest ih =>
    rw [encodeUtf8, List.flatMap_cons, decodeUtf8, decodeFrom_encodeChar]
    exact congrArg (c :: ·) ih

theorem encodeUtf8_lt {text : List Char} : ∀ byte ∈ encodeUtf8 text, byte < 256 := by
  intro byte member
  obtain ⟨c, -, inside⟩ := List.mem_flatMap.mp member
  obtain ⟨word, -, rfl⟩ := List.mem_map.mp inside
  exact word.toNat_lt

/-- However a character that has begun goes on, it becomes one, and not NUL. -/
def Promises : Nat → Nat → Nat → Nat → Prop
  | 0, _, _, _ => False
  | 1, value, least, most => ∀ byte, least ≤ byte → byte ≤ most →
    (64 * value + (byte - 0x80)).isValidChar ∧ 64 * value + (byte - 0x80) ≠ 0
  | more + 2, value, least, most => ∀ byte, least ≤ byte → byte ≤ most →
    Promises (more + 1) (64 * value + (byte - 0x80)) 0x80 0xBF

theorem promises_sequenceOf? {first value least most more : Nat} (begins : sequenceOf? first = some (value, least, most, more)) :
    Promises more value least most := by
  unfold sequenceOf? at begins
  repeat' split at begins
  all_goals simp only [Option.some.injEq, Prod.mk.injEq, reduceCtorEq] at begins
  all_goals
    obtain ⟨rfl, rfl, rfl, rfl⟩ := begins
    simp only [Promises, Nat.isValidChar]
    intros
    omega

theorem ofNat_ne_nul {code : Nat} (valid : code.isValidChar) (other : code ≠ 0) : Char.ofNat code ≠ '\x00' := by
  intro same
  have number : (Char.ofNat code).toNat = code := by
    rw [Char.toNat_ofNat, if_pos valid]
  rw [same] at number
  exact other number.symm

def Promised : Option (Nat × Nat × Nat × Nat) → Prop
  | none => True
  | some (value, least, most, more) => Promises more value least most

/-- Bytes other than zero are read as characters other than NUL. -/
theorem nul_not_mem_decodeFrom {bytes : List Nat} (clean : 0 ∉ bytes) (pending : Option (Nat × Nat × Nat × Nat))
    (promised : Promised pending) : '\x00' ∉ decodeFrom pending bytes := by
  induction bytes generalizing pending with
  | nil => cases pending <;> simp [decodeFrom]
  | cons byte rest ih =>
    have other : byte ≠ 0 := fun same => clean (by simp [same])
    have later := ih fun member => clean (List.mem_cons_of_mem _ member)
    have fresh := later none trivial
    have anew : '\x00' ∉ decodeFrom none (byte :: rest) := by
      by_cases small : byte < 0x80
      · have valid : byte.isValidChar := .inl (by omega)
        simp [decodeFrom_single rest small, fresh, (ofNat_ne_nul valid other).symm]
      · cases begins : sequenceOf? byte with
        | some begun =>
          rw [decodeFrom_begun rest begins]
          exact later (some begun) (promises_sequenceOf? begins)
        | none => simp [decodeFrom_unread rest small begins, fresh]
    cases pending with
    | none => exact anew
    | some begun =>
      obtain ⟨value, least, most, more⟩ := begun
      by_cases between : least ≤ byte ∧ byte ≤ most
      · obtain ⟨low, high⟩ := between
        obtain _ | _ | more := more
        · exact promised.elim
        · obtain ⟨valid, filled⟩ := promised byte low high
          simp [decodeFrom_last rest low high, fresh, (ofNat_ne_nul valid filled).symm]
        · rw [decodeFrom_next rest low high]
          exact later _ (promised byte low high)
      · simp [decodeFrom_broken rest between, anew]

end WorkflowCompiler.Text
