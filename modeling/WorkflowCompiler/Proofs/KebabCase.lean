import WorkflowCompiler.Proofs.Comparison
import WorkflowCompiler.Text.Kebab

/-! What is left of a name in kebab case: small letters, digits and hyphens, and nothing at all of a name that has no
letters and no digits of ASCII. -/

namespace WorkflowCompiler.Text

section

variable {first second wider : Char → Bool} {text : List Char}

theorem length_takeWhile_mono (within : ∀ c, first c = true → wider c = true) (text : List Char) :
    (text.takeWhile first).length ≤ (text.takeWhile wider).length := by
  induction text with
  | nil => exact le_rfl
  | cons c text ih =>
    by_cases starts : first c = true
    · rw [List.takeWhile_cons_of_pos starts, List.takeWhile_cons_of_pos (within c starts)]
      exact Nat.succ_le_succ ih
    · rw [List.takeWhile_cons_of_neg starts]
      exact Nat.zero_le _

/-- Two runs, the second right behind the first, are no longer than one of both kinds. -/
theorem length_takeWhile_both (early : ∀ c, first c = true → wider c = true) (late : ∀ c, second c = true → wider c = true)
    (text : List Char) :
    (text.takeWhile first).length + ((text.drop (text.takeWhile first).length).takeWhile second).length ≤ (text.takeWhile wider).length := by
  induction text with
  | nil => exact le_rfl
  | cons c text ih =>
    by_cases starts : first c = true
    · rw [List.takeWhile_cons_of_pos starts, List.takeWhile_cons_of_pos (early c starts), List.length_cons, List.length_cons, List.drop_succ_cons]
      omega
    · rw [List.takeWhile_cons_of_neg starts, List.length_nil, Nat.zero_add, List.drop_zero]
      exact length_takeWhile_mono late (c :: text)

end

theorem isAlphanum_upper (c : Char) (upper : c.isUpper = true) : c.isAlphanum = true := by simp [Char.isAlphanum, Char.isAlpha, upper]

theorem isAlphanum_lower (c : Char) (lower : c.isLower = true) : c.isAlphanum = true := by simp [Char.isAlphanum, Char.isAlpha, lower]

theorem isAlphanum_digit (c : Char) (digit : c.isDigit = true) : c.isAlphanum = true := by simp [Char.isAlphanum, digit]

@[simp] theorem isAlphanum_toLower (c : Char) : c.toLower.isAlphanum = c.isAlphanum := by
  by_cases capital : c.isUpper = true
  · have small : c.toLower.isAlpha = true := by simp [Char.isAlpha, capital]
    rw [isAlphanum_upper c capital, Char.isAlphanum, small]
    rfl
  · rw [Char.toLower_eq_of_not_isUpper capital]

/-- What is taken from the front of a text stays within a run there. -/
theorem all_take {kind : Char → Bool} {text : List Char} {length : Nat} (short : length ≤ (text.takeWhile kind).length) :
    ∀ c ∈ text.take length, kind c = true := by
  have leads : text.take length <+: text.takeWhile kind :=
    List.prefix_of_prefix_length_le (List.take_prefix _ _) (List.takeWhile_prefix _) (Nat.le_trans (List.length_take_le _ _) short)
  exact fun c inside => List.all_eq_true.mp List.all_takeWhile c (leads.subset inside)

/-- A word has letters and digits only. -/
theorem wordLength_le (text : List Char) : wordLength text ≤ (text.takeWhile Char.isAlphanum).length := by
  have letters := length_takeWhile_both isAlphanum_upper isAlphanum_lower text
  have digits := length_takeWhile_mono isAlphanum_digit text
  rw [wordLength]
  split <;> omega

/-- A word starts at every letter and every digit. -/
theorem wordLength_eq_zero (c : Char) (rest : List Char) : wordLength (c :: rest) = 0 ↔ c.isAlphanum = false := by
  constructor
  · intro none
    by_contra starts
    rw [wordLength] at none
    by_cases upper : c.isUpper = true
    · rw [List.takeWhile_cons_of_pos upper, List.length_cons] at none
      generalize (List.takeWhile Char.isLower _).length = small at none
      generalize (rest.takeWhile Char.isUpper).length = capitals at none
      rcases capitals with _ | _ | more
      · cases small <;> simp at none
      · cases none
      · cases small <;> cases none
    rw [List.takeWhile_cons_of_neg upper, List.length_nil, List.drop_zero] at none
    by_cases lower : c.isLower = true
    · rw [List.takeWhile_cons_of_pos lower, List.length_cons] at none
      cases none
    · have digit : c.isDigit = true := by simpa [Char.isAlphanum, Char.isAlpha, upper, lower] using starts
      rw [List.takeWhile_cons_of_neg lower, List.takeWhile_cons_of_pos digit] at none
      cases none
  · intro other
    have short := wordLength_le (c :: rest)
    rw [List.takeWhile_cons_of_neg (by simp [other])] at short
    exact Nat.le_zero.mp short

theorem mem_words {text word : List Char} (member : word ∈ words text) : word ≠ [] ∧ ∀ c ∈ word, c.isAlphanum = true := by
  fun_induction words text with
  | case1 => cases member
  | case2 first rest none ih => exact ih member
  | case3 first rest length found ih =>
    rcases List.mem_cons.mp member with rfl | later
    · have short := wordLength_le (first :: rest)
      rw [found] at short
      exact ⟨by simp, all_take short⟩
    · exact ih later

theorem words_eq_nil {text : List Char} : words text = [] ↔ ∀ c ∈ text, c.isAlphanum = false := by
  fun_induction words text with
  | case1 => simp
  | case2 first rest none ih => simp [ih, (wordLength_eq_zero first rest).mp none]
  | case3 first rest length found ih =>
    have starts : first.isAlphanum ≠ false := by
      rw [Ne, ← wordLength_eq_zero first rest, found]
      exact Nat.succ_ne_zero length
    simp [starts]

theorem mem_of_mem_intercalate {separator : List α} {parts : List (List α)} {item : α} (member : item ∈ separator.intercalate parts) :
    item ∈ separator ∨ ∃ part ∈ parts, item ∈ part := by
  induction parts with
  | nil => cases member
  | cons part parts ih =>
    cases parts with
    | nil =>
      rw [List.intercalate_singleton] at member
      exact .inr ⟨part, List.mem_cons_self, member⟩
    | cons next parts =>
      rw [List.intercalate_cons_cons, List.append_assoc] at member
      rcases List.mem_append.mp member with here | later
      · exact .inr ⟨part, List.mem_cons_self, here⟩
      rcases List.mem_append.mp later with between | later
      · exact .inl between
      · exact (ih later).imp_right fun ⟨other, inside, held⟩ => ⟨other, List.mem_cons_of_mem _ inside, held⟩

theorem mem_kebab {name : String} {c : Char} (member : c ∈ (kebab name).toList) : c.isAlphanum = true ∨ c = '-' := by
  rw [kebab, String.toList_intercalate] at member
  rcases mem_of_mem_intercalate member with between | ⟨part, inside, held⟩
  · exact .inr (List.mem_singleton.mp between)
  · rw [List.map_map] at inside
    obtain ⟨word, there, rfl⟩ := List.mem_map.mp inside
    rw [Function.comp, String.toList_ofList] at held
    obtain ⟨letter, inWord, rfl⟩ := List.mem_map.mp held
    rw [isAlphanum_toLower]
    exact .inl ((mem_words there).2 letter inWord)

/-- A name leaves something in kebab case if it has a letter or a digit. -/
theorem kebab_eq_empty {name : String} : kebab name = "" ↔ ∀ c ∈ name.toList, c.isAlphanum = false := by
  rw [← words_eq_nil, kebab]
  cases found : words name.toList with
  | nil => simp
  | cons word others =>
    have some : word ≠ [] := (mem_words (by rw [found]; exact List.mem_cons_self)).1
    have filled : String.ofList (word.map Char.toLower) ≠ "" := by simpa using some
    simpa using Publish.intercalate_ne_empty filled

end WorkflowCompiler.Text
