import Mathlib.Data.List.DropRight
import WorkflowCompiler.Proofs.KebabCase
import WorkflowCompiler.Proofs.TextRuns

/-! The words of a name in kebab case. Cutting a text into words loses none of its letters and digits, a
word holds letters or digits but never both, and a text that is in kebab case already is cut at its hyphens
only. A word ends before every capital that stands behind anything but a capital, so that what becomes of a
capitalized word depends on the run of capitals right before it alone. -/

namespace WorkflowCompiler.Text

open Proofs (Stops takeWhile_append_of_stops takeWhile_of_stops)

/-- A word of a name in kebab case. -/
def IsWord (word : List Char) : Prop :=
  word ≠ [] ∧ ((∀ c ∈ word, c.isLower = true) ∨ ∀ c ∈ word, c.isDigit = true)

/-- Words with hyphens between them. -/
def hyphenated (parts : List (List Char)) : List Char := ['-'].intercalate parts

/-- The words of a text in small letters. -/
def smallWords (text : List Char) : List (List Char) := (words text).map (·.map Char.toLower)

theorem toList_kebab (name : String) : (kebab name).toList = hyphenated (smallWords name.toList) := by
  rw [kebab, String.toList_intercalate, List.map_map, hyphenated, smallWords]
  congr 1
  exact List.map_congr_left fun word _ => String.toList_ofList

theorem hyphenated_cons (part : List Char) (parts : List (List Char)) :
    hyphenated (part :: parts) = part ++ if parts = [] then [] else '-' :: hyphenated parts := by
  cases parts with
  | nil => simp [hyphenated]
  | cons next parts => simp [hyphenated, List.intercalate_cons_cons]

section Letters

variable {c : Char}

theorem isUpper_of_isDigit (digit : c.isDigit = true) : c.isUpper = false := by
  simp only [Char.isDigit, Char.isUpper, Bool.and_eq_true, decide_eq_true_eq, decide_eq_false_iff_not,
    UInt32.le_iff_toNat_le, ge_iff_le] at digit ⊢
  have : '9'.val.toNat = 57 := rfl
  have : 'A'.val.toNat = 65 := rfl
  omega

theorem isLower_of_isDigit (digit : c.isDigit = true) : c.isLower = false := by
  simp only [Char.isDigit, Char.isLower, Bool.and_eq_true, decide_eq_true_eq, Bool.and_eq_false_iff,
    decide_eq_false_iff_not, UInt32.le_iff_toNat_le, ge_iff_le] at digit ⊢
  have : '9'.val.toNat = 57 := rfl
  have : 'a'.val.toNat = 97 := rfl
  omega

theorem isUpper_of_isLower (small : c.isLower = true) : c.isUpper = false := by
  simpa using Char.not_isUpper_of_isLower small

theorem isLower_of_isUpper (capital : c.isUpper = true) : c.isLower = false := by
  simpa using Char.not_isLower_of_isUpper capital

theorem isDigit_of_isUpper (capital : c.isUpper = true) : c.isDigit = false := by
  by_contra digit
  rw [isUpper_of_isDigit (by simpa using digit)] at capital
  cases capital

theorem toLower_ne_hyphen (capital : c.isUpper = true) : c.toLower ≠ '-' := by
  intro same
  have small : c.toLower.isAlpha = true := by simp [Char.isAlpha, capital]
  rw [same] at small
  cases small

end Letters

/-- A word that is cut off holds letters only or digits only. -/
theorem take_wordLength (text : List Char) :
    (∀ c ∈ text.take (wordLength text), c.isAlpha = true) ∨ ∀ c ∈ text.take (wordLength text), c.isDigit = true := by
  have uppers (c : Char) (upper : c.isUpper = true) : c.isAlpha = true := by simp [Char.isAlpha, upper]
  have lowers (c : Char) (lower : c.isLower = true) : c.isAlpha = true := by simp [Char.isAlpha, lower]
  have letters := length_takeWhile_both uppers lowers text
  rw [wordLength]
  split
  · exact .inr (all_take le_rfl)
  all_goals
    left
    apply all_take
    omega

theorem kind_of_mem_words {text word : List Char} (member : word ∈ words text) :
    (∀ c ∈ word, c.isAlpha = true) ∨ ∀ c ∈ word, c.isDigit = true := by
  fun_induction words text with
  | case1 => cases member
  | case2 first rest none ih => exact ih member
  | case3 first rest length found ih =>
    rcases List.mem_cons.mp member with rfl | later
    · have kind := take_wordLength (first :: rest)
      rwa [found] at kind
    · exact ih later

/-- Nothing but letters and digits is in the words of a text, and all of these are. -/
theorem flatten_words (text : List Char) : (words text).flatten = text.filter Char.isAlphanum := by
  fun_induction words text with
  | case1 => rfl
  | case2 first rest none ih =>
    rw [ih, List.filter_cons_of_neg]
    simpa using (wordLength_eq_zero first rest).mp none
  | case3 first rest length found ih =>
    have short := wordLength_le (first :: rest)
    rw [found] at short
    have whole : ((first :: rest).take (length + 1)).filter Char.isAlphanum = (first :: rest).take (length + 1) :=
      List.filter_eq_self.mpr (all_take short)
    rw [List.flatten_cons, ih]
    calc (first :: rest).take (length + 1) ++ ((first :: rest).drop (length + 1)).filter Char.isAlphanum
        = ((first :: rest).take (length + 1) ++ (first :: rest).drop (length + 1)).filter Char.isAlphanum := by
          rw [List.filter_append, whole]
      _ = (first :: rest).filter Char.isAlphanum := by rw [List.take_append_drop]

theorem flatten_smallWords (text : List Char) :
    (smallWords text).flatten = (text.filter Char.isAlphanum).map Char.toLower := by
  rw [smallWords, ← List.map_flatten, flatten_words]

theorem isWord_of_mem {text part : List Char} (member : part ∈ smallWords text) : IsWord part := by
  obtain ⟨word, there, rfl⟩ := List.mem_map.mp member
  refine ⟨by simpa using (mem_words there).1, ?_⟩
  rcases kind_of_mem_words there with letters | digits
  · exact .inl fun c inside => by
      obtain ⟨letter, held, rfl⟩ := List.mem_map.mp inside
      simpa using letters letter held
  · exact .inr fun c inside => by
      obtain ⟨digit, held, rfl⟩ := List.mem_map.mp inside
      rw [Char.toLower_eq_of_not_isUpper (by simp [isUpper_of_isDigit (digits digit held)])]
      exact digits digit held

namespace IsWord

variable {word rest : List Char}

theorem isAlphanum (isWord : IsWord word) : ∀ c ∈ word, c.isAlphanum = true := by
  rcases isWord.2 with small | digits
  · exact fun c member => isAlphanum_lower c (small c member)
  · exact fun c member => isAlphanum_digit c (digits c member)

theorem map_toLower (isWord : IsWord word) : word.map Char.toLower = word := by
  have same : ∀ c ∈ word, c.toLower = c := by
    intro c member
    apply Char.toLower_eq_of_not_isUpper
    rcases isWord.2 with small | digits
    · simp [isUpper_of_isLower (small c member)]
    · simp [isUpper_of_isDigit (digits c member)]
  exact (List.map_congr_left same).trans (List.map_id word)

/-- A word is cut off as a whole if no letter and no digit goes on behind it. -/
theorem wordLength_append (isWord : IsWord word) (stops : Stops Char.isAlphanum rest) :
    wordLength (word ++ rest) = word.length := by
  obtain ⟨filled, kind⟩ := isWord
  obtain ⟨first, more, rfl⟩ := List.exists_cons_of_ne_nil filled
  have ends {one : Char → Bool} (within : ∀ c, one c = true → c.isAlphanum = true) : Stops one rest := by
    intro c member
    by_contra goes
    have other := stops c member
    rw [within c (by simpa using goes)] at other
    cases other
  rcases kind with small | digits
  · have capitals : (first :: more ++ rest).takeWhile Char.isUpper = [] :=
      takeWhile_of_stops fun c head => by
        cases head
        exact isUpper_of_isLower (small first List.mem_cons_self)
    rw [wordLength, capitals, List.length_nil, List.drop_zero, (takeWhile_append_of_stops small (ends isAlphanum_lower)).1]
    rfl
  · have capitals : (first :: more ++ rest).takeWhile Char.isUpper = [] :=
      takeWhile_of_stops fun c head => by
        cases head
        exact isUpper_of_isDigit (digits first List.mem_cons_self)
    have letters : (first :: more ++ rest).takeWhile Char.isLower = [] :=
      takeWhile_of_stops fun c head => by
        cases head
        exact isLower_of_isDigit (digits first List.mem_cons_self)
    rw [wordLength, capitals, List.length_nil, List.drop_zero, letters, (takeWhile_append_of_stops digits (ends isAlphanum_digit)).1]
    rfl

theorem words_append (isWord : IsWord word) (stops : Stops Char.isAlphanum rest) : words (word ++ rest) = word :: words rest := by
  have length := isWord.wordLength_append stops
  obtain ⟨first, more, rfl⟩ := List.exists_cons_of_ne_nil isWord.1
  rw [List.cons_append] at length ⊢
  rw [words, length]
  simp

end IsWord

theorem words_skip {c : Char} (other : c.isAlphanum = false) (rest : List Char) : words (c :: rest) = words rest := by
  rw [words, (wordLength_eq_zero c rest).mpr other]

/-- What is in kebab case is cut at its hyphens. -/
theorem words_hyphenated {parts : List (List Char)} (each : ∀ part ∈ parts, IsWord part) : words (hyphenated parts) = parts := by
  induction parts with
  | nil => rw [hyphenated, List.intercalate_nil, words]
  | cons part parts ih =>
    obtain ⟨first, later⟩ := List.forall_mem_cons.mp each
    rw [hyphenated_cons]
    split
    · next last =>
      rw [first.words_append (by simp [Stops]), last, words]
    · have hyphen : Stops Char.isAlphanum ('-' :: hyphenated parts) := by
        rintro _ ⟨⟩
        rfl
      rw [first.words_append hyphen, words_skip rfl, ih later]

theorem smallWords_hyphenated {parts : List (List Char)} (each : ∀ part ∈ parts, IsWord part) :
    smallWords (hyphenated parts) = parts := by
  rw [smallWords, words_hyphenated each]
  exact (List.map_congr_left fun part member => (each part member).map_toLower).trans (List.map_id parts)

theorem filter_plain {part : List Char} (plain : '-' ∉ part) : part.filter (· ≠ '-') = part :=
  List.filter_eq_self.mpr fun c member => by simpa using fun same : c = '-' => plain (same ▸ member)

theorem filter_hyphenated {parts : List (List Char)} (each : ∀ part ∈ parts, '-' ∉ part) :
    (hyphenated parts).filter (· ≠ '-') = parts.flatten := by
  induction parts with
  | nil => rfl
  | cons part parts ih =>
    obtain ⟨first, later⟩ := List.forall_mem_cons.mp each
    rw [hyphenated_cons, List.filter_append, filter_plain first, List.flatten_cons]
    split
    · next last => simp [last]
    · rw [List.filter_cons_of_neg (by simp), ih later]

theorem hyphen_not_mem {text part : List Char} (member : part ∈ smallWords text) : '-' ∉ part :=
  fun hyphen => absurd ((isWord_of_mem member).isAlphanum '-' hyphen) (by decide)

/-- A name in kebab case is made of words, each of small letters or of digits, with a hyphen between
one and the next. Its words hold the letters and digits of the name, all of them in small letters and in
their order, and a name that is in kebab case stays as it is. -/
theorem kebab_of_words (name : String) :
    (∃ parts : List (List Char), (∀ part ∈ parts, IsWord part) ∧ (kebab name).toList = hyphenated parts) ∧
    (kebab name).toList.filter (· ≠ '-') = (name.toList.filter Char.isAlphanum).map Char.toLower ∧
    kebab (kebab name) = kebab name := by
  refine ⟨⟨smallWords name.toList, fun part => isWord_of_mem, toList_kebab name⟩, ?_, ?_⟩
  · rw [toList_kebab, filter_hyphenated fun part => hyphen_not_mem, flatten_smallWords]
  · rw [← String.toList_inj, toList_kebab (kebab name), toList_kebab name, smallWords_hyphenated fun part => isWord_of_mem]

section Boundaries

variable {stem rest : List Char}

theorem takeWhile_append_stops {kind : Char → Bool} (stops : Stops kind rest) : (stem ++ rest).takeWhile kind = stem.takeWhile kind := by
  rw [List.takeWhile_append, takeWhile_of_stops stops, List.append_nil]
  split
  · next all => exact ((List.takeWhile_prefix kind).eq_of_length all).symm
  · rfl

/-- A capital behind anything but a capital does not change the length of the words before it. -/
theorem wordLength_append_capital (ends : ∃ c ∈ stem, c.isUpper = false) (starts : ∀ c ∈ rest.head?, c.isUpper = true) :
    wordLength (stem ++ rest) = wordLength stem := by
  have small : Stops Char.isLower rest := fun c head => isLower_of_isUpper (starts c head)
  have digits : Stops Char.isDigit rest := fun c head => isDigit_of_isUpper (starts c head)
  have capitals : (stem ++ rest).takeWhile Char.isUpper = stem.takeWhile Char.isUpper := by
    rw [List.takeWhile_append, if_neg]
    intro all
    obtain ⟨c, member, other⟩ := ends
    rw [← (List.takeWhile_prefix Char.isUpper).eq_of_length all] at member
    exact Bool.false_ne_true (other.symm.trans (List.all_eq_true.mp List.all_takeWhile c member))
  rw [wordLength, wordLength, capitals, List.drop_append_of_le_length (List.takeWhile_prefix _).length_le,
    takeWhile_append_stops small, takeWhile_append_stops digits]

/-- A word ends before every capital that stands behind anything but a capital. -/
theorem words_append_capital (ends : ∀ c ∈ stem.getLast?, c.isUpper = false) (starts : ∀ c ∈ rest.head?, c.isUpper = true) :
    words (stem ++ rest) = words stem ++ words rest := by
  have other {first : Char} {more : List Char} (ends : ∀ c ∈ (first :: more).getLast?, c.isUpper = false) :
      ∃ c ∈ first :: more, c.isUpper = false :=
    ⟨_, List.getLast_mem (List.cons_ne_nil first more), ends _ (List.getLast?_eq_some_getLast _)⟩
  fun_induction words stem with
  | case1 => rfl
  | case2 first more none ih =>
    rw [← wordLength_append_capital (other ends) starts, List.cons_append] at none
    rw [List.cons_append, words, none]
    refine ih fun c last => ends c ?_
    rw [List.getLast?_cons, last]
    rfl
  | case3 first more length found ih =>
    have short := (wordLength_le (first :: more)).trans (List.takeWhile_prefix _).length_le
    rw [found] at short
    have short : length ≤ more.length := Nat.le_of_succ_le_succ short
    rw [← wordLength_append_capital (other ends) starts, List.cons_append] at found
    rw [List.cons_append, words, found]
    dsimp only
    rw [List.take_append_of_le_length short, List.drop_append_of_le_length short, ih, List.cons_append]
    intro c last
    rw [List.getLast?_drop] at last
    split at last
    · cases last
    · refine ends c ?_
      rw [List.getLast?_cons, last]
      rfl

/-- The run of capitals at the end of a text stands behind anything but a capital. -/
theorem ends_rdropWhile (text : List Char) : ∀ c ∈ (text.rdropWhile Char.isUpper).getLast?, c.isUpper = false := by
  intro c last
  have filled : text.rdropWhile Char.isUpper ≠ [] := List.getLast?_isSome.mp (Option.isSome_of_mem last)
  rw [List.getLast?_eq_some_getLast filled] at last
  cases last
  simpa using List.rdropWhile_last_not Char.isUpper text filled

theorem starts_append_capital {run : List Char} (all : ∀ c ∈ run, c.isUpper = true) (starts : ∀ c ∈ rest.head?, c.isUpper = true) :
    ∀ c ∈ (run ++ rest).head?, c.isUpper = true := by
  cases run with
  | nil => exact starts
  | cons first more =>
    rintro _ ⟨⟩
    exact all first List.mem_cons_self

end Boundaries

/-- Two characters stand side by side in a text, behind the letters and digits `lead`. -/
def Adjoins (text lead : List Char) (first second : Char) : Prop :=
  ∃ front back, text = front ++ first :: second :: back ∧ front.filter (· ≠ '-') = lead

section Adjoining

variable {part lead : List Char} {parts more : List (List Char)} {first second : Char}

/-- What stands behind a word does so in the words after it. -/
theorem adjoins_cons (plain : '-' ∉ part) (letter : first ≠ '-') :
    Adjoins (hyphenated (part :: parts)) (part ++ lead) first second ↔ Adjoins (hyphenated parts) lead first second := by
  rw [hyphenated_cons]
  constructor
  · rintro ⟨front, back, whole, kept⟩
    rcases List.append_eq_append_iff.mp whole with ⟨between, rfl, tail⟩ | ⟨between, rfl, tail⟩
    · rw [List.filter_append, filter_plain plain, List.append_cancel_left_eq] at kept
      split at tail
      · simp at tail
      · cases between with
        | nil => exact absurd (List.cons.inj tail).1.symm letter
        | cons hyphen between =>
          obtain ⟨rfl, tail⟩ := List.cons.inj tail
          exact ⟨between, back, (List.cons.inj tail).2, by simpa using kept⟩
    · -- the two would have to begin within the word, before all of `lead`
      have inside : '-' ∉ front := fun member => plain (List.mem_append_left _ member)
      rw [filter_plain inside, List.append_assoc] at kept
      obtain ⟨rfl, rfl⟩ : between = [] ∧ lead = [] := by simpa using kept
      split at tail
      · cases tail
      · exact absurd (List.cons.inj tail).1 letter
  · rintro ⟨front, back, whole, kept⟩
    have some : parts ≠ [] := by
      rintro rfl
      simp [hyphenated] at whole
    refine ⟨part ++ '-' :: front, back, by rw [if_neg some, whole]; simp, ?_⟩
    rw [List.filter_append, filter_plain plain, List.filter_cons_of_neg (by simp), kept]

theorem adjoins_append (plain : ∀ part ∈ parts, '-' ∉ part) (letter : first ≠ '-') :
    Adjoins (hyphenated (parts ++ more)) (parts.flatten ++ lead) first second ↔ Adjoins (hyphenated more) lead first second := by
  induction parts with
  | nil => rfl
  | cons part parts ih =>
    obtain ⟨here, later⟩ := List.forall_mem_cons.mp plain
    rw [List.cons_append, List.flatten_cons, List.append_assoc, adjoins_cons here letter, ih later]

/-- What begins in a word of two letters at the second of these goes on behind a hyphen. -/
theorem not_adjoins_pair {leading : Char} (plain : '-' ∉ [leading, first]) (letter : second ≠ '-') :
    ¬ Adjoins (hyphenated ([leading, first] :: parts)) [leading] first second := by
  rintro ⟨front, back, whole, kept⟩
  rw [hyphenated_cons] at whole
  have other : first ≠ '-' := fun same => plain (by simp [same])
  match front with
  | [] => cases kept
  | [_] =>
    have tail := (List.cons.inj (List.cons.inj whole).2).2
    split at tail
    · cases tail
    · exact letter (List.cons.inj tail).1.symm
  | _ :: next :: front =>
    obtain ⟨rfl, tail⟩ := List.cons.inj whole
    obtain ⟨rfl, -⟩ := List.cons.inj tail
    have apart : leading ≠ '-' := fun same => plain (by simp [same])
    simp [apart, other] at kept

end Adjoining

section Capitalized

variable {upper lower : Char} (capital : upper.isUpper = true) (small : lower.isLower = true) (after : List Char)
include capital small

/-- A capital opens the word of the small letters behind it. -/
theorem words_capitalized : ∃ front later, words (upper :: lower :: after) = (upper :: lower :: front) :: later := by
  have length : wordLength (upper :: lower :: after) = (after.takeWhile Char.isLower).length + 1 + 1 := by
    rw [wordLength, List.takeWhile_cons_of_pos capital, List.takeWhile_cons_of_neg (by simp [isUpper_of_isLower small])]
    simp [small, Nat.add_comm]
  rw [words, length]
  exact ⟨_, _, rfl⟩

/-- Of two capitals neither goes with the small letters behind them. -/
theorem words_two_capitals {leading : Char} (also : leading.isUpper = true) :
    words (leading :: upper :: lower :: after) = [leading, upper] :: words (lower :: after) := by
  have length : wordLength (leading :: upper :: lower :: after) = 2 := by
    rw [wordLength, List.takeWhile_cons_of_pos also, List.takeWhile_cons_of_pos capital,
      List.takeWhile_cons_of_neg (by simp [isUpper_of_isLower small])]
    rfl
  rw [words, length]
  rfl

/-- Of more capitals the last one opens the next word. -/
theorem words_capitals {run : List Char} (all : ∀ c ∈ run, c.isUpper = true) (several : 2 ≤ run.length) :
    words (run ++ upper :: lower :: after) = run :: words (upper :: lower :: after) := by
  have ends : Stops Char.isUpper (lower :: after) := by
    rintro _ ⟨⟩
    exact isUpper_of_isLower small
  have capitals : ∀ c ∈ run ++ [upper], c.isUpper = true := by
    simpa [or_imp, forall_and] using ⟨all, capital⟩
  have length : wordLength (run ++ upper :: lower :: after) = run.length := by
    obtain ⟨taken, -⟩ := takeWhile_append_of_stops capitals ends
    obtain ⟨first, second, more, rfl⟩ : ∃ first second more, run = first :: second :: more :=
      match run, several with | first :: second :: more, _ => ⟨first, second, more, rfl⟩
    rw [List.append_assoc, List.singleton_append] at taken
    rw [wordLength, taken]
    simp [small]
  obtain ⟨first, more, rfl⟩ := List.exists_cons_of_ne_nil (show run ≠ [] by rintro rfl; simp at several)
  rw [List.cons_append] at length ⊢
  rw [words, length]
  simp

/-- A word that a capital opens holds the small letter behind it too. -/
theorem adjoins_capitalized : Adjoins (hyphenated (smallWords (upper :: lower :: after))) [] upper.toLower lower := by
  obtain ⟨front, later, cut⟩ := words_capitalized capital small after
  have kept : lower.toLower = lower := Char.toLower_eq_of_not_isUpper (by simp [isUpper_of_isLower small])
  rw [smallWords, cut, List.map_cons, hyphenated_cons, List.map_cons, List.map_cons, kept]
  exact ⟨[], _, rfl, rfl⟩

/-- Whether a capital goes with the small letter behind it is decided by the run of capitals before it. -/
theorem adjoins_behind_run {run : List Char} (all : ∀ c ∈ run, c.isUpper = true) :
    Adjoins (hyphenated (smallWords (run ++ upper :: lower :: after))) (run.map Char.toLower) upper.toLower lower ↔
    run.length ≠ 1 := by
  have opens := adjoins_capitalized capital small after
  have plain {part : List Char} (all : ∀ c ∈ part, c.isUpper = true) : '-' ∉ part.map Char.toLower := by
    intro member
    obtain ⟨c, there, same⟩ := List.mem_map.mp member
    exact toLower_ne_hyphen (all c there) same
  match run with
  | [] => simpa using opens
  | [leading] =>
    have pair : ∀ c ∈ [leading, upper], c.isUpper = true := by simpa [capital] using all
    have letter : lower ≠ '-' := by
      rintro rfl
      cases small
    rw [List.singleton_append, smallWords, words_two_capitals capital small after (pair leading (by simp))]
    exact iff_of_false (not_adjoins_pair (plain pair) letter) (by simp)
  | first :: second :: more =>
    have behind := (adjoins_cons (plain all) (toLower_ne_hyphen capital)).mpr opens
    rw [List.append_nil] at behind
    rw [smallWords, words_capitals capital small after all (by simp), List.map_cons]
    exact iff_of_true behind (by simp)

end Capitalized

/-- A capital and the small letter behind it stay together in kebab case unless exactly one capital
stands right before them, which then parts the two. -/
theorem kebab_keeps_capitalized {upper lower : Char} (capital : upper.isUpper = true) (small : lower.isLower = true)
    (before after : List Char) :
    Adjoins (kebab (String.ofList (before ++ upper :: lower :: after))).toList
      ((before.filter Char.isAlphanum).map Char.toLower) upper.toLower lower ↔
    (before.rtakeWhile Char.isUpper).length ≠ 1 := by
  let stem := before.rdropWhile Char.isUpper
  let run := before.rtakeWhile Char.isUpper
  have whole : stem ++ run = before := List.rdropWhile_append_rtakeWhile
  have all : ∀ c ∈ run, c.isUpper = true := fun c => List.mem_rtakeWhile_imp
  have letters : run.filter Char.isAlphanum = run :=
    List.filter_eq_self.mpr fun c member => isAlphanum_upper c (all c member)
  have starts : ∀ c ∈ (run ++ upper :: lower :: after).head?, c.isUpper = true :=
    starts_append_capital all (by rintro _ ⟨⟩; exact capital)
  have cut : smallWords (before ++ upper :: lower :: after) =
      smallWords stem ++ smallWords (run ++ upper :: lower :: after) := by
    rw [smallWords, ← whole, List.append_assoc, words_append_capital (ends_rdropWhile before) starts, List.map_append]
    rfl
  have lead : (before.filter Char.isAlphanum).map Char.toLower = (smallWords stem).flatten ++ run.map Char.toLower := by
    rw [flatten_smallWords, ← whole, List.filter_append, List.map_append, letters]
  rw [toList_kebab, String.toList_ofList, cut, lead, adjoins_append (fun part => hyphen_not_mem) (toLower_ne_hyphen capital)]
  exact adjoins_behind_run capital small after all

theorem kebab_keeps_server :
    'S'.isUpper = true ∧ 'e'.isLower = true ∧
    Adjoins (kebab (String.ofList ("HTTP".toList ++ 'S' :: 'e' :: "rver".toList))).toList "http".toList 's' 'e' :=
  ⟨rfl, rfl, (kebab_keeps_capitalized rfl rfl "HTTP".toList "rver".toList).mpr (by decide)⟩

theorem kebab_parts_class :
    kebab "AClass" = "ac-lass" ∧ ¬ Adjoins (kebab "AClass").toList ['a'] 'c' 'l' := by
  have cut : kebab "AClass" = "ac-lass" := by cbv
  refine ⟨cut, ?_⟩
  rw [cut]
  show ¬ Adjoins (hyphenated [['a', 'c'], ['l', 'a', 's', 's']]) ['a'] 'c' 'l'
  exact not_adjoins_pair (by decide) (by decide)

end WorkflowCompiler.Text
