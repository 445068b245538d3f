import WorkflowCompiler.Proofs.PatchReports
import Mathlib.Data.List.SplitBy

/-! What a report leaves out. The counter of `shorten` is met twice by a count of its own: how many changes of a
kind stand in a row before a line, and how many stand there since the last one of the other kind. A text cut by
the first is cut run by run, and the report cuts by the second. -/

namespace WorkflowCompiler.Diff

def Side.other : Side → Side
  | .expected => .received
  | .received => .expected

/-- Whether the line is a change, or the mark of one that is cut. -/
def Entry.isChange : Entry → Bool
  | .changed _ _ => true
  | .cut _ => true
  | _ => false

/-- Whether the line is a change on this side. -/
def Entry.isOn (side : Side) : Entry → Bool
  | .changed other _ => other == side
  | _ => false

/-- Whether two lines that follow each other belong to one run of changes. -/
def Entry.continues : Entry → Entry → Bool
  | .changed side _, .changed other _ => side == other
  | _, _ => false

/-- The lines in runs: changes of one kind that follow each other directly, and every other line by itself. -/
def runs (changes : List Entry) : List (List Entry) := changes.splitBy Entry.continues

/-- What a run is cut to: all of it if it is shorter than the limit, or else what leaves a line for the mark. -/
def cutRun (limit : Int) : List Entry → List Entry
  | .changed side text :: rest =>
    if ((Entry.changed side text :: rest).length : Int) < limit then .changed side text :: rest
    else (Entry.changed side text :: rest).take (limit - 1).toNat ++ [.cut side]
  | other => other

/-- All lines, each run cut. -/
def cutRuns (limit : Int) (changes : List Entry) : List Entry := (runs changes).flatMap (cutRun limit)

/-- How many changes on this side there are at the end, with nothing between them. -/
def inARow (side : Side) (before : List Entry) : Nat := (before.reverse.takeWhile (Entry.isOn side)).length

/-- How many changes on this side there are after the last one on the other side, whatever stands between them. -/
def sinceOther (side : Side) (before : List Entry) : Nat :=
  (before.reverse.takeWhile (!·.isOn side.other)).countP (Entry.isOn side)

/-- What is shown of a change that is the `number`th one. -/
def placed (limit : Int) (side : Side) (text : String) (number : Nat) : List Entry :=
  if (number : Int) < limit then [.changed side text] else if (number : Int) = limit then [.cut side] else []

/-- What is shown of the lines after `before`, if changes are counted by `count`. -/
def shownBy (limit : Int) (count : Side → List Entry → Nat) (before : List Entry) : List Entry → List Entry
  | [] => []
  | .changed side text :: rest =>
    placed limit side text (count side before + 1) ++ shownBy limit count (before ++ [.changed side text]) rest
  | line :: rest => line :: shownBy limit count (before ++ [line]) rest

/-- The lines of a report on certain changes, if certain lines are shown of them. -/
def layout (options : Options) (changes shown : List Entry) : List String :=
  let removed := countOf .expected changes
  let added := countOf .received changes
  let lonePair := removed == 1 && added == 1 && shown.length == 2
  let texts := shown.map (Entry.text options lonePair)
  match options.legend, lonePair, texts with
  | false, _, _ => texts
  | true, true, [first, second] => ["- Expected   " ++ first, "+ Received   " ++ second]
  | true, _, _ => ("- Expected  - " ++ toString removed) :: ("+ Received  + " ++ toString added) :: "" :: texts

section

variable {limit : Int} {side other : Side} {text : String} {before changes rest : List Entry} {count : Side → List Entry → Nat}

@[simp] theorem isChange_changed (side : Side) (text : String) : (Entry.changed side text).isChange = true := rfl

@[simp] theorem isChange_cut (side : Side) : (Entry.cut side).isChange = true := rfl

@[simp] theorem isChange_context (text : String) : (Entry.context text).isChange = false := rfl

@[simp] theorem isChange_gap : Entry.gap.isChange = false := rfl

theorem other_ne (side : Side) : side.other ≠ side := by cases side <;> decide

@[simp] theorem other_other (side : Side) : side.other.other = side := by cases side <;> rfl

theorem eq_or_other (side other : Side) : other = side ∨ other = side.other := by
  cases side <;> cases other <;> decide

theorem isOn_other (change : Entry) (on : change.isOn side = true) : change.isOn side.other = false := by
  cases change with
  | changed kind text =>
    obtain rfl : kind = side := by simpa [Entry.isOn] using on
    simp [Entry.isOn, Ne.symm (other_ne kind)]
  | context text => rfl
  | cut kind => rfl
  | gap => rfl

theorem inARow_concat (side : Side) (before : List Entry) (line : Entry) :
    inARow side (before ++ [line]) = if line.isOn side then inARow side before + 1 else 0 := by
  rw [inARow, inARow, List.reverse_append, List.reverse_singleton, List.singleton_append, List.takeWhile_cons]
  split <;> rfl

theorem sinceOther_on (side : Side) (before : List Entry) (text : String) :
    sinceOther side (before ++ [.changed side text]) = sinceOther side before + 1 := by
  have here : Entry.isOn side.other (.changed side text) = false := by simp [Entry.isOn, Ne.symm (other_ne side)]
  rw [sinceOther, sinceOther, List.reverse_append, List.reverse_singleton, List.singleton_append, List.takeWhile_cons, here]
  simp [Entry.isOn]

theorem sinceOther_stop (side : Side) (before : List Entry) (text : String) :
    sinceOther side (before ++ [.changed side.other text]) = 0 := by
  rw [sinceOther, List.reverse_append, List.reverse_singleton, List.singleton_append, List.takeWhile_cons]
  simp [Entry.isOn]

/-- Lines that are no changes do not end the count. -/
theorem sinceOther_between (side : Side) (before : List Entry) {line : Entry} (between : ∀ side, line.isOn side = false) :
    sinceOther side (before ++ [line]) = sinceOther side before := by
  rw [sinceOther, sinceOther, List.reverse_append, List.reverse_singleton, List.singleton_append, List.takeWhile_cons]
  simp [between]

theorem inARow_le_sinceOther (side : Side) (before : List Entry) : inARow side before ≤ sinceOther side before := by
  induction before using List.reverseRecOn with
  | nil => exact le_rfl
  | append_singleton before line ih =>
    rw [inARow_concat]
    split
    next on =>
      cases line with
      | changed kind text =>
        obtain rfl : kind = side := by simpa [Entry.isOn] using on
        rw [sinceOther_on]
        exact Nat.succ_le_succ ih
      | context text => cases on
      | cut kind => cases on
      | gap => cases on
    · exact Nat.zero_le _

/-- Where one kind has been counted, the other has not. -/
theorem sinceOther_other (counted : 0 < sinceOther side before) : sinceOther side.other before = 0 := by
  induction before using List.reverseRecOn with
  | nil => rfl
  | append_singleton before line ih =>
    have between : (∀ kind, line.isOn kind = false) → sinceOther side.other (before ++ [line]) = 0 := by
      intro none
      rw [sinceOther_between _ _ none] at counted ⊢
      exact ih counted
    cases line with
    | changed kind text =>
      rcases eq_or_other side kind with rfl | rfl
      · have stop := sinceOther_stop kind.other before text
        rwa [other_other] at stop
      · rw [sinceOther_stop] at counted
        cases counted
    | context text => exact between fun _ => rfl
    | cut kind => exact between fun _ => rfl
    | gap => exact between fun _ => rfl

theorem shownBy_append (first second : List Entry) :
    shownBy limit count before (first ++ second) = shownBy limit count before first ++ shownBy limit count (before ++ first) second := by
  induction first generalizing before with
  | nil => simp [shownBy]
  | cons line first ih =>
    cases line <;> simp [shownBy, ih]

/-- The report counts changes over what stands between them. -/
theorem shorten_eq (run : Option Side × Int)
    (counted : ∀ side, (if run.1 = some side then run.2 else 0) = (sinceOther side before : Int)) :
    shorten limit run changes = shownBy limit sinceOther before changes := by
  induction changes generalizing before run with
  | nil => rfl
  | cons line rest ih =>
    have between : (∀ side, line.isOn side = false) → shorten limit run rest = shownBy limit sinceOther (before ++ [line]) rest := by
      intro none
      apply ih
      intro side
      rw [sinceOther_between side before none]
      exact counted side
    cases line with
    | changed side text =>
      have length : (if run.1 = some side then run.2 + 1 else 1) = ((sinceOther side before + 1 : Nat) : Int) := by
        have here := counted side
        split at here <;> push_cast <;> simp_all
      have later : shorten limit (some side, ((sinceOther side before + 1 : Nat) : Int)) rest =
          shownBy limit sinceOther (before ++ [.changed side text]) rest := by
        apply ih
        intro kind
        rcases eq_or_other side kind with rfl | rfl
        · rw [if_pos rfl, sinceOther_on]
        · have stop := sinceOther_stop side.other before text
          rw [other_other] at stop
          rw [stop, if_neg (by simpa using Ne.symm (other_ne side))]
          rfl
      rw [shorten, length, later, shownBy, placed]
      rcases lt_trichotomy ((sinceOther side before + 1 : Nat) : Int) limit with below | same | above
      · rw [if_neg below.ne, if_neg below.not_gt, if_pos below]
        rfl
      · rw [if_pos same, if_neg same.not_lt, if_pos same]
        rfl
      · rw [if_neg above.ne', if_pos above, if_neg above.not_gt, if_neg above.ne']
        rfl
    | context text => rw [shorten, between (fun _ => rfl), shownBy] <;> simp
    | cut side => rw [shorten, between (fun _ => rfl), shownBy] <;> simp
    | gap => rw [shorten, between (fun _ => rfl), shownBy] <;> simp

theorem inARow_on {run : List Entry} (same : ∀ line ∈ run, line.isOn side = true) : inARow side (before ++ run) = inARow side before + run.length := by
  induction run using List.reverseRecOn with
  | nil => simp
  | append_singleton run line ih =>
    have last : line.isOn side = true := same line (by simp)
    rw [← List.append_assoc, inARow_concat, last, ih fun line member => same line (List.mem_append_left _ member), List.length_append]
    rfl

theorem inARow_other (before : List Entry) {run : List Entry} (same : ∀ line ∈ run, line.isOn side = true) (some : run ≠ []) :
    inARow side.other (before ++ run) = 0 := by
  obtain ⟨front, last, rfl⟩ := List.eq_nil_or_concat run |>.resolve_left some
  rw [List.concat_eq_append] at same ⊢
  rw [← List.append_assoc, inARow_concat, isOn_other last (same last (by simp))]
  rfl

/-- What is shown of one run. -/
theorem shownBy_run (limited : 1 ≤ limit) {run : List Entry} (same : ∀ line ∈ run, line.isOn side = true) (fresh : inARow side before = 0) :
    shownBy limit inARow before run = if (run.length : Int) < limit then run else run.take (limit - 1).toNat ++ [.cut side] := by
  induction run using List.reverseRecOn with
  | nil => simp [shownBy, show (0 : Int) < limit by omega]
  | append_singleton run line ih =>
    have earlier : ∀ line ∈ run, line.isOn side = true := fun line member => same line (List.mem_append_left _ member)
    have last : line.isOn side = true := same line (by simp)
    cases line with
    | changed kind text =>
      obtain rfl : kind = side := by simpa [Entry.isOn] using last
      rw [shownBy_append, ih earlier, shownBy, shownBy, List.append_nil, inARow_on earlier, fresh, Nat.zero_add, placed, List.length_append,
        List.length_singleton]
      rcases lt_trichotomy ((run.length + 1 : Nat) : Int) limit with below | exact | above
      · rw [if_pos below, if_pos below, if_pos (by omega)]
      · have whole : (limit - 1).toNat = run.length := by omega
        rw [if_neg exact.not_lt, if_pos exact, if_neg exact.not_lt, if_pos (by omega), whole, List.take_left]
      · rw [if_neg above.not_gt, if_neg above.ne', if_neg above.not_gt, if_neg (by omega), List.append_nil,
          List.take_append_of_le_length (by omega)]
    | context text => cases last
    | cut kind => cases last
    | gap => cases last

/-- A line that is no change is a run by itself. -/
theorem runs_between {line : Entry} (between : ∀ side, line.isOn side = false) (rest : List Entry) : runs (line :: rest) = [line] :: runs rest := by
  have apart : ∀ next, line.continues next = false := by
    intro next
    cases line with
    | changed side text => simp [Entry.isOn] at between
    | context text => rfl
    | cut side => rfl
    | gap => rfl
  have whole : line :: rest = [line] ++ rest := rfl
  rw [runs, whole, List.splitBy_append (by simp [apart]), List.splitBy_of_isChain (by simp) (by simp)]
  rfl

theorem runs_run {run : List Entry} (some : run ≠ []) (same : ∀ line ∈ run, line.isOn side = true)
    (ends : ∀ line ∈ rest.head?, line.isOn side = false) : runs (run ++ rest) = run :: runs rest := by
  have continues : ∀ line next : Entry, line.isOn side = true → line.continues next = next.isOn side := by
    intro line next on
    cases line with
    | changed kind text =>
      obtain rfl : kind = side := by simpa [Entry.isOn] using on
      cases next <;> simp [Entry.continues, Entry.isOn, eq_comm]
    | context text => cases on
    | cut kind => cases on
    | gap => cases on
  have chain : run.IsChain fun line next => line.continues next := by
    rw [List.isChain_iff_getElem]
    intro index inside
    rw [continues _ _ (same _ (List.getElem_mem _))]
    exact same _ (List.getElem_mem _)
  rw [runs, List.splitBy_append, List.splitBy_of_isChain some chain]
  · rfl
  · intro line last next head
    rw [continues line next (same line (List.mem_of_getLast? last))]
    exact ends next head

theorem exists_run (side : Side) (rest : List Entry) : ∃ run tail, rest = run ++ tail ∧ (∀ line ∈ run, line.isOn side = true) ∧
    ∀ line ∈ tail.head?, line.isOn side = false := by
  refine ⟨rest.takeWhile (Entry.isOn side), rest.dropWhile (Entry.isOn side), List.takeWhile_append_dropWhile.symm,
    fun line member => List.mem_takeWhile_imp member, fun line head => ?_⟩
  have ends := List.head?_dropWhile_not (Entry.isOn side) rest
  rw [Option.mem_def.mp head] at ends
  exact ends

/-- Where no run is under way, the runs that follow are cut one by one. -/
theorem cutRuns_eq (limited : 1 ≤ limit) (fresh : ∀ side, ∀ line ∈ changes.head?, line.isOn side = true → inARow side before = 0) :
    cutRuns limit changes = shownBy limit inARow before changes := by
  induction hsize : changes.length using Nat.strongRecOn generalizing changes before with
  | ind size ih =>
  cases changes with
  | nil => rfl
  | cons line rest =>
    have between : (∀ side, line.isOn side = false) → cutRun limit [line] = [line] → shownBy limit inARow before (line :: rest) = line :: shownBy limit inARow (before ++ [line]) rest →
        cutRuns limit (line :: rest) = shownBy limit inARow before (line :: rest) := by
      intro none alone shown
      rw [cutRuns, runs_between none, List.flatMap_cons, alone, shown, ← cutRuns, ih rest.length (by simp [← hsize]) _ rfl]
      · rfl
      · intro side next head on
        rw [inARow_concat, none]
        rfl
    cases line with
    | changed side text =>
      have start : Entry.isOn side (.changed side text) = true := by simp [Entry.isOn]
      obtain ⟨run, tail, rfl, same, ends⟩ := exists_run side rest
      have all : ∀ line ∈ Entry.changed side text :: run, line.isOn side = true := List.forall_mem_cons.mpr ⟨start, same⟩
      have cut : cutRun limit (.changed side text :: run) = shownBy limit inARow before (.changed side text :: run) :=
        (shownBy_run limited all (fresh side _ rfl start)).symm
      have later : cutRuns limit tail = shownBy limit inARow (before ++ .changed side text :: run) tail := by
        refine ih tail.length ?_ ?_ rfl
        · simp only [← hsize, List.length_cons, List.length_append]
          omega
        · intro kind next head on
          rcases eq_or_other side kind with rfl | rfl
          · rw [ends next head] at on
            cases on
          · apply inARow_other _ all
            simp
      rw [← List.cons_append, cutRuns, runs_run (by simp) all ends, List.flatMap_cons, cut, ← cutRuns, later, ← shownBy_append]
    | context text => exact between (fun _ => rfl) rfl rfl
    | cut side => exact between (fun _ => rfl) rfl rfl
    | gap => exact between (fun _ => rfl) rfl rfl

/-- The lines after `before` hold no change that is the last but the limit of its kind, or a later one, with
anything between it and those. -/
def Together (limit : Int) (before changes : List Entry) : Prop :=
  ∀ front side text back, changes = front ++ .changed side text :: back → limit ≤ sinceOther side (before ++ front) + 1 →
    inARow side (before ++ front) = sinceOther side (before ++ front)

theorem Together.head {line : Entry} (together : Together limit before (line :: rest)) {side : Side} {text : String} (same : line = .changed side text)
    (late : limit ≤ sinceOther side before + 1) : inARow side before = sinceOther side before := by
  subst same
  simpa using together [] side text rest rfl (by simpa using late)

theorem Together.tail {line : Entry} (together : Together limit before (line :: rest)) : Together limit (before ++ [line]) rest := by
  intro front side text back whole late
  rw [← List.append_cons] at late ⊢
  exact together (line :: front) side text back (by rw [whole]; rfl) late

theorem together_cons {line : Entry} (head : ∀ side text, line = .changed side text → limit ≤ sinceOther side before + 1 →
    inARow side before = sinceOther side before) (tail : Together limit (before ++ [line]) rest) : Together limit before (line :: rest) := by
  intro front side text back whole late
  cases front with
  | nil =>
    rw [List.append_nil] at late ⊢
    exact head side text (List.cons.inj whole).1 late
  | cons first front =>
    obtain ⟨rfl, rests⟩ := List.cons.inj whole
    rw [List.append_cons] at late ⊢
    exact tail front side text back rests late

theorem placed_agree {number count : Nat} (few : number ≤ count) (agree : limit ≤ count + 1 → number = count) :
    placed limit side text (number + 1) = placed limit side text (count + 1) := by
  by_cases late : limit ≤ count + 1
  · rw [agree late]
  · rw [placed, placed, if_pos (by omega), if_pos (by omega)]

theorem shownBy_of_together (together : Together limit before changes) :
    shownBy limit sinceOther before changes = shownBy limit inARow before changes := by
  induction changes generalizing before with
  | nil => rfl
  | cons line rest ih =>
    have tail := ih together.tail
    cases line with
    | changed side text =>
      rw [shownBy, shownBy, tail, placed_agree (inARow_le_sinceOther side before) (together.head rfl)]
    | context text => simp only [shownBy, tail]
    | cut side => simp only [shownBy, tail]
    | gap => simp only [shownBy, tail]

/-- Once the limit is reached, the next change to be seen is one on the other side. -/
theorem head_shownBy (limited : 1 ≤ limit) (uncut : ∀ side, .cut side ∉ changes) (reached : limit ≤ sinceOther side before) {line : Entry}
    {shown : List Entry} (starts : shownBy limit sinceOther before changes = line :: shown) :
    line ≠ .cut side ∧ ∀ text, line ≠ .changed side text := by
  induction changes generalizing before with
  | nil => cases starts
  | cons first rest ih =>
    have later : ∀ side, .cut side ∉ rest := fun side member => uncut side (List.mem_cons_of_mem _ member)
    cases first with
    | changed kind text =>
      rw [shownBy, placed] at starts
      rcases eq_or_other side kind with rfl | rfl
      · rw [if_neg (by omega), if_neg (by omega), List.nil_append] at starts
        refine ih later ?_ starts
        rw [sinceOther_on]
        omega
      · have none : sinceOther side.other before = 0 := sinceOther_other (by omega)
        have differ := other_ne side
        rw [none] at starts
        split at starts
        · obtain ⟨rfl, -⟩ := List.cons.inj starts
          simp [differ]
        · rw [if_pos (by omega)] at starts
          obtain ⟨rfl, -⟩ := List.cons.inj starts
          simp [differ]
    | context text =>
      obtain ⟨rfl, -⟩ := List.cons.inj starts
      simp
    | cut kind => exact absurd List.mem_cons_self (uncut kind)
    | gap =>
      obtain ⟨rfl, -⟩ := List.cons.inj starts
      simp

/-- Where the same is shown, no change is counted in two ways that matter. -/
theorem together_of_shownBy (limited : 1 ≤ limit) (uncut : ∀ side, .cut side ∉ changes)
    (agreed : ∀ side, 0 < inARow side before → limit ≤ sinceOther side before → inARow side before = sinceOther side before)
    (same : shownBy limit sinceOther before changes = shownBy limit inARow before changes) : Together limit before changes := by
  induction changes generalizing before with
  | nil =>
    intro front side text back whole
    simp at whole
  | cons line rest ih =>
    have later : ∀ side, .cut side ∉ rest := fun side member => uncut side (List.mem_cons_of_mem _ member)
    have between : (∀ side, line.isOn side = false) → shownBy limit sinceOther (before ++ [line]) rest = shownBy limit inARow (before ++ [line]) rest →
        Together limit before (line :: rest) := by
      intro none same
      refine together_cons ?_ (ih later ?_ same)
      · rintro side text rfl
        simp [Entry.isOn] at none
      · intro side counted
        rw [inARow_concat, none] at counted
        cases counted
    cases line with
    | changed side text =>
      have few := inARow_le_sinceOther side before
      have head : limit ≤ sinceOther side before + 1 → inARow side before = sinceOther side before := by
        intro late
        by_contra differ
        -- The first change that is counted in two ways is shown by the one count and not by the other.
        have early : (inARow side before : Int) < limit := by
          by_contra long
          exact differ (agreed side (by omega) (by omega))
        rw [shownBy, shownBy, placed, placed, if_neg (by omega)] at same
        by_cases last : ((sinceOther side before + 1 : Nat) : Int) = limit
        · rw [if_pos last, if_pos (by omega)] at same
          simp at same
        · have reached : limit ≤ sinceOther side (before ++ [.changed side text]) := by
            rw [sinceOther_on]
            omega
          rw [if_neg last, List.nil_append] at same
          split at same
          · exact (head_shownBy limited later reached same).2 text rfl
          · rw [if_pos (by omega)] at same
            exact (head_shownBy limited later reached same).1 rfl
      refine together_cons ?_ (ih later ?_ ?_)
      · intro kind other again
        cases again
        exact head
      · intro kind counted late
        rcases eq_or_other side kind with rfl | rfl
        · rw [sinceOther_on] at late
          rw [inARow_concat, if_pos (by simp [Entry.isOn]), sinceOther_on, head (by exact_mod_cast late)]
        · rw [inARow_other before (by simp [Entry.isOn]) (by simp)] at counted
          cases counted
      · rw [shownBy, shownBy, placed_agree few head] at same
        exact List.append_cancel_left same
    | context text => exact between (fun _ => rfl) (List.cons.inj same).2
    | cut kind => exact absurd List.mem_cons_self (uncut kind)
    | gap => exact between (fun _ => rfl) (List.cons.inj same).2

/-- Nothing but changes is left out. -/
theorem filter_shorten_others (limit : Int) (run : Option Side × Int) (changes : List Entry) :
    (shorten limit run changes).filter (!·.isChange) = changes.filter (!·.isChange) := by
  induction changes generalizing run with
  | nil => rfl
  | cons line rest ih =>
    cases line with
    | changed side text =>
      rw [shorten]
      generalize (if run.1 = some side then run.2 + 1 else 1) = length
      split
      · simp [ih]
      · split <;> simp [ih]
    | context text => simp [shorten, ih]
    | cut side => simp [shorten, ih]
    | gap => simp [shorten, ih]

/-- What stands between changes does not count. -/
theorem filter_shorten_changes (limit : Int) (run : Option Side × Int) (changes : List Entry) :
    (shorten limit run changes).filter Entry.isChange = shorten limit run (changes.filter Entry.isChange) := by
  induction changes generalizing run with
  | nil => rfl
  | cons line rest ih =>
    cases line with
    | changed side text =>
      rw [List.filter_cons_of_pos (isChange_changed side text), shorten, shorten]
      generalize (if run.1 = some side then run.2 + 1 else 1) = length
      split
      · rw [List.filter_cons_of_pos (isChange_cut side), ih]
      · split
        · exact ih _
        · rw [List.filter_cons_of_pos (isChange_changed side text), ih]
    | context text => simp [shorten, ih]
    | cut side =>
      rw [List.filter_cons_of_pos (isChange_cut side), shorten, shorten, List.filter_cons_of_pos (isChange_cut side), ih]
      · simp
      · simp
    | gap => simp [shorten, ih]

/-- Among changes alone, nothing stands between those of one kind. -/
theorem inARow_eq_sinceOther (alone : ∀ line ∈ before, ∃ side text, line = .changed side text) (side : Side) :
    inARow side before = sinceOther side before := by
  induction before using List.reverseRecOn with
  | nil => rfl
  | append_singleton before line ih =>
    obtain ⟨kind, text, rfl⟩ := alone line (by simp)
    have earlier := ih fun line member => alone line (List.mem_append_left _ member)
    rcases eq_or_other side kind with rfl | rfl
    · rw [inARow_concat, sinceOther_on, earlier]
      simp [Entry.isOn]
    · rw [inARow_concat, sinceOther_stop]
      simp [Entry.isOn, other_ne]

theorem shorten_cutRuns_iff (limited : 1 ≤ limit) (uncut : ∀ side, .cut side ∉ changes) :
    shorten limit (none, 0) changes = cutRuns limit changes ↔ Together limit [] changes := by
  have counted : shorten limit (none, 0) changes = shownBy limit sinceOther [] changes := shorten_eq (none, 0) fun side => rfl
  have cut : cutRuns limit changes = shownBy limit inARow [] changes := cutRuns_eq limited fun side line head on => rfl
  rw [counted, cut]
  exact ⟨together_of_shownBy limited uncut fun side counted late => rfl, shownBy_of_together⟩

/-- The changes that are shown, and the marks, are those of the changes alone with each run cut. -/
theorem filter_shorten_cutRuns (limited : 1 ≤ limit) (uncut : ∀ side, .cut side ∉ changes) :
    (shorten limit (none, 0) changes).filter Entry.isChange = cutRuns limit (changes.filter Entry.isChange) := by
  have alone : ∀ line ∈ changes.filter Entry.isChange, ∃ side text, line = .changed side text := by
    intro line member
    obtain ⟨there, change⟩ := List.mem_filter.mp member
    cases line with
    | changed side text => exact ⟨side, text, rfl⟩
    | context text => cases change
    | cut side => exact absurd there (uncut side)
    | gap => cases change
  have uncut : ∀ side, .cut side ∉ changes.filter Entry.isChange := fun side member => uncut side (List.mem_of_mem_filter member)
  rw [filter_shorten_changes, shorten_cutRuns_iff limited uncut]
  intro front side text back whole _
  apply inARow_eq_sinceOther
  intro line member
  exact alone line (by rw [whole]; exact List.mem_append_left _ member)

end

/-- A report on texts that differ. -/
theorem difference_layout {options : Options} {received expected : String} (differ : received ≠ expected) :
    let changes := entries (hunks (edits (Text.lines expected) (Text.lines received)))
    difference options received expected =
      "\n".intercalate ((layout options changes (shorten options.runLimit (none, 0) changes)).map ("  " ++ ·)) := by
  rw [difference, if_neg (by simpa using differ)]
  rfl

theorem uncut_entries (found : List (List Line)) (side : Side) : .cut side ∉ entries found := by
  intro member
  rcases mem_entries member with gap | ⟨lines, -, line, -, same⟩
  · cases gap
  · cases line <;> cases same

/-- What a report on texts that differ shows. Nothing but changes is left out. The changes are cut as the runs that
they would be without all other lines: where context or a gap parts changes of one kind, they still count as one
run. So the runs are cut one by one exactly if those that come to the limit together are not parted. -/
theorem difference_cuts_runs (options : Options) (limited : 1 ≤ options.runLimit) {received expected : String}
    (differ : received ≠ expected) :
    let changes := entries (hunks (edits (Text.lines expected) (Text.lines received)))
    let shown := shorten options.runLimit (none, 0) changes
    difference options received expected = "\n".intercalate ((layout options changes shown).map ("  " ++ ·)) ∧
      shown.filter (!·.isChange) = changes.filter (!·.isChange) ∧
      shown.filter Entry.isChange = cutRuns options.runLimit (changes.filter Entry.isChange) ∧
      (shown = cutRuns options.runLimit changes ↔ Together options.runLimit [] changes) := by
  intro changes shown
  have uncut : ∀ side, .cut side ∉ changes := uncut_entries _
  refine ⟨difference_layout differ, ?_, ?_, ?_⟩
  · exact filter_shorten_others options.runLimit (none, 0) changes
  · exact filter_shorten_cutRuns limited uncut
  · exact shorten_cutRuns_iff limited uncut

/-- Two changes, a line that both texts have, and two more changes. -/
theorem difference_cuts_runs_parted : (1 : Int) ≤ 3 ∧ "k" ≠ "a\nb\nk\nc\nd" ∧
    ¬ Together 3 [] (entries (hunks (edits (Text.lines "a\nb\nk\nc\nd") (Text.lines "k")))) := by
  have limited : (1 : Int) ≤ 3 := by decide
  have differ : "k" ≠ "a\nb\nk\nc\nd" := by decide
  obtain ⟨-, -, -, whole⟩ := difference_cuts_runs { runLimit := 3 } limited differ
  refine ⟨limited, differ, fun together => ?_⟩
  exact absurd (whole.mpr together) (by decide +kernel)

/-- Of two runs below the limit, the second is cut and its last line is hidden. -/
theorem parted_run_hidden :
    let changes := entries (hunks (edits (Text.lines "a\nb\nk\nc\nd") (Text.lines "k")))
    cutRuns 3 changes = changes ∧
      difference { runLimit := 3 } "k" "a\nb\nk\nc\nd" = "  - Expected  - 4\n  + Received  + 0\n  \n  - a\n  - b\n    k\n  - ..." ∧
      difference { runLimit := 3 } "k" "a\nb\nk\nc\nd" ≠
        "\n".intercalate ((layout { runLimit := 3 } changes (cutRuns 3 changes)).map ("  " ++ ·)) := by
  refine ⟨?_, ?_, ?_⟩
  · decide +kernel
  · decide +kernel
  · decide +kernel

end WorkflowCompiler.Diff
