import WorkflowCompiler.Proofs.ReadingFiles

/-! The text that files are compared by. It does not depend on the order in which they are listed,
and it is the same on both sides exactly when nothing is reported. -/

namespace WorkflowCompiler.Publish

theorem intercalate_ne_empty {separator text : String} {texts : List String} (filled : text ≠ "") :
    separator.intercalate (text :: texts) ≠ "" := by
  have start : text.toList ≠ [] := by simpa using filled
  cases texts with
  | nil => simpa using filled
  | cons other texts =>
    intro empty
    have chars := congrArg String.toList empty
    rw [String.toList_intercalate] at chars
    simp [start, List.intercalate] at chars

theorem difference_eq_empty {received expected : String} :
    Diff.difference {} received expected = "" ↔ received = expected := by
  constructor
  · intro none
    by_contra differ
    rw [Diff.difference, if_neg (by simpa using differ)] at none
    simp only [Diff.report] at none
    have indented : ∀ line : String, "  " ++ line ≠ "" := by
      intro line
      simp
    split at none
    · next without => cases without
    · exact intercalate_ne_empty (indented _) none
    · exact intercalate_ne_empty (indented _) none
  · rintro rfl
    simp [Diff.difference]

section

variable {store : Store} {disk : Disk} {current : Place} {root : Path} {workflows : List Value}
  {entries : List (Value × WorkflowRecord)} {files others : List (String × Tree)}

theorem check_eq (rendered : records store workflows = .ok entries) (filed : List.Forall₂ Filed entries files) :
    check store current disk workflows root = (fun actual => Diff.difference {} (comparison (actual.map Listed.ofFile))
      (comparison (files.map Listed.ofFile))) <$> readFiles disk current root := by
  rw [check, rendered]
  show (expected store entries >>= fun expected => readFiles disk current root >>= fun actual =>
    pure (Diff.difference {} (comparison (actual.map Listed.ofFile)) (comparison expected))) = _
  rw [expected_filed filed]
  cases readFiles disk current root <;> rfl

/-- Nothing is reported exactly when the files can be read and compare as the workflows do. -/
theorem check_eq_empty (rendered : records store workflows = .ok entries) (filed : List.Forall₂ Filed entries files) :
    check store current disk workflows root = .ok "" ↔ ∃ actual, readFiles disk current root = .ok actual ∧
      comparison (actual.map Listed.ofFile) = comparison (files.map Listed.ofFile) := by
  rw [check_eq rendered filed]
  cases readFiles disk current root with
  | error failure => simp
  | ok actual => simp [difference_eq_empty]

theorem precedes_trans (first second third : Listed) (early : first.precedes second) (late : second.precedes third) :
    first.precedes third := by
  simp only [Listed.precedes, decide_eq_true_eq] at *
  exact String.le_trans early late

theorem precedes_total (first second : Listed) : first.precedes second || second.precedes first := by
  simp only [Listed.precedes, Bool.or_eq_true, decide_eq_true_eq]
  exact String.le_total _ _

/-- Under distinct keys there is one order in which files are compared. -/
theorem mergeSort_listed {listed more : List Listed} (perm : listed.Perm more) (distinct : (listed.map Listed.key).Nodup) :
    listed.mergeSort Listed.precedes = more.mergeSort Listed.precedes := by
  have same : (listed.mergeSort Listed.precedes).Perm (more.mergeSort Listed.precedes) :=
    (List.mergeSort_perm _ _).trans (perm.trans (List.mergeSort_perm _ _).symm)
  refine same.eq_of_pairwise ?_ (List.pairwise_mergeSort precedes_trans precedes_total _)
    (List.pairwise_mergeSort precedes_trans precedes_total _)
  intro first second left right before after
  exact List.inj_on_of_nodup_map distinct (List.mem_mergeSort.mp left) (perm.mem_iff.mpr (List.mem_mergeSort.mp right))
    (String.le_antisymm (of_decide_eq_true before) (of_decide_eq_true after))

theorem comparison_listed {listed more : List Listed} (perm : listed.Perm more) (distinct : (listed.map Listed.key).Nodup) :
    comparison listed = comparison more := by
  rw [comparison, comparison, mergeSort_listed perm distinct]

theorem keys_ofFile (files : List (String × Tree)) : (files.map Listed.ofFile).map Listed.key = files.map Prod.fst := by
  simp [Listed.ofFile, Function.comp_def]

theorem comparison_perm (perm : files.Perm others) (distinct : (files.map Prod.fst).Nodup) :
    comparison (files.map Listed.ofFile) = comparison (others.map Listed.ofFile) :=
  comparison_listed (perm.map Listed.ofFile) (by rwa [keys_ofFile])

theorem length_intercalate (separator text : String) (texts : List String) :
    (separator.intercalate (text :: texts)).length + separator.length =
      ((text :: texts).map fun text => text.length + separator.length).sum := by
  induction texts generalizing text with
  | nil => simp
  | cons other texts ih =>
    have longer := ih other
    rw [List.map_cons, List.sum_cons, ← longer]
    simp only [← String.length_toList, String.toList_intercalate, List.map_cons]
    rw [List.intercalate_cons_cons]
    simp only [List.length_append]
    omega

theorem length_comparison (filled : files ≠ []) : (comparison (files.map Listed.ofFile)).length + 2 =
    (files.map fun file => (Listed.ofFile file).text.length + 2).sum := by
  have perm := ((List.mergeSort_perm (files.map Listed.ofFile) Listed.precedes).map Listed.text).map
    fun text => text.length + 2
  rw [comparison]
  cases shape : ((files.map Listed.ofFile).mergeSort Listed.precedes).map Listed.text with
  | nil =>
    have none := congrArg List.length shape
    simp only [List.length_map, List.length_mergeSort] at none
    exact absurd (List.length_eq_zero_iff.mp none) filled
  | cons text texts =>
    have sum := length_intercalate "\n\n" text texts
    rw [shape] at perm
    rw [show "\n\n".length = 2 from rfl] at sum
    rw [sum, perm.sum_nat, List.map_map, List.map_map]
    rfl

/-- More files make the text longer. -/
theorem comparison_ne_of_more {more : List (String × Tree)} (filled : more ≠ []) (perm : others.Perm (files ++ more)) :
    comparison (others.map Listed.ofFile) ≠ comparison (files.map Listed.ofFile) := by
  have some : others ≠ [] := by
    rintro rfl
    exact filled (List.append_eq_nil_iff.mp perm.nil_eq.symm).2
  have long := length_comparison some
  have sum := (perm.map fun file => (Listed.ofFile file).text.length + 2).sum_nat
  rw [List.map_append, List.sum_append, ← long] at sum
  intro same
  rw [same] at sum
  obtain ⟨file, rest, rfl⟩ := List.exists_cons_of_ne_nil filled
  rw [List.map_cons, List.sum_cons] at sum
  cases files with
  | nil =>
    have text : 6 ≤ (Listed.ofFile file).text.length := by
      simp only [Listed.text, String.length_append]
      have start : "File: ".length = 6 := rfl
      omega
    have empty : (comparison (([] : List (String × Tree)).map Listed.ofFile)).length = 0 := by
      simp [comparison]
    rw [empty] at sum
    omega
  | cons first files =>
    rw [length_comparison (List.cons_ne_nil first files)] at sum
    omega

end

end WorkflowCompiler.Publish
