import Mathlib.Data.Finset.Card
import Mathlib.Data.List.Nodup
import WorkflowCompiler.Proofs.RenderedFiles

/-! The structural faults of a job. They are told before anything of it is rendered, so that a job
without any renders to a record in which the same rules hold. -/

namespace WorkflowCompiler

/-- The name as a message shows it. -/
def Label.word : Label → String
  | .text value => value
  | .choice value => value.label

namespace Store

/-- The ids of the steps that have one. -/
def stepLabels (store : Store) (job : Job) : List Label := (store.stepIds job).filterMap Value.label?

/-- The ids that stand in `before` or further to the front, in order. -/
def repeatsAfter (before ids : List Label) : List Label :=
  (ids.zipIdx.filter fun (id, place) => ((before ++ ids.take place).map Label.chars).contains id.chars).map Prod.fst

/-- What is wrong with a job: its work, its runner, and ids that several steps have. -/
def causes (store : Store) (label : String) (job : Job) : List Cause :=
  (if job.steps.isEmpty = (job.fields .uses).isNull then
    [if job.steps.isEmpty then .neitherStepsNorUses label else .stepsAndUses label] else []) ++
  (if ¬job.steps.isEmpty ∧ (job.fields .runsOn).isEmpty then [.noRunner label] else []) ++
  (repeatsAfter [] (store.stepLabels job)).map fun id => .repeatedStep label id.word

/-- A job has steps or calls a workflow, but not both; its steps have a runner and ids of their own. -/
structure Settled (store : Store) (job : Job) : Prop where
  work : job.steps = [] ↔ job.fields .uses ≠ .null
  runner : job.steps ≠ [] → job.fields .runsOn ∉ [.null, .text "", .list [], .tuple []]
  distinct : ((store.stepLabels job).map Label.chars).Nodup

section

variable {store : Store} {job : Job} {jobId value : Value}

@[simp] theorem wording_ofLabel (label : Label) : store.wording (.ofLabel label) = .ok label.word := by
  cases label <;> rfl

@[simp] theorem chars?_ofLabel (label : Label) : (Value.ofLabel label).chars? = some label.chars := by
  cases label <;> rfl

@[simp] theorem label?_ofLabel (label : Label) : (Value.ofLabel label).label? = some label := by
  cases label <;> rfl

@[simp] theorem isKey_ofLabel (label : Label) : (Value.ofLabel label).isKey = true := by
  cases label <;> rfl

@[simp] theorem equals_ofLabel (left right : Label) :
    Value.equals (.ofLabel left) (.ofLabel right) = (left.chars == right.chars) := by
  cases left <;> cases right <;>
    simp [Value.ofLabel, Value.equals, Value.sameSize, Value.sameChars, Value.size?, Value.chars?, Value.label?, Label.chars]

theorem eq_ofLabel {label : Label} (known : value.label? = some label) : value = .ofLabel label := by
  cases value <;> cases known <;> rfl

theorem eq_null (unset : value.isNull = true) : value = .null := by
  cases value <;> first | rfl | cases unset

/-- A job is called by its id, or by its name if that is a text. -/
theorem label_eq_ofLabel (named : jobId.isNull = true ∨ jobId.label?.isSome) : ∃ label, job.label jobId = .ofLabel label := by
  unfold Job.label
  by_cases unset : jobId.isNull = true
  · rw [if_neg (by simp [unset])]
    split
    · exact ⟨.text _, rfl⟩
    · exact ⟨.choice _, rfl⟩
    · exact ⟨.text _, rfl⟩
  · obtain ⟨label, known⟩ := Option.isSome_iff_exists.mp (named.resolve_left unset)
    exact ⟨label, by rw [if_pos (by simp [unset]), eq_ofLabel known]⟩

theorem map_filterMap_label? {ids : List Value} (labelled : ∀ id ∈ ids, ∃ label, id = .ofLabel label) :
    (ids.filterMap Value.label?).map Value.ofLabel = ids := by
  induction ids with
  | nil => rfl
  | cons id ids ih =>
    obtain ⟨label, rfl⟩ := labelled id List.mem_cons_self
    have known : (Value.ofLabel label).label? = some label := by cases label <;> rfl
    rw [List.filterMap_cons_some known, List.map_cons, ih fun id member => labelled id (List.mem_cons_of_mem _ member)]

theorem stepIds_eq (ids : ∀ step ∈ store.jobSteps job, step.id.isNull = true ∨ step.id.label?.isSome) :
    (store.stepLabels job).map Value.ofLabel = store.stepIds job := by
  apply map_filterMap_label?
  intro id member
  obtain ⟨inside, set⟩ := List.mem_filter.mp member
  obtain ⟨step, there, rfl⟩ := List.mem_map.mp inside
  obtain ⟨label, known⟩ := Option.isSome_iff_exists.mp ((ids step there).resolve_left (by simpa using set))
  exact ⟨label, eq_ofLabel known⟩

theorem repeatsAfter_cons (before ids : List Label) (id : Label) :
    repeatsAfter before (id :: ids) =
      (if id.chars ∈ before.map Label.chars then [id] else []) ++ repeatsAfter (before ++ [id]) ids := by
  have later : (ids.zipIdx 1).filter (fun (other, place) =>
        ((before ++ (id :: ids).take place).map Label.chars).contains other.chars) =
      (ids.zipIdx.filter fun (other, place) =>
        ((before ++ [id] ++ ids.take place).map Label.chars).contains other.chars).map
          fun (other, place) => (other, place + 1) := by
    rw [List.zipIdx_succ, List.filter_map]
    congr 1
    apply List.filter_congr
    intro (other, place) _
    simp
  have first : (((before ++ (id :: ids).take 0).map Label.chars).contains id.chars) = true ↔
      id.chars ∈ before.map Label.chars := by
    simp
  rw [repeatsAfter, List.zipIdx_cons, List.filter_cons, Nat.zero_add, later, repeatsAfter]
  by_cases found : id.chars ∈ before.map Label.chars
  · rw [if_pos (first.mpr found), if_pos found, List.map_cons, List.map_map]
    rfl
  · rw [if_neg (mt first.mp found), if_neg found, List.map_map]
    rfl

theorem repetitions_labels (label : String) (before ids : List Label) :
    jobFaults.repetitions store label (before.reverse.map Value.ofLabel) (ids.map Value.ofLabel) =
      .ok ((repeatsAfter before ids).map fun id => .repeatedStep label id.word) := by
  induction ids generalizing before with
  | nil => rfl
  | cons id ids ih =>
    have seen : (before.reverse.map Value.ofLabel).any (fun other => Value.equals (.ofLabel id) other) =
        decide (id.chars ∈ before.map Label.chars) := by
      rw [Bool.eq_iff_iff, List.any_map, List.any_reverse, List.any_eq_true, decide_eq_true_iff, List.mem_map]
      exact exists_congr fun other => and_congr_right fun _ => by rw [Function.comp, equals_ofLabel, beq_iff_eq, eq_comm]
    have more := ih (before ++ [id])
    rw [List.reverse_append, List.reverse_singleton, List.singleton_append, List.map_cons] at more
    rw [List.map_cons, jobFaults.repetitions, isKey_ofLabel, more, seen, repeatsAfter_cons]
    by_cases found : id.chars ∈ before.map Label.chars
    · rw [if_pos found, decide_eq_true found, wording_ofLabel]
      rfl
    · rw [if_neg found, decide_eq_false found]
      rfl

/-- Every id is one that stood before, or the first of its kind. -/
theorem length_repeatsAfter (before ids : List Label) :
    (repeatsAfter before ids).length + ((ids.map Label.chars).toFinset \ (before.map Label.chars).toFinset).card =
      ids.length := by
  induction ids generalizing before with
  | nil => simp [repeatsAfter]
  | cons id ids ih =>
    have more := ih (before ++ [id])
    rw [List.map_append, List.map_singleton, List.toFinset_append, List.toFinset_cons, List.toFinset_nil,
      insert_empty_eq] at more
    rw [repeatsAfter_cons, List.map_cons, List.toFinset_cons]
    by_cases found : id.chars ∈ before.map Label.chars
    · have known : insert id.chars (ids.map Label.chars).toFinset \ (before.map Label.chars).toFinset =
          (ids.map Label.chars).toFinset \ ((before.map Label.chars).toFinset ∪ {id.chars}) := by
        rw [Finset.insert_sdiff_of_mem _ (List.mem_toFinset.mpr found), Finset.union_eq_left.mpr]
        exact Finset.singleton_subset_iff.mpr (List.mem_toFinset.mpr found)
      rw [if_pos found, known, List.length_append, List.length_cons, List.length_cons, List.length_nil]
      omega
    · have fresh : insert id.chars (ids.map Label.chars).toFinset \ (before.map Label.chars).toFinset =
          insert id.chars ((ids.map Label.chars).toFinset \ ((before.map Label.chars).toFinset ∪ {id.chars})) := by
        rw [Finset.insert_sdiff_of_notMem _ (by simpa using found)]
        ext name
        by_cases same : name = id.chars <;> simp [same]
      rw [if_neg found, fresh, Finset.card_insert_of_notMem (by simp), List.nil_append, List.length_cons]
      omega

/-- How many ids are repetitions: all but one of each kind. -/
theorem length_repeats (ids : List Label) :
    (repeatsAfter [] ids).length + (ids.map Label.chars).toFinset.card = ids.length := by
  simpa using length_repeatsAfter [] ids

theorem repeats_eq_nil_iff (ids : List Label) : repeatsAfter [] ids = [] ↔ (ids.map Label.chars).Nodup := by
  have count := length_repeats ids
  rw [← List.length_eq_zero_iff]
  constructor
  · intro none
    rw [List.card_toFinset] at count
    have whole : (ids.map Label.chars).dedup = ids.map Label.chars :=
      (List.dedup_sublist _).eq_of_length (by rw [List.length_map]; omega)
    exact List.dedup_eq_self.mp whole
  · intro distinct
    rw [List.toFinset_card_of_nodup distinct, List.length_map] at count
    omega

theorem jobFaults_eq (named : jobId.isNull = true ∨ jobId.label?.isSome)
    (ids : ∀ step ∈ store.jobSteps job, step.id.isNull = true ∨ step.id.label?.isSome) :
    ∃ label, store.wording (job.label jobId) = .ok label ∧
      store.jobFaults job jobId = .ok ((store.causes label job).map .ofCause) := by
  obtain ⟨label, called⟩ : ∃ label, job.label jobId = .ofLabel label := label_eq_ofLabel named
  refine ⟨label.word, by rw [called, wording_ofLabel], ?_⟩
  have repeated : jobFaults.repetitions store label.word _ _ = _ := repetitions_labels label.word [] (store.stepLabels job)
  rw [stepIds_eq ids] at repeated
  rw [jobFaults, called, wording_ofLabel]
  show (jobFaults.repetitions store label.word [] (store.stepIds job) >>= fun _ => _) = _
  rw [show ([] : List Value) = ([] : List Label).reverse.map Value.ofLabel from rfl, repeated]
  rw [causes]
  cases job.steps.isEmpty <;> cases (job.fields .uses).isNull <;> cases (job.fields .runsOn).isEmpty <;> rfl

end
end Store
end WorkflowCompiler
