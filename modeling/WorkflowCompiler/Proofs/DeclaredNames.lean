import WorkflowCompiler.Proofs.BuildRuns
import WorkflowCompiler.Proofs.JobFaults

/-! Names that callbacks refer to. A helper makes its reference if the name has been declared, or
if names of its kind are not tracked, and otherwise says what has been declared. -/

namespace WorkflowCompiler

open Store

namespace Build

/-- A reference that is made if `accepted` holds, and refused otherwise. -/
def Settles (reference : Build Value) (accepted : Prop) (path : List Label) : Prop := ∀ workspace,
  (accepted ∧ reference.run workspace = (.ok (.path path), workspace)) ∨
  (¬ accepted ∧ ∃ failure, reference.run workspace = (.error failure, workspace) ∧ failure.category = .composition)

theorem run_segment {label : Label} (named : label.chars ≠ "") (workspace : Workspace) :
    (segment (.ofLabel label)).run workspace = (.ok label, workspace) := by
  simp [segment, named]

theorem run_extend (segments more : List Label) (named : ∀ label ∈ more, label.chars ≠ "") (workspace : Workspace) :
    (extend segments (more.map Value.ofLabel)).run workspace = (.ok (.path (segments ++ more)), workspace) := by
  have each : ((more.map Value.ofLabel).mapM segment).run workspace = (.ok more, workspace) := by
    induction more with
    | nil => rfl
    | cons label rest ih =>
      have ⟨first, others⟩ := List.forall_mem_cons.mp named
      rw [List.map_cons, List.mapM_cons, run_bind_ok (run_segment first workspace), run_bind_ok (ih others)]
      rfl
  rw [extend, run_bind_ok each]
  rfl

/-- What the check of a name against declared ones comes to. -/
theorem run_requireKnown (kind : String) (name : Label) {declared : List Label} (workspace : Workspace) :
    (name.chars ∈ declared.map Label.chars ∧
      (requireKnown kind (.ofLabel name) (some (declared.map Value.ofLabel))).run workspace = (.ok (), workspace)) ∨
    (name.chars ∉ declared.map Label.chars ∧
      (requireKnown kind (.ofLabel name) (some (declared.map Value.ofLabel))).run workspace =
        (.error (.ofCause (.unknownName kind name.word (declared.map Label.chars))), workspace)) := by
  have found : (declared.map Value.ofLabel).any (Value.equals (.ofLabel name)) = true ↔ name.chars ∈ declared.map Label.chars := by
    simp only [List.any_map, List.any_eq_true, Function.comp_apply, equals_ofLabel, beq_iff_eq, List.mem_map]
    exact ⟨fun ⟨label, there, same⟩ => ⟨label, there, same.symm⟩, fun ⟨label, there, same⟩ => ⟨label, there, same.symm⟩⟩
  have names : (declared.map Value.ofLabel).mapM Value.chars? = some (declared.map Label.chars) := by
    clear found
    induction declared with
    | nil => rfl
    | cons label rest ih => simp [List.mapM_cons, ih]
  by_cases member : name.chars ∈ declared.map Label.chars
  · refine .inl ⟨member, ?_⟩
    rw [requireKnown, if_neg (by simpa using found.mpr member)]
    rfl
  · refine .inr ⟨member, ?_⟩
    rw [requireKnown, if_pos (by simpa using mt found.mp member), run_bind_ok (run_ask (wording_ofLabel name)), names]
    rfl

/-- Whether a name may be used, if the names of its kind are tracked. -/
def Allowed (declared : Option (List String)) (name : Label) : Prop := ∀ names, declared = some names → name.chars ∈ names

theorem settles_requireKnown (kind : String) (name : Label) (declared : Option (List Label)) {next : Unit → Build Value}
    {path : List Label} (made : ∀ workspace, (next ()).run workspace = (.ok (.path path), workspace)) :
    Settles (requireKnown kind (.ofLabel name) (declared.map (·.map Value.ofLabel)) >>= next)
      (Allowed (declared.map (·.map Label.chars)) name) path := by
  intro workspace
  cases declared with
  | none => exact .inl ⟨by simp [Allowed], made workspace⟩
  | some names =>
    rcases run_requireKnown kind name workspace with ⟨member, passed⟩ | ⟨missing, refused⟩
    · exact .inl ⟨by simpa [Allowed] using member, by rw [Option.map_some, run_bind_ok passed, made]⟩
    · exact .inr ⟨by simpa [Allowed] using missing, .ofCause _, by rw [Option.map_some, run_bind, refused], rfl⟩

theorem settles_requireText (kind : String) (name : Label) (declared : Option (List String)) {next : Unit → Build Value}
    {path : List Label} (made : ∀ workspace, (next ()).run workspace = (.ok (.path path), workspace)) :
    Settles (requireKnown kind (.ofLabel name) (texts declared) >>= next) (Allowed declared name) path := by
  have settles := settles_requireKnown kind name (declared.map (·.map .text)) made
  cases declared with
  | none => exact settles
  | some names => simpa [texts, Value.ofLabel, Function.comp_def, Label.chars] using settles

/-- What the helpers of a context check names against. -/
structure Checks (known : Known) (axes : Option (List String)) (needs ids : List String) : Prop where
  axis (name : Label) (named : name.chars ≠ "") :
    Settles (reference known "axis" [.ofLabel name]) (Allowed axes name) [.text "matrix", name]
  needOutput (job output : Label) (named : job.chars ≠ "") (called : output.chars ≠ "") :
    Settles (reference known "need_output" [.ofLabel job, .ofLabel output]) (job.chars ∈ needs)
      [.text "needs", job, .text "outputs", output]
  step (id : Label) (named : id.chars ≠ "") :
    Settles (reference known "step" [.ofLabel id]) (id.chars ∈ ids) [.text "steps", id]
  stepOutput (id output : Label) (named : id.chars ≠ "") (called : output.chars ≠ "") :
    Settles (reference known "step_output" [.ofLabel id, .ofLabel output]) (id.chars ∈ ids)
      [.text "steps", id, .text "outputs", output]

theorem allowed_some {names : List String} {name : Label} : Allowed (some names) name ↔ name.chars ∈ names := by
  simp [Allowed]

theorem checks_known {known : Known} {needs : List String} {ids : List Label} (onNeeds : known.needs = some needs)
    (onSteps : known.steps = some (ids.map Value.ofLabel)) : Checks known known.axes needs (ids.map Label.chars) where
  axis name named := by
    apply settles_requireText
    exact run_extend [.text "matrix"] [name] (by simpa using named)
  needOutput job output named called := by
    rw [← allowed_some, ← onNeeds]
    apply settles_requireText
    exact run_extend [.text "needs"] [job, .text "outputs", output] (by simpa [Label.chars] using ⟨named, called⟩)
  step id named := by
    have made : ∀ workspace, (extend (root "steps") [.ofLabel id]).run workspace = (.ok (.path [.text "steps", id]), workspace) :=
      run_extend [.text "steps"] [id] (by simpa using named)
    simpa [reference, onSteps, allowed_some] using settles_requireKnown "step id" id (some ids) made
  stepOutput id output named called := by
    have made (workspace : Workspace) : (extend (root "steps") [.ofLabel id] >>= fun step =>
        index step [.text "outputs", .ofLabel output]).run workspace =
          (.ok (.path [.text "steps", id, .text "outputs", output]), workspace) := by
      have onStep : (extend (root "steps") [.ofLabel id]).run workspace = (.ok (.path [.text "steps", id]), workspace) :=
        run_extend [.text "steps"] [id] (by simpa using named) workspace
      have onOutputs : (extend [.text "steps", id] [.text "outputs"]).run workspace =
          (.ok (.path [.text "steps", id, .text "outputs"]), workspace) :=
        run_extend [.text "steps", id] [.text "outputs"] (by simp [Label.chars]) workspace
      have onOutput : (extend [.text "steps", id, .text "outputs"] [.ofLabel output]).run workspace =
          (.ok (.path [.text "steps", id, .text "outputs", output]), workspace) :=
        run_extend [.text "steps", id, .text "outputs"] [output] (by simpa using called) workspace
      rw [run_bind_ok onStep, index, run_bind_ok onOutputs, index, run_bind_ok onOutput]
      rfl
    simpa [reference, onSteps, allowed_some] using settles_requireKnown "step id" id (some ids) made

end Build

/-- A step whose id can be looked up, and what it puts out too, if it has an id. -/
def Step.Tracked (step : Step) : Prop :=
  step.id.isKey ∧ (step.id.isNull = false → ∀ output ∈ step.outputs, output.isKey)

instance (step : Step) : Decidable step.Tracked := inferInstanceAs (Decidable (_ ∧ (_ → _)))

namespace Value

theorem exists_ofEntries {entries : List (Value × α)} (keys : ∀ entry ∈ entries, entry.1.isKey) : ∃ made, ofEntries entries = .ok made := by
  suffices general : ∀ found : List (Value × α), ∃ made, entries.foldlM (fun found entry => insertKey found entry.1 entry.2) found = .ok made from
    general []
  induction entries with
  | nil => exact fun found => ⟨found, rfl⟩
  | cons entry rest ih =>
    intro found
    obtain ⟨first, later⟩ := List.forall_mem_cons.mp keys
    obtain ⟨made, put⟩ := ih later (insert entry.1 entry.2 found)
    refine ⟨made, ?_⟩
    rw [List.foldlM_cons, insertKey, if_pos first]
    exact put

end Value

namespace Store

variable {store : Store} {job : Job}

theorem keys_insert (key : Label) (item : α) {keys : List Label} {entries : List (Value × α)}
    (named : entries.map Prod.fst = keys.map Value.ofLabel) :
    ∃ after : List Label, (Value.insert (.ofLabel key) item entries).map Prod.fst = after.map Value.ofLabel ∧
      ∀ name, name ∈ after.map Label.chars ↔ name = key.chars ∨ name ∈ keys.map Label.chars := by
  induction entries generalizing keys with
  | nil =>
    cases keys with
    | nil => exact ⟨[key], rfl, by simp⟩
    | cons => cases named
  | cons entry rest ih =>
    obtain ⟨other, old⟩ := entry
    cases keys with
    | nil => cases named
    | cons label keys =>
      obtain ⟨rfl, others⟩ := List.cons.inj named
      unfold Value.insert
      by_cases same : key.chars = label.chars
      · exact ⟨label :: keys, by simpa [same] using others, by simp [same]⟩
      · obtain ⟨after, inserted, chars⟩ := ih others
        refine ⟨label :: after, by simpa [same] using inserted, fun name => ?_⟩
        simp only [List.map_cons, List.mem_cons, chars]
        exact or_left_comm

theorem keys_ofEntries {entries : List (Value × α)} {ids : List Label} (named : entries.map Prod.fst = ids.map Value.ofLabel) :
    ∃ (made : List (Value × α)) (keys : List Label), Value.ofEntries entries = .ok made ∧ made.map Prod.fst = keys.map Value.ofLabel ∧
      ∀ name : String, name ∈ keys.map Label.chars ↔ name ∈ ids.map Label.chars := by
  suffices general : ∀ found : List (Value × α), ∀ before : List Label, found.map Prod.fst = before.map Value.ofLabel →
      ∃ (made : List (Value × α)) (keys : List Label), entries.foldlM (fun found entry => Value.insertKey found entry.1 entry.2) found = .ok made ∧
        made.map Prod.fst = keys.map Value.ofLabel ∧
        ∀ name : String, name ∈ keys.map Label.chars ↔ name ∈ before.map Label.chars ∨ name ∈ ids.map Label.chars by
    simpa [Value.ofEntries] using general [] [] rfl
  induction entries generalizing ids with
  | nil => 
    intro found before onFound
    cases ids with
    | nil => exact ⟨found, before, rfl, onFound, by simp⟩
    | cons => cases named
  | cons entry rest ih =>
    intro found before onFound
    obtain ⟨key, item⟩ := entry
    cases ids with
    | nil => cases named
    | cons id ids =>
      obtain ⟨rfl, others⟩ := List.cons.inj named
      obtain ⟨keys, inserted, chars⟩ := keys_insert id item onFound
      obtain ⟨made, last, listed, onMade, all⟩ := ih others (Value.insert (.ofLabel id) item found) keys inserted
      have taken : Value.insertKey found (.ofLabel id) item = .ok (Value.insert (.ofLabel id) item found) := by
        simp [Value.insertKey]
      refine ⟨made, last, ?_, onMade, fun name => ?_⟩
      · rw [List.foldlM_cons, taken]
        exact listed
      · simp only [all, chars, List.map_cons, List.mem_cons]
        tauto

/-- Each step of a job that has an id, with the outputs that it names. -/
def outputsById (store : Store) (job : Job) : List (Value × List Value) :=
  ((store.jobSteps job).filter fun step => !step.id.isNull).map fun step => (step.id, step.outputs)

theorem ids_outputsById (store : Store) (job : Job) : (store.outputsById job).map Prod.fst = store.stepIds job := by
  rw [outputsById, stepIds, List.map_map, List.filter_map]
  rfl

theorem stepOutputs_of_tracked
    (tracked : ∀ step ∈ store.jobSteps job, step.id.isNull = false → ∀ output ∈ step.outputs, output.isKey) :
    store.stepOutputs job = Value.ofEntries (store.outputsById job) := by
  have all : (((store.jobSteps job).filter fun step => !step.id.isNull).all (·.outputs.all Value.isKey)) = true := by
    rw [List.all_eq_true]
    intro step member
    obtain ⟨there, named⟩ := List.mem_filter.mp member
    exact List.all_eq_true.mpr (tracked step there (by simpa using named))
  rw [stepOutputs, all]
  rfl

theorem ofEntries_of_stepOutputs {outputs : List (Value × List Value)} (made : store.stepOutputs job = .ok outputs) :
    Value.ofEntries (store.outputsById job) = .ok outputs := by
  rw [stepOutputs] at made
  split at made
  · cases made
  · exact made

theorem exists_knownNames (tracked : ∀ step ∈ job.steps, (store.step step).Tracked) : ∃ known, store.knownNames job = .ok known := by
  have all : ∀ step ∈ store.jobSteps job, step.Tracked := List.forall_mem_map.mpr tracked
  have keys : ∀ entry ∈ store.outputsById job, entry.1.isKey := by
    intro entry member
    obtain ⟨step, there, rfl⟩ := List.mem_map.mp member
    exact (all step (List.mem_of_mem_filter there)).1
  obtain ⟨outputs, told⟩ := Value.exists_ofEntries keys
  rw [← stepOutputs_of_tracked fun step there => (all step there).2] at told
  exact ⟨_, by rw [knownNames, told]; rfl⟩

theorem exists_untracked {failure : Failure} (untold : store.knownNames job = .error failure) :
    ∃ step ∈ job.steps, ¬ (store.step step).Tracked := by
  by_contra! tracked
  obtain ⟨known, told⟩ := exists_knownNames tracked
  cases untold.symm.trans told

/-- The ids of steps that have none or are texts are known as they are. -/
theorem knownNames_texts (ids : ∀ step ∈ store.jobSteps job, step.id.isNull = true ∨ step.id.label?.isSome)
    {known : Known} (told : store.knownNames job = .ok known) :
    ∃ keys : List Label, known.axes = job.axes ∧ known.needs = some job.neededJobs ∧
      known.steps = some (keys.map Value.ofLabel) ∧
      ∀ name : String, name ∈ keys.map Label.chars ↔ ∃ step ∈ store.jobSteps job, step.id.chars? = some name := by
  have named : (store.outputsById job).map Prod.fst = (store.stepLabels job).map Value.ofLabel := by
    rw [ids_outputsById, stepIds_eq ids]
  obtain ⟨outputs, made, same⟩ := ok_of_bind told
  cases same
  obtain ⟨collected, keys, whole, onKeys, chars⟩ := keys_ofEntries named
  cases whole.symm.trans (ofEntries_of_stepOutputs made)
  refine ⟨keys, rfl, rfl, congrArg some onKeys, fun name => ?_⟩
  rw [chars]
  simp only [stepLabels, stepIds, List.mem_map, List.mem_filterMap, List.mem_filter]
  constructor
  · rintro ⟨label, ⟨_, ⟨⟨step, there, rfl⟩, -⟩, known⟩, rfl⟩
    exact ⟨step, there, by rw [Value.chars?, known]; rfl⟩
  · rintro ⟨step, there, called⟩
    obtain ⟨label, known, rfl⟩ := Option.map_eq_some_iff.mp called
    refine ⟨label, ⟨step.id, ⟨⟨step, there, rfl⟩, ?_⟩, known⟩, rfl⟩
    rw [eq_ofLabel known]
    cases label <;> rfl

end Store

end WorkflowCompiler
