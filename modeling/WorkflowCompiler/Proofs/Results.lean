import Mathlib.Data.List.Forall2
import WorkflowCompiler.Failure

/-! Results of computations that may fail: one after the other, and for each item of a list. -/

namespace WorkflowCompiler

theorem ok_of_bind {first : Except Failure α} {next : α → Except Failure β} {result : β}
    (done : (first >>= next) = .ok result) : ∃ value, first = .ok value ∧ next value = .ok result := by
  cases first with
  | error failure => cases done
  | ok value => exact ⟨value, rfl, done⟩

theorem error_of_bind {first : Except Failure α} {next : α → Except Failure β} {failure : Failure}
    (failed : (first >>= next) = .error failure) :
    first = .error failure ∨ ∃ value, first = .ok value ∧ next value = .error failure := by
  cases first with
  | error fault =>
    cases failed
    exact .inl rfl
  | ok value => exact .inr ⟨value, rfl, failed⟩

theorem exists_ok {result : Except Failure α} (done : result.isOk = true) : ∃ value, result = .ok value := by
  cases result with
  | ok value => exact ⟨value, rfl⟩
  | error failure => cases done

theorem exists_error {result : Except Failure α} (failed : result.isOk = false) : ∃ failure, result = .error failure := by
  cases result with
  | ok value => cases failed
  | error failure => exact ⟨failure, rfl⟩

theorem ok_of_map {first : Except Failure α} {change : α → β} {result : β} (done : change <$> first = .ok result) :
    ∃ value, first = .ok value ∧ change value = result := by
  cases first with
  | error failure => cases done
  | ok value => exact ⟨value, rfl, Except.ok.inj done⟩

theorem mapM_ok {items : List α} {results : List β} {make : α → Except Failure β}
    (made : List.Forall₂ (fun item result => make item = .ok result) items results) :
    items.mapM make = .ok results := by
  induction made with
  | nil => rfl
  | cons first _ ih =>
    rw [List.mapM_cons, first, ih]
    rfl

theorem forall₂_of_mapM {items : List α} {results : List β} {make : α → Except Failure β}
    (made : items.mapM make = .ok results) : List.Forall₂ (fun item result => make item = .ok result) items results := by
  induction items generalizing results with
  | nil =>
    cases made
    exact .nil
  | cons item items ih =>
    rw [List.mapM_cons] at made
    obtain ⟨first, one, made⟩ := ok_of_bind made
    obtain ⟨others, more, same⟩ := ok_of_bind made
    cases same
    exact .cons one (ih more)

theorem mem_mapM {items : List α} {results : List β} {make : α → Except Failure β} (made : items.mapM make = .ok results) :
    ∀ result ∈ results, ∃ item ∈ items, make item = .ok result := by
  have paired := forall₂_of_mapM made
  clear made
  induction paired with
  | nil => simp
  | cons one _ ih =>
    intro result member
    rcases List.mem_cons.mp member with rfl | later
    · exact ⟨_, List.mem_cons_self, one⟩
    · obtain ⟨other, there, found⟩ := ih result later
      exact ⟨other, List.mem_cons_of_mem _ there, found⟩

theorem isEmpty_of_mapM {items : List α} {make : α → Except Failure β} {results : List β}
    (made : items.mapM make = .ok results) : results.isEmpty = items.isEmpty := by
  cases forall₂_of_mapM made <;> rfl

theorem exists_mapM {items : List α} {make : α → Except Failure β} (each : ∀ item ∈ items, ∃ result, make item = .ok result) :
    ∃ results, items.mapM make = .ok results := by
  induction items with
  | nil => exact ⟨[], rfl⟩
  | cons item items ih =>
    obtain ⟨first, one⟩ := each item List.mem_cons_self
    obtain ⟨others, more⟩ := ih fun item member => each item (List.mem_cons_of_mem _ member)
    exact ⟨first :: others, by rw [List.mapM_cons, one, more]; rfl⟩

theorem mapM_congr {items : List α} {make other : α → Except Failure β} (same : ∀ item ∈ items, make item = other item) :
    items.mapM make = items.mapM other := by
  induction items with
  | nil => rfl
  | cons item rest ih =>
    obtain ⟨first, later⟩ := List.forall_mem_cons.mp same
    rw [List.mapM_cons, List.mapM_cons, first, ih later]

/-- What a result is good for, if there is one. -/
def Gives (good : α → Prop) (result : Except Failure α) : Prop := ∀ value, result = .ok value → good value

theorem gives_ok {good : α → Prop} {value : α} (fine : good value) : Gives good (.ok value) := by
  rintro _ ⟨⟩
  exact fine

theorem gives_error (good : α → Prop) (failure : Failure) : Gives good (.error failure : Except Failure α) := by
  rintro _ ⟨⟩

theorem Gives.bind {good : α → Prop} {better : β → Prop} {first : Except Failure α} {next : α → Except Failure β}
    (onFirst : Gives good first) (onNext : ∀ value, good value → Gives better (next value)) : Gives better (first >>= next) := by
  cases first with
  | error failure => exact gives_error better failure
  | ok value => exact onNext value (onFirst value rfl)

/-- Whatever comes first does not matter. -/
theorem gives_bind {better : β → Prop} {first : Except Failure α} {next : α → Except Failure β}
    (onNext : ∀ value, Gives better (next value)) : Gives better (first >>= next) :=
  Gives.bind (fun _ _ => trivial) fun value (_ : True) => onNext value

/-- A result is good in all if it is good for each item. -/
theorem gives_mapM {good : β → Prop} {each : α → Except Failure β} {items : List α}
    (onEach : ∀ item ∈ items, Gives good (each item)) : Gives (fun made => ∀ item ∈ made, good item) (items.mapM each) := by
  intro results made result member
  obtain ⟨item, there, one⟩ := mem_mapM made result member
  exact onEach item there result one

theorem gives_filterM {good : α → Prop} {test : α → Except Failure Bool} {items : List α} (all : ∀ item ∈ items, good item) :
    Gives (fun found => ∀ item ∈ found, good item) (items.filterM test) := by
  have onEach (found : List α) (already : ∀ item ∈ found, good item) :
      Gives (fun found => ∀ item ∈ found, good item) (items.filterAuxM test found) := by
    induction items generalizing found with
    | nil => exact gives_ok already
    | cons item rest ih =>
      obtain ⟨first, others⟩ := List.forall_mem_cons.mp all
      refine gives_bind fun kept => ih others _ ?_
      cases kept
      · exact already
      · exact List.forall_mem_cons.mpr ⟨first, already⟩
  exact (onEach [] fun item member => nomatch member).bind fun found fine =>
    gives_ok fun item member => fine item (List.mem_reverse.mp member)

end WorkflowCompiler
