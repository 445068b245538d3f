import WorkflowCompiler.Builder.Event
import WorkflowCompiler.Proofs.SpelledValues

/-! Events and inputs with their members spelled out: the entries of the `on` section keep their
names, and the values under them are spelled out. -/

namespace WorkflowCompiler

/-- Named entries with the values spelled out. -/
abbrev Value.spelledNamed (named : List (String × Value)) : List (String × Value) := named.map (Prod.map id spelled)

/-- Entries with their keys and values spelled out. -/
abbrev Value.spelledPairs (entries : List (Value × Value)) : List (Value × Value) := entries.map (Prod.map spelled spelled)

namespace Event

open Value

theorem lookup_spelled (name : String) (named : List (String × Value)) :
    (spelledNamed named).lookup name = (named.lookup name).map spelled := by
  induction named with
  | nil => rfl
  | cons entry rest ih =>
    obtain ⟨other, value⟩ := entry
    rw [spelledNamed, List.map_cons, Prod.map_apply, List.lookup_cons, List.lookup_cons, ← spelledNamed, ih]
    simp only [id]
    split <;> rfl

theorem zip_spelled (names : List String) (settings : List Value) :
    names.zip (settings.map spelled) = spelledNamed (names.zip settings) := by
  rw [List.zip_map_right]

theorem setting_spelled (named : List (String × Value)) (name : String) :
    ((spelledNamed named).lookup name).getD .null = ((named.lookup name).getD .null).spelled := by
  rw [lookup_spelled]
  cases named.lookup name <;> rfl

theorem filterM_truth (settings : List (String × Value)) :
    Agrees (spelledNamed · = ·) (settings.filterM fun (_, value) => value.truth)
      ((spelledNamed settings).filterM fun (_, value) => value.truth) := by
  have from_ (found : List (String × Value)) :
      Agrees (spelledNamed · = ·) (settings.filterAuxM (fun (_, value) => value.truth) found)
        ((spelledNamed settings).filterAuxM (fun (_, value) => value.truth) (spelledNamed found)) := by
    induction settings generalizing found with
    | nil => exact .ok rfl
    | cons entry rest ih =>
      obtain ⟨name, value⟩ := entry
      rw [spelledNamed, List.map_cons, List.filterAuxM, List.filterAuxM]
      show Agrees _ (value.truth >>= _) (value.spelled.truth >>= _)
      rw [truth_spelled]
      refine (Agrees.refl value.truth).next fun kept => ?_
      cases kept
      · exact ih found
      · exact ih ((name, value) :: found)
  refine (from_ []).next fun found => ?_
  exact .ok List.map_reverse

theorem filters_spelled (settings : List (String × Value)) :
    Agrees (spelled · = ·) (filters settings) (filters (spelledNamed settings)) := by
  refine (filterM_truth settings).next fun present => ?_
  cases present with
  | nil => exact .ok rfl
  | cons entry rest => exact .ok (by simp [spelled, Function.comp_def])

theorem entryIfSet_spelled (name : String) (value : Value) :
    Agrees (spelledPairs · = ·) (entryIfSet name value) (entryIfSet name value.spelled) := by
  rw [entryIfSet, entryIfSet, truth_spelled]
  refine (Agrees.refl value.truth).next fun isSet => ?_
  cases isSet <;> exact .ok rfl

theorem inputEntries_spelled (kind : InputKind) (settings : List Value) :
    Agrees (spelledPairs · = ·) (inputEntries kind settings) (inputEntries kind (settings.map spelled)) := by
  have optional (name : String) (value : Value) :
      (if value.spelled.isNull then [] else [((.text name : Value), value.spelled)]) =
        spelledPairs (if value.isNull then [] else [(.text name, value)]) := by
    rw [isNull_spelled]
    split <;> rfl
  simp only [inputEntries, zip_spelled, setting_spelled, optional]
  cases kind with
  | choice =>
    refine (iterate_spelled _).next fun items => ?_
    exact .ok (by simp [spelled])
  | _ => exact .ok (by simp [spelled])

theorem inputsSection_spelled (inputs : Value) : Agrees (spelled · = ·) (inputsSection inputs) (inputsSection inputs.spelled) := by
  refine (itemEntries_spelled inputs).next fun entries => ?_
  refine (Agrees.mapM (Prod.map spelled spelled) ?_).bind ?_
  · rintro ⟨name, value⟩ -
    have named {entries copies : Except Failure (List (Value × Value))} (agrees : Agrees (spelledPairs · = ·) entries copies) :
        Agrees (Prod.map spelled spelled · = ·) (do return (name, .map (← entries))) (do return (name.spelled, .map (← copies))) := by
      refine agrees.next fun entries => ?_
      exact .ok (by simp [spelled])
    cases value with
    | input kind settings =>
      simp only [Prod.map_apply, spelled, spelledItems_eq]
      exact named (inputEntries_spelled kind settings)
    | _ => exact named (toEntries_spelled _)
  · rintro described _ rfl
    exact .ok (by simp [spelled])

theorem section?_spelled (entries : List (Value × Value)) : section? (spelledPairs entries) = (section? entries).spelled := by
  cases entries with
  | nil => rfl
  | cons entry rest => simp [section?]

theorem simpleEntries_spelled (kind : EventKind) (settings : List Value) :
    Agrees (spelledPairs · = ·) (simpleEntries kind settings) (simpleEntries kind (settings.map spelled)) := by
  cases kind with
  | anyOf => exact .ok rfl
  | abstract => exact .fail rfl
  | push =>
    simp only [simpleEntries, zip_spelled]
    refine (filters_spelled _).next fun options => ?_
    exact .ok rfl
  | pullRequest =>
    simp only [simpleEntries, zip_spelled, setting_spelled, truth_spelled]
    refine (Agrees.refl _).next fun target => ?_
    rw [spelledNamed, List.filter_map]
    refine (filters_spelled _).next fun options => ?_
    exact .ok rfl
  | schedule =>
    simp only [simpleEntries, zip_spelled, setting_spelled]
    refine (iterate_spelled _).next fun crons => ?_
    exact .ok (by simp [spelled, singleton, Function.comp_def])
  | dispatch =>
    simp only [simpleEntries, zip_spelled, setting_spelled, truth_spelled]
    refine (Agrees.refl _).next fun asks => ?_
    cases asks
    · exact .ok rfl
    · refine (inputsSection_spelled _).next fun inputs => ?_
      exact .ok rfl
  | call =>
    simp only [simpleEntries, zip_spelled, setting_spelled, truth_spelled]
    have others (inputs : List (Value × Value)) (outputs secrets : Value) :
        Agrees (spelledPairs · = ·)
          (do
            let outputs ← entryIfSet "outputs" outputs
            let secrets ← entryIfSet "secrets" secrets
            return singleton "workflow_call" (section? (inputs ++ outputs ++ secrets)))
          (do
            let outputs ← entryIfSet "outputs" outputs.spelled
            let secrets ← entryIfSet "secrets" secrets.spelled
            return singleton "workflow_call" (section? (spelledPairs inputs ++ outputs ++ secrets))) := by
      refine (entryIfSet_spelled "outputs" outputs).next fun outputs => ?_
      refine (entryIfSet_spelled "secrets" secrets).next fun secrets => ?_
      refine .ok ?_
      rw [← List.map_append, ← List.map_append, section?_spelled]
      rfl
    refine (Agrees.refl _).next fun asks => ?_
    cases asks
    · exact others [] _ _
    · refine (inputsSection_spelled _).next fun inputs => ?_
      exact others (singleton "inputs" inputs) _ _
  | run =>
    simp only [simpleEntries, zip_spelled, setting_spelled]
    refine (iterate_spelled _).next fun workflows => ?_
    refine (entryIfSet_spelled _ _).next fun types => ?_
    refine (entryIfSet_spelled _ _).next fun branches => ?_
    exact .ok (by simp [spelled, singleton])

theorem update_spelled (entries more : List (Value × Value)) :
    update (spelledPairs entries) (spelledPairs more) = spelledPairs (update entries more) := by
  induction more generalizing entries with
  | nil => rfl
  | cons entry rest ih =>
    obtain ⟨key, value⟩ := entry
    simp only [update, spelledPairs, List.map_cons, Prod.map_apply, List.foldl_cons, insert_spelled]
    exact ih _

theorem entries_several (first second : Value) (rest : List Value) :
    entries (.event .anyOf (first :: second :: rest)) = .ok [] := by
  rw [entries]
  · rfl
  all_goals simp

mutual

theorem entries_spelled (value : Value) : Agrees (spelledPairs · = ·) (entries value) (entries value.spelled) := by
  cases value with
  | event kind settings =>
    cases kind with
    | anyOf =>
      match settings with
      | [] => exact .ok rfl
      | [part] =>
        have iterated {parts : Value} : Agrees (spelledPairs · = ·)
            (do
              match ← parts.iterate with
              | [] => return []
              | part :: _ => .error (.ofCause (.noAttribute part.typeName "to_gha_dict")))
            (do
              match ← parts.spelled.iterate with
              | [] => return []
              | part :: _ => .error (.ofCause (.noAttribute part.typeName "to_gha_dict"))) := by
          refine (iterate_spelled parts).next fun parts => ?_
          cases parts with
          | nil => exact .ok rfl
          | cons part rest => exact .fail rfl
        cases part with
        | list parts => simpa [spelled, entries] using combinedEntries_spelled [] parts
        | tuple parts => simpa [spelled, entries] using combinedEntries_spelled [] parts
        | _ =>
          simp only [spelled, spelledItems, entries]
          exact iterated
      | first :: second :: rest =>
        simp only [spelled, spelledItems, entries_several]
        exact .ok rfl
    | _ => simpa [spelled, entries] using simpleEntries_spelled _ settings
  | input kind settings => simpa [spelled, entries] using inputEntries_spelled kind settings
  | path segments => exact .error rfl
  | _ => exact .fail rfl

theorem combinedEntries_spelled (found : List (Value × Value)) (parts : List Value) :
    Agrees (spelledPairs · = ·) (combinedEntries found parts) (combinedEntries (spelledPairs found) (parts.map spelled)) := by
  cases parts with
  | nil => exact .ok rfl
  | cons part rest =>
    rw [List.map_cons, combinedEntries, combinedEntries]
    refine (entries_spelled part).next fun entries => ?_
    rw [update_spelled]
    exact combinedEntries_spelled (update found entries) rest

end

theorem join_spelled (kind : EventKind) (settings : List Value) (other : Value) :
    Agrees (spelled · = ·) (join kind settings other) (join kind (settings.map spelled) other.spelled) := by
  have wrapped : (Value.event .anyOf [.list [.event kind settings, other]]).spelled =
      .event .anyOf [.list [.event kind (settings.map spelled), other.spelled]] := by simp [spelled]
  cases kind with
  | anyOf =>
    match settings with
    | [] => exact .fail rfl
    | [parts] =>
      cases parts with
      | list parts => exact .ok (by simp [spelled])
      | _ => exact .fail rfl
    | first :: second :: rest =>
      rw [List.map_cons, List.map_cons, join, join]
      · exact .fail rfl
      · simp
      · simp
  | _ => exact .ok wrapped

end Event

end WorkflowCompiler
