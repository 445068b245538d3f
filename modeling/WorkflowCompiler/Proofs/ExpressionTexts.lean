import WorkflowCompiler.Proofs.OperandGrouping

/-! Texts of expressions in sound workspaces. An expression reads as its parts do, one after the
other, however it came about and whatever was added to it since. What is composed later leaves that
text alone. -/

namespace WorkflowCompiler

open Value (AllWithin)
open Proofs.FormulaSpelling (partText expressionTextWithin_succ)

namespace Store

/-- The text of a part of an expression. -/
def fragmentText (store : Store) : Fragment → Except Failure String := partText store (store.size + 1)

/-- The parts of an expression have one hop less left than the expression, which does not matter. -/
theorem expressionText_of_contents {store : Store} (closed : store.Closed) {identity : Nat} (has : store.Has (.expression identity)) :
    store.expressionText identity = String.join <$> (store.expression identity).contents.mapM store.fragmentText := by
  have alike := (alike_of_keeps closed (Keeps.refl [] store)).1
  have settled := (follows_text alike).settled (Nat.le_of_eq (length_targets store))
  have again := (follows_text alike).settled (Nat.le_succ_of_le (Nat.le_of_eq (length_targets store)))
  have parts : (store.expression identity).contents.mapM (partText store store.size) =
      (store.expression identity).contents.mapM store.fragmentText := by
    refine mapM_congr fun fragment member => ?_
    cases fragment with
    | nested inner =>
      have held := (store.mem_targets _).mpr (closed (.expression identity) has inner member)
      exact (settled _ held).trans (again _ held).symm
    | _ => rfl
  rw [expressionText, expressionTextWithin_succ, parts]
  cases (store.expression identity).contents.mapM store.fragmentText <;> rfl

/-- The text that a value adds to an expression that is composed of it: nothing if it is null. -/
def addedText (store : Store) (value : Value) : Except Failure String := do
  match ← Build.fragment? value with
  | none => return ""
  | some fragment => store.fragmentText fragment

/-- The value adds the text, and the store has what it names. -/
structure Adds (store : Store) (value : Value) (text : String) : Prop where
  within : value.Within store.Has
  text : store.addedText value = .ok text

theorem adds_text (store : Store) (text : String) : store.Adds (.text text) text := ⟨Value.within_text text, rfl⟩

theorem adds_expression {store : Store} {identity : Nat} {text : String} (has : store.Has (.expression identity))
    (reads : store.expressionText identity = .ok text) : store.Adds (.expression identity) text :=
  ⟨Build.within_expression.mpr has, reads⟩

section

variable {before after : Store} (closed : before.Closed) (keeps : Keeps [] before after)
include closed keeps

theorem fragmentText_of_keeps {fragment : Fragment} (within : ∀ inner, fragment = .nested inner → before.Has (.expression inner)) :
    after.fragmentText fragment = before.fragmentText fragment := by
  cases fragment with
  | nested inner => exact sameForm_of_keeps closed keeps (.expression inner) (within inner rfl)
  | _ => rfl

theorem addedText_of_keeps {value : Value} (within : value.Within before.Has) : after.addedText value = before.addedText value := by
  have held := Build.gives_fragment within
  unfold addedText
  rcases found : Build.fragment? value with failure | _ | fragment
  · rfl
  · rfl
  · exact fragmentText_of_keeps closed keeps fun inner same => held _ found inner (congrArg some same)

theorem Adds.kept {value : Value} {text : String} (adds : before.Adds value text) : after.Adds value text :=
  ⟨adds.within.mono keeps.has, (addedText_of_keeps closed keeps adds.within).trans adds.text⟩

end

theorem allWithin_of_adds {store : Store} {values : List Value} {texts : List String} (adds : List.Forall₂ store.Adds values texts) :
    AllWithin store.Has values := by
  induction adds with
  | nil => exact Value.allWithin_nil
  | cons first _ ih => exact Value.allWithin_cons.mpr ⟨first.within, ih⟩

/-- Values that are null leave no part behind, and add no text either. -/
theorem join_of_added {store : Store} {values : List Value} {texts : List String} (added : values.mapM store.addedText = .ok texts) :
    ∃ fragments, values.mapM Build.fragment? = .ok fragments ∧
      String.join <$> (fragments.filterMap id).mapM store.fragmentText = .ok (String.join texts) := by
  induction values generalizing texts with
  | nil =>
    cases added
    exact ⟨[], rfl, rfl⟩
  | cons value rest ih =>
    rw [List.mapM_cons] at added
    obtain ⟨text, first, added⟩ := ok_of_bind added
    obtain ⟨others, more, same⟩ := ok_of_bind added
    cases same
    obtain ⟨fragments, made, joined⟩ := ih more
    obtain ⟨kept, parts, joined⟩ := ok_of_map joined
    obtain ⟨fragment, one, reads⟩ := ok_of_bind first
    refine ⟨fragment :: fragments, by rw [List.mapM_cons, one, made]; rfl, ?_⟩
    cases fragment with
    | none =>
      obtain rfl : "" = text := Except.ok.inj reads
      rw [List.filterMap_cons_none rfl, parts, String.join_cons, String.empty_append, ← joined]
      rfl
    | some fragment =>
      have reads : store.fragmentText fragment = .ok text := reads
      have more : (some fragment :: fragments).filterMap id = fragment :: fragments.filterMap id := rfl
      rw [more, List.mapM_cons, reads, parts, String.join_cons, ← joined]
      exact congrArg Except.ok String.join_cons

end Store

namespace Build

open Store (Keeps)

/-- What composing gives, and how it reads. -/
theorem run_compose {workspace : Workspace} (sound : workspace.Sound) {values : List Value}
    (within : AllWithin workspace.store.Has values) (compound : Bool) {fragments : List (Option Fragment)}
    (made : values.mapM fragment? = .ok fragments) :
    ∃ identity after, (compose compound values).run workspace = (.ok (.expression identity), after) ∧ after.Sound ∧
      Keeps [] workspace.store after.store ∧ after.store.Has (.expression identity) ∧
      after.store.expressionText identity = String.join <$> (fragments.filterMap id).mapM workspace.store.fragmentText := by
  let after : Workspace := { workspace with store :=
    { workspace.store with expressions := workspace.store.expressions ++ [{ contents := fragments.filterMap id, compound }] } }
  have result : (compose compound values).run workspace = (.ok (.expression workspace.store.expressions.length), after) := by
    rw [compose, made, run_bind_ok (run_ofExcept_ok _ _), run_bind_ok (run_newExpression _ _), run_pure]
  have upholds : Upholds _ Value.Within (compose compound values) := upholds_compose within
  obtain ⟨soundAfter, -, there⟩ := upholds workspace sound le_rfl
  have keeps : Keeps [] workspace.store _ := maintains_compose compound values workspace
  rw [result] at soundAfter there keeps
  have has := within_expression.mp (there _ rfl)
  have contents : (after.store.expression workspace.store.expressions.length).contents = fragments.filterMap id := by
    simp [after, Store.expression]
  refine ⟨_, after, result, soundAfter, keeps, has, ?_⟩
  rw [Store.expressionText_of_contents soundAfter.objects has, contents]
  refine congrArg _ (mapM_congr fun fragment member => Store.fragmentText_of_keeps sound.objects keeps fun inner same => ?_)
  obtain ⟨_, listed, rfl⟩ := List.mem_filterMap.mp member
  exact gives_mapM (fun value member => gives_fragment (within value member)) _ made _ listed inner (congrArg some same)

/-- From this workspace, building gives a value that adds the text, and leaves what there was as it is. -/
def Yields (build : Build Value) (workspace : Workspace) (text : String) : Prop :=
  ∃ value after, build.run workspace = (.ok value, after) ∧ after.Sound ∧ Keeps [] workspace.store after.store ∧
    after.store.Adds value text

/-- As for a single value, for values one after the other. -/
def YieldsAll (build : Build (List Value)) (workspace : Workspace) (texts : List String) : Prop :=
  ∃ values after, build.run workspace = (.ok values, after) ∧ after.Sound ∧ Keeps [] workspace.store after.store ∧
    List.Forall₂ after.store.Adds values texts

/-- A composed expression reads as the values that it is composed of, one after the other. -/
theorem reads_compose {workspace : Workspace} (sound : workspace.Sound) {values : List Value} {texts : List String}
    (adds : List.Forall₂ workspace.store.Adds values texts) (compound : Bool) :
    ∃ identity after, (compose compound values).run workspace = (.ok (.expression identity), after) ∧ after.Sound ∧
      Keeps [] workspace.store after.store ∧ after.store.Has (.expression identity) ∧
      after.store.expressionText identity = .ok (String.join texts) := by
  obtain ⟨fragments, made, joined⟩ := Store.join_of_added (mapM_ok (adds.imp fun _ _ => Store.Adds.text))
  obtain ⟨identity, after, result, soundAfter, keeps, has, reads⟩ := run_compose sound (Store.allWithin_of_adds adds) compound made
  exact ⟨identity, after, result, soundAfter, keeps, has, reads.trans joined⟩

theorem yields_compose {workspace : Workspace} (sound : workspace.Sound) {values : List Value} {texts : List String}
    (adds : List.Forall₂ workspace.store.Adds values texts) (compound : Bool) :
    Yields (compose compound values) workspace (String.join texts) := by
  obtain ⟨identity, after, result, soundAfter, keeps, has, reads⟩ := reads_compose sound adds compound
  exact ⟨_, after, result, soundAfter, keeps, Store.adds_expression has reads⟩

theorem written_compose {workspace : Workspace} (sound : workspace.Sound) {values : List Value} {texts : List String}
    (adds : List.Forall₂ workspace.store.Adds values texts) (compound : Bool) :
    written (compose compound values) workspace = .ok (String.join texts) := by
  obtain ⟨identity, after, result, -, -, -, reads⟩ := reads_compose sound adds compound
  rw [written, run_bind_ok result, run_ask_eq]
  exact reads

theorem join_singleton (text : String) : String.join [text] = text := by
  rw [String.join_cons, String.join_nil, String.append_empty]

theorem written_single {workspace : Workspace} (sound : workspace.Sound) {value : Value} {text : String}
    (adds : workspace.store.Adds value text) (compound : Bool) : written (compose compound [value]) workspace = .ok text := by
  have alone := written_compose sound (.cons adds .nil) compound
  rwa [join_singleton] at alone

/-- An expression made of a value alone reads as what the value adds. -/
theorem written_create {workspace : Workspace} (sound : workspace.Sound) {value : Value} (within : value.Within workspace.store.Has) :
    written (applyBuiltin .create [value]) workspace = workspace.store.addedText value := by
  change written (compose false [value]) workspace = _
  unfold Store.addedText
  rcases single : fragment? value with failure | fragment
  · rw [written, compose, List.mapM_cons, single]
    rfl
  · have only : AllWithin workspace.store.Has [value] := Value.allWithin_cons.mpr ⟨within, Value.allWithin_nil⟩
    have made : [value].mapM fragment? = .ok [fragment] := by
      rw [List.mapM_cons, single]
      rfl
    obtain ⟨identity, after, result, -, -, -, reads⟩ := run_compose sound only false made
    rw [written, run_bind_ok result, run_ask_eq]
    refine reads.trans ?_
    cases fragment with
    | none => rfl
    | some fragment =>
      have alone : [some fragment].filterMap id = [fragment] := rfl
      rw [alone, List.mapM_cons, List.mapM_nil]
      cases read : workspace.store.fragmentText fragment with
      | error failure => exact read.symm
      | ok text => exact (congrArg Except.ok (join_singleton text)).trans read.symm

end Build

theorem comparedReference_sound : comparedReference.Sound where
  objects := Store.closed_iff.mpr ⟨by simp [comparedReference, Expression.Within], nofun, nofun, nofun⟩
  closures := nofun
  registers := nofun

end WorkflowCompiler
