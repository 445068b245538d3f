import Mathlib.Data.Finset.Card
import Mathlib.Data.List.GetD
import Mathlib.Logic.Relation
import WorkflowCompiler.Proofs.RenderingAgreement
import WorkflowCompiler.Proofs.Results

/-! Finite values. A value is finite if going to its parts, from there to their parts and so on always comes to an end.
Then no object is part of itself, so that the objects left to meet become fewer with each one that is entered, and
references are never followed for longer than there are hops: what is to be told of a finite value can be told. -/

namespace WorkflowCompiler

open Relation (ReflTransGen TransGen)

/-- The object as a value. -/
def Target.value : Target → Value
  | .expression identity => .expression identity
  | .step identity => .step identity
  | .job identity => .job identity
  | .workflow identity => .workflow identity

/-- The line of a command is a text. -/
def Value.Lined : Value → Prop
  | .command line _ _ => line.label?.isSome
  | _ => True

namespace Store

/-- What a value is put together from. An object has its settings for parts and the objects it refers to. -/
inductive Part (store : Store) : Value → Value → Prop
  | item {value : Value} {items : List Value} (member : value ∈ items) : Part store value (.list items)
  | tupleItem {value : Value} {items : List Value} (member : value ∈ items) : Part store value (.tuple items)
  | key {key value : Value} {entries : List (Value × Value)} (member : (key, value) ∈ entries) : Part store key (.map entries)
  | entry {key value : Value} {entries : List (Value × Value)} (member : (key, value) ∈ entries) : Part store value (.map entries)
  | line (line output exported : Value) : Part store line (.command line output exported)
  | setting {kind : EventKind} {value : Value} {settings : List Value} (member : value ∈ settings) :
      Part store value (.event kind settings)
  | inputSetting {kind : InputKind} {value : Value} {settings : List Value} (member : value ∈ settings) :
      Part store value (.input kind settings)
  | nested {identity inner : Nat} (member : .nested inner ∈ (store.expression identity).contents) :
      Part store (.expression inner) (.expression identity)
  | stepField (identity : Nat) (field : StepField) : Part store ((store.step identity).fields field) (.step identity)
  | jobField (identity : Nat) (field : JobField) : Part store ((store.job identity).fields field) (.job identity)
  | jobStep {identity step : Nat} (member : step ∈ (store.job identity).steps) : Part store (.step step) (.job identity)
  | workflowName (identity : Nat) : Part store (store.workflow identity).name (.workflow identity)
  | fileName (identity : Nat) : Part store (store.workflow identity).fileName (.workflow identity)
  | workflowField (identity : Nat) (field : WorkflowField) : Part store ((store.workflow identity).fields field) (.workflow identity)
  | event {identity : Nat} {event : String × Value} (member : event ∈ (store.workflow identity).events) :
      Part store event.2 (.workflow identity)
  | jobId {identity : Nat} {entry : Value × Nat} (member : entry ∈ (store.workflow identity).jobs) :
      Part store entry.1 (.workflow identity)
  | workflowJob {identity : Nat} {entry : Value × Nat} (member : entry ∈ (store.workflow identity).jobs) :
      Part store (.job entry.2) (.workflow identity)

/-- No way from part to part goes on forever. -/
def Finite (store : Store) (value : Value) : Prop := Acc store.Part value

open Classical in
/-- How many objects there are to meet in a value. -/
noncomputable def room (store : Store) (value : Value) : Nat :=
  (store.targets.toFinset.filter fun target => ReflTransGen store.Part target.value value).card

variable {store : Store} {part value : Value}

theorem Finite.not_within (finite : store.Finite value) : ¬ TransGen store.Part value value := by
  have ends : Acc (TransGen store.Part) value := finite.transGen
  induction ends with
  | intro value _ ih => exact fun loop => ih value loop (finite) loop

theorem room_le_size (store : Store) (value : Value) : store.room value ≤ store.size := by
  classical
  rw [← store.length_targets]
  exact (Finset.card_filter_le _ _).trans store.targets.toFinset_card_le

theorem room_le_of_part (held : store.Part part value) : store.room part ≤ store.room value := by
  classical
  refine Finset.card_le_card fun target member => ?_
  obtain ⟨there, reached⟩ := Finset.mem_filter.mp member
  exact Finset.mem_filter.mpr ⟨there, reached.tail held⟩

/-- An object that is entered is not met again. -/
theorem room_lt_of_has {target : Target} (has : store.Has target) (finite : store.Finite target.value)
    (held : store.Part part target.value) : store.room part < store.room target.value := by
  classical
  apply Finset.card_lt_card
  refine ⟨fun other member => ?_, fun contains => ?_⟩
  · obtain ⟨there, reached⟩ := Finset.mem_filter.mp member
    exact Finset.mem_filter.mpr ⟨there, reached.tail held⟩
  · have own : target ∈ store.targets.toFinset.filter fun other => ReflTransGen store.Part other.value target.value :=
      Finset.mem_filter.mpr ⟨List.mem_toFinset.mpr ((store.mem_targets target).mpr has), .refl⟩
    have back := (Finset.mem_filter.mp (contains own)).2
    exact finite.not_within (.tail' back held)

/-- An object that does not exist has nothing in it. -/
theorem null_or_has {target : Target} (held : store.Part part target.value) : part = .null ∨ store.Has target := by
  by_cases has : store.Has target
  · exact .inr has
  · left
    cases target with
    | expression identity =>
      have missing : store.expression identity = {} := List.getD_eq_default _ _ (Nat.le_of_not_lt has)
      cases held with
      | nested member =>
        rw [missing] at member
        cases member
    | step identity =>
      have missing : store.step identity = {} := List.getD_eq_default _ _ (Nat.le_of_not_lt has)
      cases held with
      | stepField =>
        rw [missing]
    | job identity =>
      have missing : store.job identity = {} := List.getD_eq_default _ _ (Nat.le_of_not_lt has)
      cases held with
      | jobField =>
        rw [missing]
      | jobStep member =>
        rw [missing] at member
        cases member
    | workflow identity =>
      have missing : store.workflow identity = { name := .null, fileName := .null } := List.getD_eq_default _ _ (Nat.le_of_not_lt has)
      cases held with
      | workflowName | fileName | workflowField => rw [missing]
      | event member | jobId member | workflowJob member =>
        rw [missing] at member
        cases member

/-- Whoever has hops enough for an object has enough for its parts behind it. -/
theorem room_lt_of_part (target : Target) (finite : store.Finite target.value) (held : store.Part part target.value) (set : part ≠ .null)
    {hops : Nat} (enough : store.room target.value < hops + 1) : store.room part < hops := by
  have less := room_lt_of_has ((null_or_has held).resolve_left set) finite held
  omega

/-- Every command in the value, however deep, has a text for a line. -/
def AllLined (store : Store) (value : Value) : Prop := ∀ part, ReflTransGen store.Part part value → part.Lined

theorem AllLined.of_part (lined : store.AllLined value) (held : store.Part part value) : store.AllLined part :=
  fun other reached => lined other (reached.tail held)

theorem exists_bind {first : Except Failure α} {next : α → Except Failure β} (one : ∃ value, first = .ok value)
    (later : ∀ value, ∃ result, next value = .ok result) : ∃ result, (first >>= next) = .ok result := by
  obtain ⟨value, rfl⟩ := one
  exact later value

/-- The text of a finite expression. -/
theorem exists_expressionTextWithin (finite : store.Finite value) {identity : Nat} (named : value = .expression identity) {hops : Nat}
    (enough : store.room value < hops) : ∃ text, store.expressionTextWithin hops identity = .ok text := by
  induction finite generalizing identity hops with
  | intro value inner ih =>
    subst named
    obtain ⟨fewer, rfl⟩ : ∃ fewer, hops = fewer + 1 := ⟨hops - 1, by omega⟩
    rw [expressionTextWithin]
    refine exists_bind (exists_mapM fun fragment member => ?_) fun parts => ⟨String.join parts, rfl⟩
    cases fragment with
    | text value => exact ⟨value, rfl⟩
    | path segments => exact ⟨dotted segments, rfl⟩
    | nested other =>
      have held : store.Part (.expression other) (.expression identity) := .nested member
      exact ih _ held rfl (room_lt_of_part (.expression identity) ⟨_, inner⟩ held (by simp) enough)

theorem exists_expressionText {identity : Nat} (finite : store.Finite (.expression identity)) :
    ∃ text, store.expressionText identity = .ok text :=
  exists_expressionTextWithin finite rfl (Nat.lt_succ_of_le (store.room_le_size _))

theorem shownItems_eq (visit : Target → Except Failure String) (items : List Value) :
    Value.shownItems visit items = items.mapM (Value.shownWith visit) := by
  induction items with
  | nil => rfl
  | cons item rest ih =>
    rw [Value.shownItems, ih, List.mapM_cons]

theorem shownEntries_eq (visit : Target → Except Failure String) (entries : List (Value × Value)) :
    Value.shownEntries visit entries = entries.mapM (Value.shownEntry visit) := by
  induction entries with
  | nil => rfl
  | cons entry rest ih =>
    rw [Value.shownEntries, ih, List.mapM_cons]

theorem exists_wordingWith {shown : Value → Except Failure String} (finite : store.Finite value) (lined : store.AllLined value)
    (told : ∃ text, shown value = .ok text) : ∃ text, store.wordingWith shown value = .ok text := by
  unfold wordingWith
  split
  · exact ⟨_, rfl⟩
  · exact ⟨_, rfl⟩
  · exact ⟨_, rfl⟩
  · exact ⟨_, rfl⟩
  · exact exists_expressionText finite
  · next line output exported =>
    have labelled : (Value.command line output exported).Lined := lined _ .refl
    cases line with
    | text | choice => exact ⟨_, rfl⟩
    | _ => cases labelled
  · exact ⟨_, rfl⟩
  · exact told

/-- A finite value can be shown. -/
theorem exists_shownWith (finite : store.Finite value) (lined : store.AllLined value) {hops : Nat} (enough : store.room value < hops) :
    ∃ text, value.shownWith (store.shownWithin hops) = .ok text := by
  induction finite generalizing hops with
  | intro value inner ih =>
    have finite : store.Finite value := ⟨value, inner⟩
    have parts (part : Value) (held : store.Part part value) : ∃ text, part.shownWith (store.shownWithin hops) = .ok text :=
      ih part held (lined.of_part held) (Nat.lt_of_le_of_lt (room_le_of_part held) enough)
    have settings {settings : List Value} (held : ∀ part ∈ settings, store.Part part value) :
        ∃ texts, Value.shownItems (store.shownWithin hops) settings = .ok texts := by
      rw [shownItems_eq]
      exact exists_mapM fun part member => parts part (held part member)
    have within (target : Target) (named : target.value = value) {fewer : Nat} (enough : store.room value < fewer + 1) {part : Value}
        (held : store.Part part value) : ∃ text, part.shownWith (store.shownWithin fewer) = .ok text := by
      subst named
      by_cases unset : part = .null
      · exact ⟨"None", by rw [unset]; rfl⟩
      · exact ih part held (lined.of_part held) (room_lt_of_part target finite held unset enough)
    cases value with
    | list items => exact exists_bind (settings fun part member => .item member) fun _ => ⟨_, rfl⟩
    | tuple items =>
      match items with
      | [] => exact ⟨_, rfl⟩
      | [item] => exact exists_bind (parts item (.tupleItem List.mem_cons_self)) fun _ => ⟨_, rfl⟩
      | first :: second :: rest => exact exists_bind (settings fun part member => .tupleItem member) fun _ => ⟨_, rfl⟩
    | map entries =>
      refine exists_bind ?_ fun _ => ⟨_, rfl⟩
      rw [shownEntries_eq]
      refine exists_mapM fun (key, item) member => ?_
      exact exists_bind (parts key (.key member)) fun _ => exists_bind (parts item (.entry member)) fun _ => ⟨_, rfl⟩
    | command line output exported => exact exists_bind (parts line (.line line output exported)) fun _ => ⟨_, rfl⟩
    | event kind given => exact exists_bind (settings fun part member => .setting member) fun _ => ⟨_, rfl⟩
    | input kind given => exact exists_bind (settings fun part member => .inputSetting member) fun _ => ⟨_, rfl⟩
    | expression identity =>
      obtain ⟨fewer, rfl⟩ : ∃ fewer, hops = fewer + 1 := ⟨hops - 1, by omega⟩
      exact exists_bind (exists_expressionText finite) fun _ => ⟨_, rfl⟩
    | step identity =>
      obtain ⟨fewer, rfl⟩ : ∃ fewer, hops = fewer + 1 := ⟨hops - 1, by omega⟩
      have held : store.Part (store.step identity).label (.step identity) := by
        unfold Step.label
        split
        · exact .stepField identity .name
        · exact .stepField identity .id
      exact exists_bind (within (.step identity) rfl enough held) fun _ => ⟨_, rfl⟩
    | job identity =>
      obtain ⟨fewer, rfl⟩ : ∃ fewer, hops = fewer + 1 := ⟨hops - 1, by omega⟩
      exact exists_bind (within (.job identity) rfl enough (.jobField identity .name)) fun _ => ⟨_, rfl⟩
    | workflow identity =>
      obtain ⟨fewer, rfl⟩ : ∃ fewer, hops = fewer + 1 := ⟨hops - 1, by omega⟩
      have worded {part : Value} (held : store.Part part (.workflow identity)) :
          ∃ text, store.wordingWith (Value.shownWith (store.shownWithin fewer)) part = .ok text :=
        exists_wordingWith (finite.inv held) (lined.of_part held) (within (.workflow identity) rfl enough held)
      exact exists_bind (worded (.workflowName identity)) fun _ => exists_bind (worded (.fileName identity)) fun _ => ⟨_, rfl⟩
    | _ => exact ⟨_, rfl⟩

/-- What reads inside a text where a finite value stands. -/
theorem exists_wording (finite : store.Finite value) (lined : store.AllLined value) : ∃ text, store.wording value = .ok text :=
  exists_wordingWith finite lined (exists_shownWith finite lined (Nat.lt_succ_of_le (store.room_le_size value)))

end Store

end WorkflowCompiler
