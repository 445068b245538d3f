import WorkflowCompiler.Proofs.RenderingAgreement

/-! The objects that a value holds when it is made from others: none that the others do not hold. -/

namespace WorkflowCompiler

namespace Value

variable {inside : Target → Prop}

def AllWithin (inside : Target → Prop) (values : List Value) : Prop := ∀ value ∈ values, value.Within inside

def EntriesWithin (inside : Target → Prop) (entries : List (Value × Value)) : Prop :=
  ∀ entry ∈ entries, entry.1.Within inside ∧ entry.2.Within inside

def NamedWithin (inside : Target → Prop) (entries : List (String × Value)) : Prop := ∀ entry ∈ entries, entry.2.Within inside

@[simp] theorem within_null : Within inside .null := fun _ holds => nomatch holds

@[simp] theorem within_bool (value : Bool) : Within inside (.bool value) := fun _ holds => nomatch holds

@[simp] theorem within_int (value : Int) : Within inside (.int value) := fun _ holds => nomatch holds

@[simp] theorem within_float (value : Binary64) : Within inside (.float value) := fun _ holds => nomatch holds

@[simp] theorem within_bytes (values : List Nat) : Within inside (.bytes values) := fun _ holds => nomatch holds

@[simp] theorem within_choice (value : Choice) : Within inside (.choice value) := fun _ holds => nomatch holds

@[simp] theorem within_path (segments : List Label) : Within inside (.path segments) := fun _ holds => nomatch holds

@[simp] theorem within_pathLike (identity : Nat) (segments : Value) : Within inside (.pathLike identity segments) :=
  fun _ holds => nomatch holds

@[simp] theorem within_foreign (identity : Nat) (typeName : String) : Within inside (.foreign identity typeName) :=
  fun _ holds => nomatch holds

@[simp] theorem within_function (identity : Nat) : Within inside (.function identity) := fun _ holds => nomatch holds

@[simp] theorem within_failure (identity : Nat) (failure : Failure) : Within inside (.failure identity failure) :=
  fun _ holds => nomatch holds

/-- A value that names an object holds nothing else. -/
theorem within_target {value : Value} {target : Target} (named : value.target? = some target) :
    value.Within inside ↔ inside target := by
  refine ⟨fun within => within target (.self named), fun known other holds => ?_⟩
  cases value <;> cases named <;> cases holds <;> rename_i same <;> cases same <;> exact known

@[simp] theorem within_command {line output exported : Value} :
    Within inside (.command line output exported) ↔ line.Within inside := by
  refine ⟨fun within target holds => within target (.line holds), fun within target holds => ?_⟩
  cases holds with
  | self named => cases named
  | line inner => exact within target inner

@[simp] theorem within_tuple {items : List Value} : Within inside (.tuple items) ↔ AllWithin inside items := by
  refine ⟨fun within item member target holds => within target (.tupleItem member holds), fun within target holds => ?_⟩
  cases holds with
  | self named => cases named
  | tupleItem member inner => exact within _ member target inner

@[simp] theorem within_event {kind : EventKind} {settings : List Value} :
    Within inside (.event kind settings) ↔ AllWithin inside settings := by
  refine ⟨fun within item member target holds => within target (.setting member holds), fun within target holds => ?_⟩
  cases holds with
  | self named => cases named
  | setting member inner => exact within _ member target inner

@[simp] theorem within_input {kind : InputKind} {settings : List Value} :
    Within inside (.input kind settings) ↔ AllWithin inside settings := by
  refine ⟨fun within item member target holds => within target (.inputSetting member holds), fun within target holds => ?_⟩
  cases holds with
  | self named => cases named
  | inputSetting member inner => exact within _ member target inner

section

variable {value : Value} {values : List Value} {entries more : List (Value × Value)} {named : List (String × Value)}

@[simp] theorem allWithin_nil : AllWithin inside [] := fun _ member => nomatch member

@[simp] theorem allWithin_cons : AllWithin inside (value :: values) ↔ value.Within inside ∧ AllWithin inside values :=
  List.forall_mem_cons

@[simp] theorem allWithin_append {others : List Value} :
    AllWithin inside (values ++ others) ↔ AllWithin inside values ∧ AllWithin inside others :=
  List.forall_mem_append

@[simp] theorem entriesWithin_nil : EntriesWithin inside [] := fun _ member => nomatch member

@[simp] theorem entriesWithin_cons {entry : Value × Value} :
    EntriesWithin inside (entry :: entries) ↔ (entry.1.Within inside ∧ entry.2.Within inside) ∧ EntriesWithin inside entries :=
  List.forall_mem_cons

@[simp] theorem entriesWithin_append :
    EntriesWithin inside (entries ++ more) ↔ EntriesWithin inside entries ∧ EntriesWithin inside more :=
  List.forall_mem_append

/-- Objects may have come about in the meantime. -/
theorem Within.mono {wider : Target → Prop} (within : value.Within inside) (known : ∀ target, inside target → wider target) :
    value.Within wider :=
  fun target holds => known target (within target holds)

theorem within_getD {found : Option Value} {default : Value} (onFound : ∀ value, found = some value → value.Within inside)
    (onDefault : default.Within inside) : (found.getD default).Within inside := by
  cases found with
  | none => exact onDefault
  | some value => exact onFound value rfl

theorem NamedWithin.lookup (within : NamedWithin inside named) {name : String} (found : named.lookup name = some value) :
    value.Within inside := by
  obtain ⟨before, after, rfl, -⟩ := List.lookup_eq_some_iff.mp found
  exact within _ (List.mem_append_right _ List.mem_cons_self)

theorem namedWithin_zip (names : List String) (within : AllWithin inside values) : NamedWithin inside (names.zip values) :=
  fun _ member => within _ (List.of_mem_zip member).2

theorem AllWithin.asList (within : value.Within inside) : AllWithin inside value.asList := by
  cases value with
  | null => simp [Value.asList]
  | list items => exact within_list.mp within
  | tuple items => exact within_tuple.mp within
  | _ => exact allWithin_cons.mpr ⟨within, allWithin_nil⟩

theorem gives_iterate (within : value.Within inside) : Gives (AllWithin inside) value.iterate :=
  fun _ listed => iterate_within within listed

theorem gives_insertKey (onItem : α → Prop) {key : Value} {item : α} {entries : List (Value × α)} (onKey : key.Within inside)
    (fine : onItem item) (all : ∀ entry ∈ entries, entry.1.Within inside ∧ onItem entry.2) :
    Gives (fun entries => ∀ entry ∈ entries, entry.1.Within inside ∧ onItem entry.2) (insertKey entries key item) := by
  unfold insertKey
  split
  · exact gives_ok (forall_mem_insert (Within inside) onItem onKey fine all)
  · exact gives_error _ _

theorem gives_ofEntries (within : EntriesWithin inside entries) : Gives (EntriesWithin inside) (ofEntries entries) := by
  have onEach (found : List (Value × Value)) (already : EntriesWithin inside found) :
      Gives (EntriesWithin inside) (entries.foldlM (fun found entry => insertKey found entry.1 entry.2) found) := by
    induction entries generalizing found with
    | nil => exact gives_ok already
    | cons entry rest ih =>
      obtain ⟨⟨onKey, onItem⟩, others⟩ := entriesWithin_cons.mp within
      exact (gives_insertKey (Within inside) onKey onItem already).bind fun found fine => ih others found fine
  exact onEach [] entriesWithin_nil

theorem gives_toEntries (within : value.Within inside) : Gives (EntriesWithin inside) value.toEntries := by
  unfold toEntries
  split
  · exact gives_ok (within_map.mp within)
  · exact gives_error _ _
  · refine (gives_iterate within).bind fun items onItems => ?_
    refine Gives.bind (show Gives (EntriesWithin inside) _ from gives_mapM fun item member => ?_) fun _ => gives_ofEntries
    have onItem : item.1.Within inside := by
      obtain ⟨_, there⟩ := List.mem_zipIdx' member
      exact there ▸ onItems _ (List.getElem_mem _)
    refine (gives_iterate onItem).bind fun parts onParts => ?_
    split
    · exact gives_ok (by simpa using onParts)
    · exact gives_error _ _

theorem gives_itemEntries (within : value.Within inside) : Gives (EntriesWithin inside) value.itemEntries := by
  unfold itemEntries
  split
  · exact gives_ok (within_map.mp within)
  · exact gives_error _ _
  · exact gives_error _ _

end

end Value

namespace Event

open Value

variable {inside : Target → Prop} {kind : EventKind} {settings : List Value} {value : Value}

/-- A setting that is not given is null. -/
theorem setting_within {named : List (String × Value)} (within : NamedWithin inside named) (name : String) :
    ((named.lookup name).getD .null).Within inside :=
  within_getD (fun _ found => within.lookup found) within_null

theorem gives_filters {named : List (String × Value)} (within : NamedWithin inside named) : Gives (Within inside) (filters named) := by
  refine (gives_filterM within).bind fun present fine => ?_
  cases present with
  | nil => exact gives_ok within_null
  | cons first rest =>
    refine gives_ok (within_map.mpr fun entry member => ?_)
    obtain ⟨setting, there, rfl⟩ := List.mem_map.mp member
    exact ⟨within_text _, fine setting there⟩

theorem gives_entryIfSet (name : String) (within : value.Within inside) : Gives (EntriesWithin inside) (entryIfSet name value) := by
  refine gives_bind fun set => ?_
  split
  · exact gives_ok (by simpa using within)
  · exact gives_ok entriesWithin_nil

theorem singleton_within (name : String) (within : value.Within inside) : EntriesWithin inside (singleton name value) := by
  simpa [singleton] using within

theorem gives_inputEntries {kind : InputKind} (within : AllWithin inside settings) :
    Gives (EntriesWithin inside) (inputEntries kind settings) := by
  have setting := setting_within (namedWithin_zip kind.settingNames within)
  have optional (name : String) : EntriesWithin inside
      (if (((kind.settingNames.zip settings).lookup name).getD .null).isNull then []
        else [(.text name, ((kind.settingNames.zip settings).lookup name).getD .null)]) := by
    split
    · exact entriesWithin_nil
    · exact singleton_within _ (setting name)
  have types : EntriesWithin inside
      [(.text "required", ((kind.settingNames.zip settings).lookup "required").getD .null), (.text "type", .text kind.typeText)] := by
    simpa using setting "required"
  have lines {options : List (Value × Value)} (onOptions : EntriesWithin inside options) :=
    entriesWithin_append.mpr ⟨entriesWithin_append.mpr ⟨entriesWithin_append.mpr ⟨optional "description", types⟩,
      optional "default"⟩, onOptions⟩
  unfold inputEntries
  cases kind
  case choice =>
    exact (gives_iterate (setting "options")).bind fun items onItems =>
      gives_ok (lines (singleton_within _ (within_list.mpr onItems)))
  all_goals exact gives_ok (lines entriesWithin_nil)

theorem gives_inputsSection (within : value.Within inside) : Gives (Within inside) (inputsSection value) := by
  refine (gives_itemEntries within).bind fun entries onEntries => ?_
  refine Gives.bind (show Gives (EntriesWithin inside) _ from gives_mapM fun entry member => ?_) fun described onDescribed =>
    gives_ok (within_map.mpr onDescribed)
  obtain ⟨name, value⟩ := entry
  obtain ⟨onName, onValue⟩ := onEntries _ member
  cases value with
  | input kind settings =>
    exact (gives_inputEntries (within_input.mp onValue)).bind fun described fine => gives_ok ⟨onName, within_map.mpr fine⟩
  | _ => exact (gives_toEntries onValue).bind fun described fine => gives_ok ⟨onName, within_map.mpr fine⟩

theorem section_within {entries : List (Value × Value)} (within : EntriesWithin inside entries) : (section? entries).Within inside := by
  unfold section?
  split
  · exact within_null
  · exact within_map.mpr within

theorem gives_named {name : String} {options : Except Failure Value} (fine : Gives (Within inside) options) :
    Gives (EntriesWithin inside) (return singleton name (← options)) :=
  fine.bind fun _ within => gives_ok (singleton_within _ within)

theorem gives_simpleEntries (within : AllWithin inside settings) : Gives (EntriesWithin inside) (simpleEntries kind settings) := by
  have named := namedWithin_zip kind.settingNames within
  have setting := setting_within named
  unfold simpleEntries
  cases kind
  case push => exact gives_named (gives_filters named)
  case pullRequest =>
    refine gives_bind fun target => ?_
    have rest (kept : String × Value → Bool) : Gives (Within inside) (filters ((EventKind.pullRequest.settingNames.zip settings).filter kept)) :=
      gives_filters fun entry member => named entry (List.mem_filter.mp member).1
    cases target <;> exact gives_named (rest _)
  case schedule =>
    refine (gives_iterate (setting "crons")).bind fun crons onCrons => gives_ok (singleton_within _ (within_list.mpr fun item member => ?_))
    obtain ⟨cron, there, rfl⟩ := List.mem_map.mp member
    exact within_map.mpr (singleton_within _ (onCrons cron there))
  case dispatch =>
    refine gives_bind fun inputs => ?_
    cases inputs
    · exact gives_ok (singleton_within _ within_null)
    · exact (gives_inputsSection (setting "inputs")).bind fun listed onListed =>
        gives_ok (singleton_within _ (within_map.mpr (singleton_within _ onListed)))
  case call =>
    have rest (inputs : List (Value × Value)) (onInputs : EntriesWithin inside inputs) :=
      (gives_entryIfSet "outputs" (setting "outputs")).bind fun outputs onOutputs =>
        (gives_entryIfSet "secrets" (setting "secrets")).bind fun secrets onSecrets =>
          gives_ok (singleton_within "workflow_call" (section_within
            (entriesWithin_append.mpr ⟨entriesWithin_append.mpr ⟨onInputs, onOutputs⟩, onSecrets⟩)))
    refine gives_bind fun inputs => ?_
    cases inputs
    · exact rest [] entriesWithin_nil
    · exact (gives_inputsSection (setting "inputs")).bind fun listed onListed => rest _ (singleton_within _ onListed)
  case run =>
    exact (gives_iterate (setting "workflows")).bind fun workflows onWorkflows =>
      (gives_entryIfSet _ (setting "types")).bind fun types onTypes =>
        (gives_entryIfSet _ (setting "branches")).bind fun branches onBranches =>
          gives_ok (singleton_within _ (within_map.mpr
            (entriesWithin_append.mpr ⟨entriesWithin_append.mpr ⟨singleton_within _ (within_list.mpr onWorkflows), onTypes⟩, onBranches⟩)))
  case anyOf => exact gives_ok entriesWithin_nil
  case abstract => exact gives_error _ _

theorem update_within {entries more : List (Value × Value)} (within : EntriesWithin inside entries) (onMore : EntriesWithin inside more) :
    EntriesWithin inside (update entries more) := by
  induction more generalizing entries with
  | nil => exact within
  | cons entry rest ih =>
    obtain ⟨⟨onKey, onValue⟩, others⟩ := entriesWithin_cons.mp onMore
    exact ih (forall_mem_insert (Within inside) (Within inside) onKey onValue within) others

mutual

theorem gives_entries (value : Value) (within : value.Within inside) : Gives (EntriesWithin inside) (entries value) := by
  unfold entries
  split
  · next parts =>
    exact gives_combinedEntries parts (within_list.mp (allWithin_cons.mp (within_event.mp within)).1) entriesWithin_nil
  · next parts =>
    exact gives_combinedEntries parts (within_tuple.mp (allWithin_cons.mp (within_event.mp within)).1) entriesWithin_nil
  · refine gives_bind fun parts => ?_
    cases parts
    · exact gives_ok entriesWithin_nil
    · exact gives_error _ _
  · exact gives_simpleEntries (within_event.mp within)
  · exact gives_inputEntries (within_input.mp within)
  · exact gives_error _ _
  · exact gives_error _ _

theorem gives_combinedEntries {found : List (Value × Value)} (parts : List Value) (within : AllWithin inside parts)
    (onFound : EntriesWithin inside found) : Gives (EntriesWithin inside) (combinedEntries found parts) := by
  cases parts with
  | nil => exact gives_ok onFound
  | cons part rest =>
    obtain ⟨onPart, others⟩ := allWithin_cons.mp within
    unfold combinedEntries
    exact (gives_entries part onPart).bind fun entries fine => gives_combinedEntries rest others (update_within onFound fine)

end

theorem gives_join {other : Value} (within : AllWithin inside settings) (onOther : other.Within inside) :
    Gives (Within inside) (join kind settings other) := by
  have joined {parts : List Value} (onParts : AllWithin inside parts) : (Value.event .anyOf [.list parts]).Within inside :=
    within_event.mpr (allWithin_cons.mpr ⟨within_list.mpr onParts, allWithin_nil⟩)
  unfold join
  split
  · exact gives_ok (joined (allWithin_append.mpr ⟨within_list.mp (allWithin_cons.mp within).1, by simpa using onOther⟩))
  · exact gives_error _ _
  · exact gives_ok (joined (by simpa using ⟨within, onOther⟩))

end Event

end WorkflowCompiler
