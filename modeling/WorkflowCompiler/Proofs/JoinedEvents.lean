import WorkflowCompiler.Proofs.BuiltObjects

/-! Events joined to one another. However they are joined, taking up the whole leaves a workflow with
the events that taking them up one by one from left to right leaves: each at the place of its first
occurrence, with the options of its last. -/

namespace WorkflowCompiler

namespace Workflow

variable {name other : String} {value old : α} {found puts : List (String × α)}

/-- Values put under names one after the other. -/
def putAll (puts found : List (String × α)) : List (String × α) :=
  puts.foldl (fun found put => putNamed put.1 put.2 found) found

@[simp] theorem putAll_nil : putAll [] found = found := rfl

@[simp] theorem putAll_cons {put : String × α} : putAll (put :: puts) found = putAll puts (putNamed put.1 put.2 found) := rfl

@[simp] theorem putAll_append {more : List (String × α)} : putAll (puts ++ more) found = putAll more (putAll puts found) :=
  List.foldl_append

theorem mem_keys_putNamed : other ∈ (putNamed name value found).map Prod.fst ↔ other = name ∨ other ∈ found.map Prod.fst := by
  rw [putNamed_keys]
  split
  · next member => exact ⟨.inr, fun either => either.elim (· ▸ member) id⟩
  · rw [List.mem_append, List.mem_singleton, or_comm]

/-- Of two values put under one name the later counts. -/
theorem putNamed_putNamed : putNamed name value (putNamed name old found) = putNamed name value found := by
  induction found with
  | nil => simp [putNamed]
  | cons entry rest ih =>
    obtain ⟨first, _⟩ := entry
    by_cases same : first = name <;> simp [putNamed, same, ih]

/-- What is put under a name that is there already may be put before another name or behind it. -/
theorem putNamed_comm (there : name ∈ found.map Prod.fst) (apart : name ≠ other) (late : α) :
    putNamed name value (putNamed other late found) = putNamed other late (putNamed name value found) := by
  induction found with
  | nil => cases there
  | cons entry rest ih =>
    obtain ⟨first, _⟩ := entry
    by_cases same : first = name
    · subst same
      simp [putNamed, apart]
    · have later : name ∈ rest.map Prod.fst := (List.mem_cons.mp there).resolve_left (Ne.symm same)
      by_cases second : first = other
      · subst second
        simp [putNamed, same]
      · simp [putNamed, same, second, ih later]

theorem putAll_putNamed (there : name ∈ found.map Prod.fst) (absent : name ∉ puts.map Prod.fst) :
    putAll puts (putNamed name value found) = putNamed name value (putAll puts found) := by
  induction puts generalizing found with
  | nil => rfl
  | cons put rest ih =>
    obtain ⟨apart, absent⟩ := not_or.mp (mt List.mem_cons.mpr absent)
    rw [putAll_cons, putAll_cons, ← putNamed_comm there apart, ih (mem_keys_putNamed.mpr (.inr there)) absent]

/-- A value put among those to be put is as good as put behind them. -/
theorem putAll_of_putNamed (distinct : (puts.map Prod.fst).Nodup) (found : List (String × α)) :
    putAll (putNamed name value puts) found = putNamed name value (putAll puts found) := by
  induction puts generalizing found with
  | nil => rfl
  | cons put rest ih =>
    obtain ⟨key, early⟩ := put
    obtain ⟨new, distinct⟩ := List.nodup_cons.mp distinct
    by_cases same : key = name
    · subst same
      have there : key ∈ (putNamed key early found).map Prod.fst := mem_keys_putNamed.mpr (.inl rfl)
      rw [putNamed, if_pos rfl, putAll_cons, putAll_cons, ← putAll_putNamed there new, putNamed_putNamed]
    · rw [putNamed, if_neg same, putAll_cons, putAll_cons, ih distinct]

theorem nodup_putAll (distinct : (found.map Prod.fst).Nodup) : ((putAll puts found).map Prod.fst).Nodup := by
  induction puts generalizing found with
  | nil => exact distinct
  | cons put rest ih => exact ih (nodup_putNamed distinct)

/-- Values put into an empty mapping, and the mapping put then, are as good as put one by one. -/
theorem putAll_putAll (puts found : List (String × α)) : putAll (putAll puts []) found = putAll puts found := by
  induction puts using List.reverseRecOn with
  | nil => rfl
  | append_singleton puts put ih =>
    rw [putAll_append, putAll_append, putAll_cons, putAll_nil, putAll_of_putNamed (nodup_putAll (by simp)), ih]
    rfl

/-- A mapping is what putting its own entries comes to. -/
theorem putAll_self (distinct : (found.map Prod.fst).Nodup) : putAll found [] = found := by
  induction found using List.reverseRecOn with
  | nil => rfl
  | append_singleton found put ih =>
    rw [List.map_append, List.map_singleton] at distinct
    obtain ⟨before, -, apart⟩ := List.nodup_append.mp distinct
    have fresh : put.1 ∉ found.map Prod.fst := fun member => apart _ member _ List.mem_cons_self rfl
    rw [putAll_append, ih before, putAll_cons, putAll_nil, putNamed_fresh fresh]

end Workflow

namespace Event

/-- Entries that are named by texts, under their names. -/
def puts (entries : List (Value × Value)) : List (String × Value) :=
  entries.map fun entry => (entry.1.chars?.getD "", entry.2)

theorem text_puts {entries : List (Value × Value)} (named : AllNamed entries) :
    (puts entries).map (fun put => (.text put.1, put.2)) = entries := by
  rw [puts, List.map_map]
  refine (List.map_congr_left fun entry member => ?_).trans (List.map_id entries)
  obtain ⟨name, same⟩ := named entry member
  exact Prod.ext (by simp [same, Value.chars?, Value.label?, Label.chars]) rfl

theorem puts_update {entries more : List (Value × Value)} (named : AllNamed entries) (onMore : AllNamed more) :
    puts (update entries more) = Workflow.putAll (puts more) (puts entries) := by
  induction more generalizing entries with
  | nil => rfl
  | cons entry rest ih =>
    obtain ⟨key, value⟩ := entry
    obtain ⟨⟨name, rfl⟩, others⟩ := List.forall_mem_cons.mp onMore
    have apart : ∀ entry ∈ entries, Value.equals (.text name) entry.1 =
        ((Value.text name).chars?.getD "" == entry.1.chars?.getD "") := by
      intro entry member
      obtain ⟨other, same⟩ := named entry member
      rw [same]
      exact Store.equals_ofLabel (.text name) (.text other)
    have put : puts (Value.insert (.text name) value entries) = Workflow.putNamed name value (puts entries) :=
      @insert_named _ (fun key => key.chars?.getD "") (.text name) value entries apart
    have still : AllNamed (Value.insert (.text name) value entries) := allNamed_insert named
    have later := ih still others
    rw [put] at later
    exact later

theorem distinct_combinedEntries {found : List (Value × Value)} (named : AllNamed found) (distinct : ((puts found).map Prod.fst).Nodup)
    (parts : List Value) : Gives (fun entries => ((puts entries).map Prod.fst).Nodup) (combinedEntries found parts) := by
  induction parts generalizing found with
  | nil => exact gives_ok distinct
  | cons part rest ih =>
    unfold combinedEntries
    refine (entries_named part).bind fun entries onPart => ih (allNamed_update named onPart) ?_
    rw [puts_update named onPart]
    exact Workflow.nodup_putAll distinct

theorem distinct_simpleEntries (kind : EventKind) (settings : List Value) :
    Gives (fun entries => ((puts entries).map Prod.fst).Nodup) (simpleEntries kind settings) := by
  by_cases joined : kind = .anyOf
  · subst joined
    exact gives_ok List.nodup_nil
  · intro entries listed
    obtain ⟨name, options, rfl⟩ := simpleEntries_single joined settings entries listed
    exact List.nodup_singleton name

theorem distinct_inputEntries (kind : InputKind) (settings : List Value) :
    Gives (fun entries => ((puts entries).map Prod.fst).Nodup) (inputEntries kind settings) := by
  have distinct {description required default : Value} {type : String} {options : List (Value × Value)}
      (onOptions : options = [] ∨ ∃ choices, options = [(.text "options", choices)]) :
      ((puts ((if description.isNull then [] else [(Value.text "description", description)])
        ++ [(Value.text "required", required), (Value.text "type", Value.text type)]
        ++ (if default.isNull then [] else [(Value.text "default", default)]) ++ options)).map Prod.fst).Nodup := by
    rcases onOptions with rfl | ⟨choices, rfl⟩ <;> split <;> split <;> simp [puts, Value.chars?, Value.label?, Label.chars]
  unfold inputEntries
  cases kind
  case choice => exact gives_bind fun _ => gives_ok (distinct (.inr ⟨_, rfl⟩))
  all_goals exact gives_ok (distinct (.inl rfl))

/-- No two entries have one name. -/
theorem distinct_entries (value : Value) : Gives (fun found => ((puts found).map Prod.fst).Nodup) (entries value) := by
  unfold entries
  split
  · exact distinct_combinedEntries allNamed_nil List.nodup_nil _
  · exact distinct_combinedEntries allNamed_nil List.nodup_nil _
  · refine gives_bind fun parts => ?_
    cases parts
    · exact gives_ok List.nodup_nil
    · exact gives_error _ _
  · exact distinct_simpleEntries _ _
  · exact distinct_inputEntries _ _
  · exact gives_error _ _
  · exact gives_error _ _

/-- Taking up entries has put the values that were to be put, or has failed where telling them fails. -/
inductive Takes (found : List (String × Value)) :
    Except Failure (List (Value × Value)) → Except Failure (List (String × Value)) → Prop
  | fails (failure : Failure) : Takes found (.error failure) (.error failure)
  | done {entries : List (Value × Value)} {all : List (String × Value)} (named : AllNamed entries)
      (taken : puts entries = Workflow.putAll all found) : Takes found (.ok entries) (.ok all)

variable {found : List (Value × Value)} {first : Except Failure (List (Value × Value))} {all : Except Failure (List (String × Value))}

/-- Entries taken up on their own, and then among those that there are. -/
theorem Takes.among (takes : Takes [] first all) (named : AllNamed found) :
    Takes (puts found) (do return Event.update found (← first)) all := by
  cases takes with
  | fails failure => exact .fails failure
  | done onMore taken =>
    refine .done (allNamed_update named onMore) ?_
    rw [puts_update named onMore, taken, Workflow.putAll_putAll]

theorem Takes.bind {before : List (String × Value)} {next : List (Value × Value) → Except Failure (List (Value × Value))}
    {more : Except Failure (List (String × Value))} (takes : Takes before first all)
    (onNext : ∀ entries, AllNamed entries → Takes (puts entries) (next entries) more) :
    Takes before (first >>= next) (do return (← all) ++ (← more)) := by
  cases takes with
  | fails failure => exact .fails failure
  | @done entries all named taken =>
    show Takes before (next entries) (do return all ++ (← more))
    have later := onNext entries named
    revert later
    rcases next entries with _ | last
    · intro later
      cases later
      exact .fails _
    · rintro (_ | ⟨named, last⟩)
      refine .done named ?_
      rw [last, taken, Workflow.putAll_append]

/-- Named entries that put the same are the same. -/
theorem Takes.unique {before : List (String × Value)} {second : Except Failure (List (Value × Value))}
    (takes : Takes before first all) (others : Takes before second all) : first = second := by
  cases takes with
  | fails failure =>
    cases others
    rfl
  | done named taken =>
    cases others with
    | done onOthers also => rw [← text_puts named, ← text_puts onOthers, taken, also]

/-- What is to be put may be put into an empty mapping first. -/
theorem Takes.mapping {before : List (String × Value)} (takes : Takes before first all) :
    Takes before first (do return Workflow.putAll (← all) []) := by
  cases takes with
  | fails failure => exact .fails failure
  | done named taken => exact .done named (taken.trans (Workflow.putAll_putAll _ _).symm)

/-- The values that an event puts. -/
def putsOf (event : Value) : Except Failure (List (String × Value)) := do return puts (← entries event)

theorem takes_entries (event : Value) : Takes [] (entries event) (putsOf event) := by
  rw [putsOf]
  cases listed : entries event with
  | error failure => exact .fails failure
  | ok found => exact .done (entries_named event found listed) (Workflow.putAll_self (distinct_entries event found listed)).symm

/-- What an event is to be joined from: the parts of an event joined before, or the event itself. -/
def partsOf : Value → List Value
  | .event .anyOf [.list parts] => parts
  | event => [event]

theorem combinedEntries_append (found : List (Value × Value)) (parts more : List Value) :
    combinedEntries found (parts ++ more) = (do combinedEntries (← combinedEntries found parts) more) := by
  induction parts generalizing found with
  | nil => rfl
  | cons part rest ih =>
    rw [List.cons_append, combinedEntries, combinedEntries]
    cases entries part with
    | error failure => rfl
    | ok entries => exact ih _

theorem combinedEntries_singleton (found : List (Value × Value)) (part : Value) :
    combinedEntries found [part] = (do return Event.update found (← Event.entries part)) := by
  rw [combinedEntries]
  cases Event.entries part <;> rfl

theorem takes_single {found : List (Value × Value)} (part : Value) (named : AllNamed found) :
    Takes (puts found) (combinedEntries found [part]) (putsOf part) := by
  rw [combinedEntries_singleton]
  exact (takes_entries part).among named

/-- One more part puts what it puts on its own. -/
theorem Takes.append {before : List (String × Value)} {found : List (Value × Value)} {parts : List Value} {last : Value}
    {all more : Except Failure (List (String × Value))} (takes : Takes before (combinedEntries found parts) all)
    (onLast : Takes [] (entries last) more) :
    Takes before (combinedEntries found (parts ++ [last])) (do return (← all) ++ (← more)) := by
  rw [combinedEntries_append]
  refine takes.bind fun entries named => ?_
  rw [combinedEntries_singleton]
  exact onLast.among named

/-- What parts put one after the other is what the event joined from them puts. -/
theorem takes_combinedEntries (parts : List Value) {found : List (Value × Value)} (named : AllNamed found) :
    Takes (puts found) (combinedEntries found parts) (putsOf (.event .anyOf [.list parts])) := by
  have onAny : ∃ all, ∀ found, AllNamed found → Takes (puts found) (combinedEntries found parts) all := by
    induction parts using List.reverseRecOn with
    | nil => exact ⟨.ok [], fun found named => .done named rfl⟩
    | append_singleton parts last ih =>
      obtain ⟨all, takes⟩ := ih
      exact ⟨_, fun found named => (takes found named).append (takes_entries last)⟩
  obtain ⟨all, takes⟩ := onAny
  have alone : putsOf (.event .anyOf [.list parts]) = (do return Workflow.putAll (← all) []) := by
    have alone := takes [] allNamed_nil
    rw [putsOf, entries]
    revert alone
    rcases combinedEntries [] parts with _ | last
    · intro alone
      cases alone
      rfl
    · rintro (_ | ⟨_, taken⟩)
      exact congrArg Except.ok taken
  rw [alone]
  exact (takes found named).mapping

end Event

/-- Events joined to one another, two by two. One that has been joined before has its parts in a list. -/
inductive EventTree
  | event (kind : EventKind) (settings : List Value) (joinable : kind = .anyOf → ∃ parts, settings = [.list parts])
  | either (left right : EventTree)

namespace EventTree

def joined : EventTree → Build Value
  | event kind settings _ => return .event kind settings
  | either left right => do
    let left ← left.joined
    Build.disjoin left (← right.joined)

/-- From left to right. -/
def leaves : EventTree → List Value
  | event kind settings _ => [.event kind settings]
  | either left right => left.leaves ++ right.leaves

/-- What the joining comes to. -/
def value : EventTree → Value
  | event kind settings _ => .event kind settings
  | either left right => .event .anyOf [.list (Event.partsOf left.value ++ [right.value])]

theorem value_event (tree : EventTree) : ∃ kind settings, tree.value = .event kind settings := by
  cases tree <;> exact ⟨_, _, rfl⟩

theorem leaves_events (tree : EventTree) : ∀ leaf ∈ tree.leaves, ∃ kind settings, leaf = .event kind settings := by
  induction tree with
  | event kind settings joinable => exact List.forall_mem_singleton.mpr ⟨kind, settings, rfl⟩
  | either left right onLeft onRight => exact List.forall_mem_append.mpr ⟨onLeft, onRight⟩

theorem run_disjoin (tree : EventTree) (other : Value) (workspace : Workspace) :
    (Build.disjoin tree.value other).run workspace =
      (.ok (.event .anyOf [.list (Event.partsOf tree.value ++ [other])]), workspace) := by
  cases tree with
  | event kind settings joinable =>
    cases kind with
    | anyOf =>
      obtain ⟨parts, rfl⟩ := joinable rfl
      rfl
    | push | pullRequest | schedule | dispatch | call | run | abstract => rfl
  | either left right => rfl

theorem run_joined (tree : EventTree) (workspace : Workspace) : tree.joined.run workspace = (.ok tree.value, workspace) := by
  induction tree with
  | event kind settings joinable => rfl
  | either left right onLeft onRight =>
    rw [joined, Build.run_bind_ok onLeft, Build.run_bind_ok onRight, run_disjoin]
    rfl

/-- The values that the leaves put one after the other. -/
def puts (tree : EventTree) : Except Failure (List (String × Value)) := do return (← tree.leaves.mapM Event.putsOf).flatten

theorem puts_event (kind : EventKind) (settings : List Value) (joinable : kind = .anyOf → ∃ parts, settings = [.list parts]) :
    (event kind settings joinable).puts = Event.putsOf (.event kind settings) := by
  rw [puts, leaves, List.mapM_cons, List.mapM_nil]
  cases Event.putsOf (.event kind settings) with
  | error failure => rfl
  | ok all => exact congrArg Except.ok (List.append_nil all)

theorem puts_either (left right : EventTree) : (either left right).puts = (do return (← left.puts) ++ (← right.puts)) := by
  rw [puts, puts, puts, leaves, List.mapM_append]
  cases left.leaves.mapM Event.putsOf with
  | error failure => rfl
  | ok first =>
    cases right.leaves.mapM Event.putsOf with
    | error failure => rfl
    | ok second => exact congrArg Except.ok List.flatten_append

/-- However the leaves are joined, what comes of it puts what they put one after the other, on its own
and as the first of several parts. -/
theorem takes (tree : EventTree) :
    Event.Takes [] (Event.entries tree.value) tree.puts ∧ ∀ found, Event.AllNamed found →
      Event.Takes (Event.puts found) (Event.combinedEntries found (Event.partsOf tree.value)) tree.puts := by
  induction tree with
  | event kind settings joinable =>
    rw [puts_event]
    refine ⟨Event.takes_entries _, fun found named => ?_⟩
    cases kind with
    | anyOf =>
      obtain ⟨parts, rfl⟩ := joinable rfl
      exact Event.takes_combinedEntries parts named
    | push | pullRequest | schedule | dispatch | call | run | abstract =>
      exact Event.takes_single _ named
  | either left right onLeft onRight =>
    rw [puts_either]
    have joined (found : List (Value × Value)) (named : Event.AllNamed found) :=
      (onLeft.2 found named).append onRight.1
    exact ⟨joined [] Event.allNamed_nil, joined⟩

end EventTree

namespace Workspace

/-- A workspace in which values have been put among the events of a workflow. -/
def withEvents (workspace : Workspace) (workflow : Nat) (puts : List (String × Value)) : Workspace :=
  workspace.withWorkflow workflow fun changed => { changed with events := Workflow.putAll puts changed.events }

theorem withEvents_nil (workspace : Workspace) (workflow : Nat) : workspace.withEvents workflow [] = workspace :=
  workspace.withWorkflow_id workflow

theorem withEvents_append (workspace : Workspace) (workflow : Nat) (puts more : List (String × Value)) :
    (workspace.withEvents workflow puts).withEvents workflow more = workspace.withEvents workflow (puts ++ more) := by
  rw [withEvents, withEvents, withEvents, withWorkflow_withWorkflow]
  congr
  funext changed
  simp

theorem withEvents_putAll (workspace : Workspace) (workflow : Nat) (puts : List (String × Value)) :
    workspace.withEvents workflow (Workflow.putAll puts []) = workspace.withEvents workflow puts := by
  rw [withEvents, withEvents]
  simp only [Workflow.putAll_putAll]

theorem events_withEvents {workspace : Workspace} {workflow : Nat} (has : workspace.store.Has (.workflow workflow))
    (distinct : ((workspace.store.workflow workflow).events.map Prod.fst).Nodup) (puts : List (String × Value)) :
    ((workspace.withEvents workflow puts).store.workflow workflow).events =
      mapping ((workspace.store.workflow workflow).events ++ puts) := by
  rw [withEvents, workflow_withWorkflow has, mapping_eq_foldl]
  exact (Workflow.putAll_append.trans (congrArg _ (Workflow.putAll_self distinct))).symm

end Workspace

namespace Build

variable {call : Call}

/-- An event is taken up as a whole, or not at all. -/
theorem run_on (workflow : Nat) (kind : EventKind) (settings : List Value) (workspace : Workspace) :
    (callMethod call (.workflow workflow) "on" [.event kind settings]).run workspace =
      match Event.putsOf (.event kind settings) with
      | .ok puts => (.ok (.workflow workflow), workspace.withEvents workflow puts)
      | .error failure => (.error failure, workspace) := by
  have started : (callMethod call (.workflow workflow) "on" [.event kind settings]).run workspace =
      (ofExcept (Event.entries (.event kind settings)) >>= addEvents workflow >>= fun _ => pure (.workflow workflow)).run workspace := by
    simp [callMethod, callWorkflow, addEvent, Value.isNull]
  rw [started, Event.putsOf]
  cases listed : Event.entries (.event kind settings) with
  | error failure => rfl
  | ok entries =>
    have named := Event.entries_named _ entries listed
    have added : (ofExcept (.ok entries) >>= addEvents workflow).run workspace = (.ok (), workspace.withEvents workflow (Event.puts entries)) := by
      rw [run_bind_ok (run_ofExcept_ok entries workspace), run_addEvents named]
      congr
      funext changed
      exact foldl_addEntry named changed
    rw [run_bind_ok added]
    rfl

/-- Events taken up one after the other. -/
def onEach (call : Call) (workflow : Nat) : List Value → Build Unit
  | [] => return ()
  | event :: rest => do
    let _ ← callMethod call (.workflow workflow) "on" [event]
    onEach call workflow rest

/-- Up to the first event that cannot be taken up, each puts its values. -/
theorem run_onEach (workflow : Nat) {events : List Value} (known : ∀ event ∈ events, ∃ kind settings, event = .event kind settings)
    (workspace : Workspace) :
    match events.mapM Event.putsOf with
    | .ok lists => (onEach call workflow events).run workspace = (.ok (), workspace.withEvents workflow lists.flatten)
    | .error failure => ((onEach call workflow events).run workspace).1 = .error failure := by
  induction events generalizing workspace with
  | nil => exact congrArg (Prod.mk (Except.ok ())) (workspace.withEvents_nil workflow).symm
  | cons event rest ih =>
    obtain ⟨⟨kind, settings, rfl⟩, later⟩ := List.forall_mem_cons.mp known
    have first := @run_on call workflow kind settings workspace
    rw [onEach, List.mapM_cons]
    cases listed : Event.putsOf (.event kind settings) with
    | error failure =>
      rw [listed] at first
      exact congrArg Prod.fst ((run_bind _ _ _).trans (by rw [first]))
    | ok puts =>
      rw [listed] at first
      rw [run_bind_ok first]
      have others := ih later (workspace.withEvents workflow puts)
      revert others
      cases rest.mapM Event.putsOf with
      | error failure => exact id
      | ok lists =>
        intro others
        exact others.trans (by rw [Workspace.withEvents_append]; rfl)

theorem run_onEach_leaves (workflow : Nat) (tree : EventTree) (workspace : Workspace) :
    match tree.puts with
    | .ok puts => (onEach call workflow tree.leaves).run workspace = (.ok (), workspace.withEvents workflow puts)
    | .error failure => ((onEach call workflow tree.leaves).run workspace).1 = .error failure := by
  have each := @run_onEach call workflow tree.leaves tree.leaves_events workspace
  rw [EventTree.puts]
  revert each
  cases tree.leaves.mapM Event.putsOf <;> exact id

theorem run_on_joined (workflow : Nat) (tree : EventTree) (workspace : Workspace) :
    (callMethod call (.workflow workflow) "on" [tree.value]).run workspace =
      match tree.puts with
      | .ok puts => (.ok (.workflow workflow), workspace.withEvents workflow puts)
      | .error failure => (.error failure, workspace) := by
  obtain ⟨kind, settings, same⟩ := tree.value_event
  have takes := tree.takes.1
  rw [same, run_on, ← same, Event.putsOf]
  generalize tree.puts = puts at takes ⊢
  generalize Event.entries tree.value = entries at takes ⊢
  cases takes with
  | fails failure => rfl
  | @done entries all named taken =>
    show (Except.ok _, workspace.withEvents workflow (Event.puts entries)) = (Except.ok _, workspace.withEvents workflow all)
    rw [taken, Workspace.withEvents_putAll]

/-- Taking up joined events leaves the workspace that taking up the leaves one by one from left to right
leaves; if one of the leaves cannot be taken up, both fail so, and the joined events change nothing.
What they come to depends on the leaves alone, not on how they are joined: each event is at the place of
its first occurrence, with the options of its last. -/
theorem on_joined (call : Call) (workflow : Nat) (tree : EventTree) (workspace : Workspace) :
    ∃ event, tree.joined.run workspace = (.ok event, workspace) ∧
      let whole := (callMethod call (.workflow workflow) "on" [event]).run workspace
      let each := (onEach call workflow tree.leaves).run workspace
      ((∃ puts, tree.puts = .ok puts ∧ whole = (.ok (.workflow workflow), each.2) ∧ each.1 = .ok () ∧
          Event.entries event = .ok ((mapping puts).map fun put => (.text put.1, put.2)) ∧
          each.2 = workspace.withEvents workflow puts ∧
          (workspace.store.Has (.workflow workflow) → ((workspace.store.workflow workflow).events.map Prod.fst).Nodup →
            (each.2.store.workflow workflow).events = mapping ((workspace.store.workflow workflow).events ++ puts))) ∨
        ∃ failure, tree.puts = .error failure ∧ whole = (.error failure, workspace) ∧ each.1 = .error failure) ∧
      ∀ other : EventTree, other.leaves = tree.leaves → ∃ otherEvent, other.joined.run workspace = (.ok otherEvent, workspace) ∧
        Event.entries otherEvent = Event.entries event := by
  refine ⟨tree.value, tree.run_joined workspace, ?_, fun other same => ⟨other.value, other.run_joined workspace, ?_⟩⟩
  · have whole := @run_on_joined call workflow tree workspace
    have each := @run_onEach_leaves call workflow tree workspace
    cases taken : tree.puts with
    | error failure =>
      rw [taken] at whole each
      exact .inr ⟨failure, rfl, whole, each⟩
    | ok puts =>
      rw [taken] at whole each
      rw [whole, each]
      refine .inl ⟨puts, rfl, rfl, rfl, ?_, rfl, fun has distinct => Workspace.events_withEvents has distinct puts⟩
      have takes := tree.takes.1
      rw [taken] at takes
      generalize Event.entries tree.value = entries at takes
      cases takes with
      | done named last => rw [mapping_eq_foldl, ← Event.text_puts named, last]; rfl
  · have same : other.puts = tree.puts := by rw [EventTree.puts, EventTree.puts, same]
    exact (same ▸ other.takes.1).unique tree.takes.1

/-- A push, a pull request and a push to one branch, joined from the right. -/
def repeatedPush : EventTree :=
  .either (.event .push [.null, .null, .null, .null, .null, .null] nofun)
    (.either (.event .pullRequest [.null, .null, .null, .null, .null, .bool false] nofun)
      (.event .push [.list [.text "main"], .null, .null, .null, .null, .null] nofun))

/-- The same events, joined from the left. -/
def repeatedPushFromLeft : EventTree :=
  .either
    (.either (.event .push [.null, .null, .null, .null, .null, .null] nofun)
      (.event .pullRequest [.null, .null, .null, .null, .null, .bool false] nofun))
    (.event .push [.list [.text "main"], .null, .null, .null, .null, .null] nofun)

/-- A workflow that is started by hand or by a push. -/
def startedByHand : Workspace where
  store := { workflows := [{ name := .text "CI", fileName := .text "ci", events := [("workflow_dispatch", .null), ("push", .null)] }] }

theorem on_joined_repeatedPush :
    repeatedPushFromLeft.leaves = repeatedPush.leaves ∧ startedByHand.store.Has (.workflow 0) ∧
    ((startedByHand.store.workflow 0).events.map Prod.fst).Nodup ∧
    ∃ event otherEvent after, repeatedPush.joined.run startedByHand = (.ok event, startedByHand) ∧
      repeatedPushFromLeft.joined.run startedByHand = (.ok otherEvent, startedByHand) ∧
      Event.entries otherEvent = Event.entries event ∧
      Event.entries event = .ok [(.text "push", .map [(.text "branches", .list [.text "main"])]), (.text "pull_request", .null)] ∧
      (callMethod (fun _ _ => fail .mistyped) (.workflow 0) "on" [event]).run startedByHand = (.ok (.workflow 0), after) ∧
      (after.store.workflow 0).events =
        [("workflow_dispatch", .null), ("push", .map [(.text "branches", .list [.text "main"])]), ("pull_request", .null)] := by
  have has : startedByHand.store.Has (.workflow 0) := Nat.one_pos
  have distinct : ((startedByHand.store.workflow 0).events.map Prod.fst).Nodup := by decide
  obtain ⟨event, joined, taken, same⟩ := on_joined (fun _ _ => fail .mistyped) 0 repeatedPush startedByHand
  obtain ⟨otherEvent, otherJoined, agree⟩ := same repeatedPushFromLeft rfl
  have known : repeatedPush.puts =
      .ok [("push", .null), ("pull_request", .null), ("push", .map [(.text "branches", .list [.text "main"])])] := rfl
  rcases taken with ⟨puts, put, whole, -, listed, -, events⟩ | ⟨failure, failed, -⟩
  · cases known.symm.trans put
    exact ⟨rfl, has, distinct, event, otherEvent, _, joined, otherJoined, agree, listed, whole, events has distinct⟩
  · cases known.symm.trans failed

end Build

end WorkflowCompiler
