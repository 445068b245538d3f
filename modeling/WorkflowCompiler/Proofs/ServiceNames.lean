import WorkflowCompiler.Proofs.CallbackNames
import WorkflowCompiler.Proofs.BuiltRecords

/-! The services that a job's callbacks may refer to. A job notes the names of its services when it is
given a mapping. When it is given anything else later it renders that, but still knows the names noted
last. -/

namespace WorkflowCompiler

/-- What a job was given as its services, and the store right after it was set. -/
abbrev GivenServices := Value × Store

/-- The names that a mapping of services tells, unless one of them has no wording. -/
def GivenServices.names : GivenServices → Option (List String)
  | (.map entries, store) => (entries.mapM fun entry => store.wording entry.1).toOption
  | _ => none

/-- The services that were given last. -/
def currentServices (given : List GivenServices) : Value := (given.getLast?.map Prod.fst).getD .null

/-- The names of the last mapping that told any. -/
def notedServices (given : List GivenServices) : List String := (given.reverse.findSome? GivenServices.names).getD []

/-- The names under which services stand in a mapping. -/
def serviceKeys : Value → List String
  | .map entries => entries.filterMap fun entry => entry.1.chars?
  | _ => []

section

variable {given : List GivenServices} {value : Value} {store : Store}

theorem currentServices_append : currentServices (given ++ [(value, store)]) = value := by
  simp [currentServices]

theorem notedServices_append :
    notedServices (given ++ [(value, store)]) = ((GivenServices.names (value, store)).getD (notedServices given)) := by
  rw [notedServices, List.reverse_append, List.reverse_singleton, List.singleton_append, List.findSome?_cons]
  cases GivenServices.names (value, store) <;> rfl

theorem mem_serviceKeys {entries : List (Value × Value)} (named : Event.AllNamed entries) (name : String) :
    name ∈ serviceKeys (.map entries) ↔ .text name ∈ entries.map Prod.fst := by
  simp only [serviceKeys, List.mem_filterMap, List.mem_map]
  constructor
  · rintro ⟨entry, member, told⟩
    obtain ⟨other, same⟩ := named entry member
    rw [same] at told
    exact ⟨entry, member, same.trans (congrArg Value.text (Option.some.inj told))⟩
  · rintro ⟨entry, member, same⟩
    exact ⟨entry, member, by rw [same]; rfl⟩

/-- A mapping whose keys are texts tells them. -/
theorem names_of_named {entries : List (Value × Value)} (named : Event.AllNamed entries) (store : Store) :
    GivenServices.names (.map entries, store) = some (serviceKeys (.map entries)) := by
  have told : (entries.mapM fun entry => store.wording entry.1) = .ok (serviceKeys (.map entries)) := by
    induction entries with
    | nil => rfl
    | cons entry rest ih =>
      obtain ⟨⟨name, same⟩, later⟩ := List.forall_mem_cons.mp named
      have keys : serviceKeys (.map (entry :: rest)) = name :: serviceKeys (.map rest) := by
        have told : entry.1.chars? = some name := by rw [same]; rfl
        rw [serviceKeys, List.filterMap_cons, told]
        rfl
      rw [List.mapM_cons, ih later, keys, same]
      rfl
  exact congrArg Except.toOption told

/-- Where mappings have texts as keys, the names noted are the keys of the services that are there now
exactly if these are a mapping, or nothing was noted before. -/
theorem notedServices_current (texts : ∀ entries store, (.map entries, store) ∈ given → Event.AllNamed entries) :
    (∀ name, name ∈ notedServices given ↔ name ∈ serviceKeys (currentServices given)) ↔
      (∃ entries, currentServices given = .map entries) ∨ notedServices given = [] := by
  rcases given.eq_nil_or_concat with rfl | ⟨before, ⟨value, store⟩, rfl⟩
  · simp [notedServices, currentServices, serviceKeys]
  rw [List.concat_eq_append] at texts ⊢
  rw [currentServices_append]
  cases value with
  | map entries =>
    have named := names_of_named (texts entries store (List.mem_append_right _ List.mem_cons_self)) store
    simp [notedServices_append, named]
  | _ => simp [serviceKeys, List.eq_nil_iff_forall_not_mem]

end

namespace Build

open Store (Keeps)

section History

variable (call : Call) (job : Nat)

/-- What a call of a method gives a job as its services. -/
def servicesGiven (method : String) (arguments : List Value) (workspace : Workspace) : List GivenServices :=
  match method, arguments with
  | "services", [argument] =>
    match argumentValue call job argument workspace with
    | .ok (value, after) => [(value, (after.withJob job (·.set .services value)).store)]
    | .error _ => []
  | _, _ => []

/-- The workspaces in which a job has been given services by calls of its methods, failed ones included,
among calls of any others. What happens to other objects between the calls does not matter. -/
inductive Supplied : List GivenServices → Workspace → Prop
  | fresh {workspace} (has : workspace.store.Has (.job job)) (new : workspace.store.job job = {}) : Supplied [] workspace
  | elsewhere {given before after} (supplied : Supplied given before) (has : after.store.Has (.job job))
      (same : after.store.job job = before.store.job job) : Supplied given after
  | called {given before} (supplied : Supplied given before) (method : String) (arguments : List Value) :
      Supplied (given ++ servicesGiven call job method arguments before) ((callJob call job method arguments).run before).2
  /-- Within a call of `steps`, an item after those before it. -/
  | item {given before} (supplied : Supplied given before) (value : Value) :
      Supplied given ((addStep call job value).run before).2

end History

/-- A job has stored the services given last, and noted the names of those that told theirs last. -/
structure Serves (job : Nat) (given : List GivenServices) (workspace : Workspace) : Prop where
  has : workspace.store.Has (.job job)
  stored : (workspace.store.job job).fields .services = currentServices given
  noted : (workspace.store.job job).services = notedServices given

namespace Serves

variable {call : Call} {job : Nat} {given : List GivenServices} {workspace after : Workspace}

theorem elsewhere (serves : Serves job given workspace) (has : after.store.Has (.job job))
    (same : after.store.job job = workspace.store.job job) : Serves job given after :=
  ⟨has, by rw [same, serves.stored], by rw [same, serves.noted]⟩

theorem keeps (serves : Serves job given workspace) (keeps : Keeps [] workspace.store after.store) : Serves job given after :=
  serves.elsewhere (keeps.has _ serves.has) (keeps.same _ serves.has (List.not_mem_nil))

theorem withJob (serves : Serves job given workspace) {change : Job → Job} {changed : List GivenServices}
    (stored : (change (workspace.store.job job)).fields .services = currentServices changed)
    (noted : (change (workspace.store.job job)).services = notedServices changed) :
    Serves job changed (workspace.withJob job change) := by
  have same := Workspace.job_withJob serves.has change
  exact ⟨Workspace.has_withJob.mpr serves.has, by rw [same, stored], by rw [same, noted]⟩

theorem addStep (tame : Tame call) (serves : Serves job given workspace) (value : Value) :
    Serves job given ((Build.addStep call job value).run workspace).2 := by
  rw [addStep_eq]
  rcases made : (itemStep call job value).run workspace with ⟨failure | step, between⟩
  · rw [run_bind, made]
    exact serves.keeps ((maintains_itemStep tame job value).run made)
  · rw [run_bind_ok made]
    have serves := serves.keeps ((maintains_itemStep tame job value).run made)
    exact serves.withJob serves.stored serves.noted

theorem addSteps (tame : Tame call) (serves : Serves job given workspace) (items : List Value) :
    Serves job given ((Build.addSteps call job items).run workspace).2 := by
  induction items generalizing workspace with
  | nil => exact serves
  | cons item rest ih =>
    have first := serves.addStep tame item
    rw [Build.addSteps, run_bind]
    revert first
    rcases (Build.addStep call job item).run workspace with ⟨failure | _, between⟩
    · exact id
    · exact fun first => ih first

/-- A setting other than the services gives none. -/
theorem set (serves : Serves job given workspace) {field : JobField} (value : Value) (other : field ≠ .services) :
    Serves job given (workspace.withJob job (·.set field value)) :=
  serves.withJob (by simpa [Job.set, other.symm] using serves.stored) serves.noted

/-- Nothing but services tells names of services. -/
theorem note (serves : Serves job given workspace) {field : JobField} {value : Value} {result : Except Failure Unit}
    (other : field ≠ .services) (noted : NameOutcome job workspace field value result after) : Serves job given after := by
  cases noted with
  | none => exact serves
  | @axes _ axes _ _ named stored =>
    have axes : Serves job given (workspace.withJob job fun job => { job with axes }) := serves.withJob serves.stored serves.noted
    exact axes.elsewhere (by rw [stored]; exact axes.has) (by rw [stored])
  | axesUntold => exact serves
  | services => exact absurd rfl other
  | servicesUntold => exact absurd rfl other

/-- Services are stored whatever they are, and then their names noted if they are a mapping that tells them. -/
theorem setServices (serves : Serves job given workspace) {value : Value} {result : Except Failure Unit}
    (noted : NameOutcome job (workspace.withJob job (·.set .services value)) .services value result after) :
    Serves job (given ++ [(value, (workspace.withJob job (·.set .services value)).store)]) after := by
  have same := Workspace.job_withJob serves.has (·.set .services value)
  have has : (workspace.withJob job (·.set .services value)).store.Has (.job job) := Workspace.has_withJob.mpr serves.has
  have stored : ((workspace.withJob job (·.set .services value)).store.job job).fields .services = value := by
    rw [same]
    simp [Job.set]
  have unchanged : ((workspace.withJob job (·.set .services value)).store.job job).services = notedServices given := by
    rw [same]
    exact serves.noted
  generalize workspace.withJob job (·.set .services value) = between at *
  -- where no names are told, those noted before stay
  have kept (untold : GivenServices.names (value, between.store) = none) : Serves job (given ++ [(value, between.store)]) between :=
    ⟨has, by rw [currentServices_append, stored], by rw [notedServices_append, untold, unchanged]; rfl⟩
  cases noted with
  | none _ services =>
    refine kept ?_
    cases value with
    | map entries => exact absurd ⟨rfl, rfl⟩ (services entries)
    | _ => rfl
  | @services entries services named =>
    have told : GivenServices.names (.map entries, between.store) = some services := congrArg Except.toOption named
    have changed := Workspace.job_withJob has fun job => { job with services }
    refine ⟨Workspace.has_withJob.mpr has, ?_, ?_⟩
    · rw [changed, currentServices_append]
      exact stored
    · rw [changed, notedServices_append, told]
      rfl
  | servicesUntold untold => exact kept (congrArg Except.toOption untold)

theorem callJob (tame : Tame call) (serves : Serves job given workspace) (method : String) (arguments : List Value) :
    Serves job (given ++ servicesGiven call job method arguments workspace)
      ((Build.callJob call job method arguments).run workspace).2 := by
  unfold servicesGiven
  split
  · rename_i argument
    rw [show "services" = JobField.services.setter from rfl, Told.callJob_setter, run_bind]
    unfold argumentValue
    rcases resolved : (resolve call (jobKnown job) argument).run workspace with ⟨failure | value, between⟩
    · simpa using serves.keeps ((maintains_resolve tame (maintains_jobKnown job) argument).run resolved)
    · have serves := serves.keeps ((maintains_resolve tame (maintains_jobKnown job) argument).run resolved)
      show Serves job (given ++ [(value, (between.withJob job (·.set .services value)).store)])
        ((recordNames job .services value >>= fun _ => pure (Value.job job)).run (between.withJob job (·.set .services value))).2
      rw [Told.run_bind_pure_snd]
      exact serves.setServices (recordNames_outcome rfl)
  · rename_i unserved
    rw [List.append_nil]
    rcases ran : (Build.callJob call job method arguments).run workspace with ⟨result, after⟩
    cases callJob_outcome tame ran with
    | refused keeps => exact serves.keeps keeps
    | @step _ step between made =>
      have serves := serves.keeps ((maintains_itemStep tame job _).run made)
      exact serves.withJob serves.stored serves.noted
    | @steps _ items result _ _ ran =>
      have last := serves.addSteps tame items
      rw [ran] at last
      exact last
    | @set _ argument field value stored between result _ named resolved normal noted =>
      obtain rfl := JobField.eq_setter named
      have other : field ≠ .services := by
        rintro rfl
        exact unserved _ rfl rfl
      have serves := serves.keeps ((maintains_resolve tame (maintains_jobKnown job) argument).run resolved)
      exact (serves.set stored other).note other noted

end Serves

theorem serves_of_supplied {call : Call} {job : Nat} {given : List GivenServices} {workspace : Workspace} (tame : Tame call)
    (supplied : Supplied call job given workspace) : Serves job given workspace := by
  induction supplied with
  | fresh has new => exact ⟨has, by rw [new]; rfl, by rw [new]; rfl⟩
  | elsewhere _ has same serves => exact serves.elsewhere has same
  | called _ method arguments serves => exact serves.callJob tame method arguments
  | item _ value serves => exact serves.addStep tame value

theorem run_segment_empty {name : Label} (empty : name.chars = "") (workspace : Workspace) :
    ∃ shown, (segment (.ofLabel name)).run workspace = (.error (.ofCause (.emptySegment shown)), workspace) := by
  cases name with
  | text written =>
    obtain rfl : written = "" := empty
    exact ⟨_, rfl⟩
  | choice member =>
    have filled : member.text ≠ "" := by
      cases member with
      | _ inner => cases inner <;> decide
    exact absurd empty filled

/-- A helper accepts the names that are known, save the empty one, which no reference has. -/
theorem settles_extend (kind top : String) {front : List Label} (fronts : ∀ label ∈ front, label.chars ≠ "")
    (declared : Option (List String)) (name : Label) :
    Settles (requireKnown kind (.ofLabel name) (texts declared) >>= fun _ => extend (root top) ((front ++ [name]).map Value.ofLabel))
      (Allowed declared name ∧ name.chars ≠ "") (.text top :: (front ++ [name])) := by
  by_cases empty : name.chars = ""
  · intro workspace
    refine .inr ⟨fun accepted => accepted.2 empty, ?_⟩
    obtain ⟨shown, last⟩ := run_segment_empty empty workspace
    have failed : (((front ++ [name]).map Value.ofLabel).mapM segment).run workspace =
        (.error (.ofCause (.emptySegment shown)), workspace) := by
      induction front with
      | nil => exact (run_bind _ _ _).trans (by rw [last])
      | cons label front ih =>
        obtain ⟨first, later⟩ := List.forall_mem_cons.mp fronts
        rw [List.cons_append, List.map_cons, List.mapM_cons, run_bind_ok (run_segment first workspace), run_bind, ih later]
    have extended : (extend (root top) ((front ++ [name]).map Value.ofLabel)).run workspace =
        (.error (.ofCause (.emptySegment shown)), workspace) := (run_bind _ _ _).trans (by rw [failed])
    cases declared with
    | none => exact ⟨_, extended, rfl⟩
    | some names =>
      have known : texts (some names) = some ((names.map Label.text).map Value.ofLabel) := by
        simp [texts, Value.ofLabel, Function.comp_def]
      rw [known, run_bind]
      rcases run_requireKnown kind name workspace with ⟨-, passed⟩ | ⟨-, refused⟩
      · rw [passed]
        exact ⟨_, extended, rfl⟩
      · rw [refused]
        exact ⟨_, rfl, rfl⟩
  · have filled : ∀ label ∈ front ++ [name], label.chars ≠ "" :=
      List.forall_mem_append.mpr ⟨fronts, by simpa using empty⟩
    have settles : Settles (requireKnown kind (.ofLabel name) (texts declared) >>= fun _ =>
        extend (root top) ((front ++ [name]).map Value.ofLabel)) (Allowed declared name) (.text top :: (front ++ [name])) :=
      settles_requireText kind name declared (run_extend [.text top] (front ++ [name]) filled)
    simpa [empty] using settles

theorem settles_service {known : Known} {names : List String} (onServices : known.services = some names) (name : Label) :
    Settles (reference known "service" [.ofLabel name]) (name.chars ∈ names ∧ name.chars ≠ "") [.text "job", .text "services", name] := by
  rw [← allowed_some, ← onServices]
  have fronts : ∀ label ∈ [Label.text "services"], label.chars ≠ "" := by decide
  exact settles_extend "service" "job" fronts known.services name

end Build

namespace Store

theorem services_of_knownNames {store : Store} {job : Job} {known : Known} (told : store.knownNames job = .ok known) :
    known.services = some job.services := by
  obtain ⟨outputs, -, same⟩ := ok_of_bind told
  cases same
  rfl

theorem keys_putText (name : String) (tree : Tree) (found : List (Tree × Tree)) (other : String) :
    .text other ∈ (Tree.putText name tree found).map Prod.fst ↔ other = name ∨ .text other ∈ found.map Prod.fst := by
  induction found with
  | nil => simp [Tree.putText]
  | cons entry rest ih =>
    obtain ⟨key, old⟩ := entry
    cases key with
    | text first =>
      by_cases same : first = name
      · subst same
        simp [Tree.putText]
      · rw [Tree.putText, if_neg same, List.map_cons, List.mem_cons, ih, List.map_cons, List.mem_cons]
        exact or_left_comm
    | _ =>
      rw [Tree.putText, List.map_cons, List.mem_cons, ih, List.map_cons, List.mem_cons]
      · exact or_left_comm
      · simp

/-- Entries under texts are rendered under the same texts. -/
theorem keys_plainEntries {store : Store} {visit : Target → Except Failure Tree} {entries : List (Value × Value)} (named : Event.AllNamed entries)
    {found trees : List (Tree × Tree)} (made : Value.plainEntries store.wording visit found entries = .ok trees) (name : String) :
    .text name ∈ trees.map Prod.fst ↔ .text name ∈ found.map Prod.fst ∨ .text name ∈ entries.map Prod.fst := by
  induction entries generalizing found with
  | nil =>
    cases made
    simp
  | cons entry rest ih =>
    obtain ⟨key, value⟩ := entry
    obtain ⟨⟨first, rfl⟩, later⟩ := List.forall_mem_cons.mp named
    rw [Value.plainEntries] at made
    obtain ⟨between, one, made⟩ := ok_of_bind made
    simp only [Value.plainEntry] at one
    obtain ⟨word, called, one⟩ := ok_of_bind one
    obtain ⟨tree, -, same⟩ := ok_of_bind one
    cases called
    cases same
    rw [ih later made, keys_putText, List.map_cons, List.mem_cons, Value.text.injEq, or_assoc]
    exact or_left_comm

/-- The record of a job has the services that are set, a mapping under its own keys. -/
theorem services_of_renderJob {store : Store} {job : Nat} {jobId : Value} {record : Tree} (rendered : store.renderJob job jobId = .ok record) :
    ∃ fields, record = Tree.record fields ∧
      ((store.job job).fields .services = .null → fields.lookup "services" = none) ∧
      ∀ entries, (store.job job).fields .services = .map entries → Event.AllNamed entries →
        ∃ trees, fields.lookup "services" = some (.map trees) ∧
          ∀ name, .text name ∈ trees.map Prod.fst ↔ name ∈ serviceKeys (.map entries) := by
  obtain ⟨steps, settings, -, set, rfl⟩ := parts_of_jobRecord rendered
  have distinct := (List.nodup_append.mp (nodup_jobKeys (store.job job))).1
  have member := mem_jobFields (store.job job) .services
  refine ⟨_, rfl, fun unset => ?_, fun entries same named => ?_⟩
  · rw [unset] at member
    have missing := lookup_recordOf_unset set distinct member
    rw [List.lookup_append, show settings.lookup "services" = none from missing]
    split <;> rfl
  · rw [same] at member
    obtain ⟨tree, plain, found⟩ := exists_lookup_recordOf set distinct member (by simp)
    obtain ⟨trees, made, same⟩ := ok_of_bind plain
    cases same
    refine ⟨trees, ?_, fun name => ?_⟩
    · rw [List.lookup_append, show settings.lookup "services" = some (.map trees) from found]
      rfl
    · rw [keys_plainEntries named made, mem_serviceKeys named]
      simp

end Store

namespace Build

/-- A job may be given services by any calls, failed ones included. What it renders are the services given
last. A callback may refer to the names that the last mapping told, the empty one apart, which no path
has; where mappings have texts as keys these are the keys of the services that are there now exactly if
they are a mapping, or no name was noted before. Only if an id of a step or an output of a step with an
id cannot be looked up no callback is called at all. -/
theorem services_checked {depth job : Nat} {given : List GivenServices} {workspace : Workspace}
    (supplied : Supplied (callWithin depth) job given workspace) :
    (workspace.store.job job).fields .services = currentServices given ∧
    (∀ jobId record, workspace.store.renderJob job jobId = .ok record → ∃ fields, record = Tree.record fields ∧
      (currentServices given = .null → fields.lookup "services" = none) ∧
      ∀ entries, currentServices given = .map entries → Event.AllNamed entries → ∃ trees,
        fields.lookup "services" = some (.map trees) ∧
        ∀ name, .text name ∈ trees.map Prod.fst ↔ name ∈ serviceKeys (currentServices given)) ∧
    ((∀ entries store, (.map entries, store) ∈ given → Event.AllNamed entries) →
      ((∀ name, name ∈ notedServices given ↔ name ∈ serviceKeys (currentServices given)) ↔
        (∃ entries, currentServices given = .map entries) ∨ notedServices given = [])) ∧
    ((∃ known, Consults job known workspace ∧ ∀ name : Label,
        Settles (reference known "service" [.ofLabel name]) (name.chars ∈ notedServices given ∧ name.chars ≠ "")
          [.text "job", .text "services", name]) ∨
      (∃ step ∈ (workspace.store.job job).steps, ¬ (workspace.store.step step).Tracked) ∧
        ∃ failure, Refuses job failure workspace) := by
  have serves := serves_of_supplied (tame_callWithin depth) supplied
  refine ⟨serves.stored, fun jobId record rendered => ?_, notedServices_current, ?_⟩
  · obtain ⟨fields, same, cleared, mapped⟩ := Store.services_of_renderJob rendered
    rw [serves.stored] at cleared mapped
    refine ⟨fields, same, cleared, fun entries current named => ?_⟩
    rw [current]
    exact mapped entries current named
  · rcases consults_or_refuses job workspace with ⟨known, told, consults⟩ | ⟨failure, untold, refuses⟩
    · refine .inl ⟨known, consults, settles_service ?_⟩
      rw [Store.services_of_knownNames told, serves.noted]
    · exact .inr ⟨Store.exists_untracked untold, failure, refuses⟩

/-- Services that are a database. -/
def database : Value := .map [(.text "db", .map [(.text "image", .text "postgres")])]

/-- A job beside a database. -/
def served : Workspace := ((callJob (callWithin 1) 0 "services" [database]).run drafted).2

theorem supplied_served : Supplied (callWithin 1) 0 [(database, (drafted.withJob 0 (·.set .services database)).store)] served :=
  have fresh : Supplied (callWithin 1) 0 [] drafted := .fresh (by decide) rfl
  fresh.called "services" [database]

/-- The one name that may be referred to is that of the database. -/
theorem services_checked_served : ∃ known, Consults 0 known served ∧ ∀ name : Label,
    Settles (reference known "service" [.ofLabel name]) (name.chars = "db") [.text "job", .text "services", name] := by
  obtain ⟨-, -, -, ⟨known, consults, settles⟩ | ⟨⟨step, member, -⟩, -⟩⟩ := services_checked supplied_served
  · refine ⟨known, consults, fun name => ?_⟩
    have noted : notedServices [(database, (drafted.withJob 0 (·.set .services database)).store)] = ["db"] := rfl
    have only : (name.chars ∈ ["db"] ∧ name.chars ≠ "") = (name.chars = "db") := by
      rw [List.mem_singleton]
      exact propext ⟨And.left, fun same => ⟨same, by rw [same]; decide⟩⟩
    have told := settles name
    rwa [noted, only] at told
  · cases member

/-- The job beside a database once its services have been taken away. -/
def cleared : Workspace := ((callJob (callWithin 1) 0 "services" [.null]).run served).2

/-- A name that services had which are there no longer is still accepted. -/
theorem cleared_service_accepted :
    (∃ given, Supplied (callWithin 1) 0 given cleared ∧ currentServices given = .null) ∧
    (cleared.store.job 0).fields .services = .null ∧
    ∃ known, Consults 0 known cleared ∧ (reference known "service" [.text "db"]).run cleared =
      (.ok (.path [.text "job", .text "services", .text "db"]), cleared) := by
  refine ⟨⟨_, supplied_served.called "services" [.null], rfl⟩, rfl, ?_⟩
  rcases consults_or_refuses 0 cleared with ⟨known, told, consults⟩ | ⟨failure, untold, -⟩
  · refine ⟨known, consults, ?_⟩
    have noted : known.services = some ["db"] := Store.services_of_knownNames told
    rcases settles_service noted (.text "db") cleared with ⟨-, made⟩ | ⟨refused, -⟩
    · exact made
    · exact absurd (by decide) refused
  · cases untold

end Build

end WorkflowCompiler
