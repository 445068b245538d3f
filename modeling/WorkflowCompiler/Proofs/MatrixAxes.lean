import WorkflowCompiler.Proofs.LastPuts
import WorkflowCompiler.Proofs.PlainRecords
import WorkflowCompiler.Proofs.ServiceNames

/-! The axes that a strategy names. They are collected from the strategy as it was given, and are the ones that
its record shows: the keys of the matrix and behind them those that its rows add. Where the matrix is only
known when the workflow runs, callbacks may refer to any axis. -/

namespace WorkflowCompiler

namespace Tree

def keys (tree : Tree) : List String := tree.fields.map Prod.fst

def items : Tree → List Tree
  | .list items => items
  | _ => []

/-- The keys of a matrix. Of these `include` and `exclude`, which hold rows, are none. -/
def matrixKeys (matrix : Tree) : List String := matrix.keys.filter fun name => name ≠ "include" ∧ name ≠ "exclude"

/-- The keys of the rows that a matrix includes. -/
def rowKeys (matrix : Tree) : List String := ((matrix.fields.lookup "include").getD .null).items.flatMap keys

/-- The axes of a matrix: its keys and behind them the other ones of its rows, where they first appear. -/
def axes (matrix : Tree) : List String :=
  matrix.matrixKeys ++ (matrix.rowKeys.filter (· ∉ matrix.matrixKeys)).eraseDups

end Tree

namespace Value

/-- Entries of a mapping under texts, each there once. -/
def TextKeyed (entries : List (Value × Value)) : Prop := Event.AllNamed entries ∧ (entries.map Prod.fst).Nodup

/-- The matrix of a strategy. -/
def matrix? : Value → Option Value
  | .map strategy => lookup? (.text "matrix") strategy
  | _ => none

/-- What a matrix includes. -/
def included (matrix : List (Value × Value)) : Value := (lookup? (.text "include") matrix).getD .null

/-- A row of a matrix: a mapping under texts, or nothing that has keys. -/
def IsRow (store : Store) (row : Value) : Prop :=
  (∃ entries, row = .map entries ∧ TextKeyed entries) ∨ ∀ entries, store.plain row ≠ .ok (.map entries)

/-- A strategy that says what its axes are. -/
structure Written (store : Store) (strategy matrix : List (Value × Value)) : Prop where
  keyed : TextKeyed strategy
  found : matrix? (.map strategy) = some (.map matrix)
  keys : TextKeyed matrix
  rows : included matrix = .null ∨ ∃ rows, (included matrix).items? = some rows ∧ ∀ row ∈ rows, IsRow store row

/-- A strategy whose axes are only known when the workflow runs. -/
inductive Computed : Value → Prop
  | matrix {strategy matrix} (found : matrix? strategy = some matrix) (other : ∀ entries, matrix ≠ .map entries) : Computed strategy
  | rows {strategy matrix} (found : matrix? strategy = some (.map matrix)) (named : Event.AllNamed matrix)
      (other : included matrix ≠ .null) (rows : (included matrix).items? = none) : Computed strategy

end Value

namespace Store

open Value (TextKeyed Written Computed IsRow)

variable {store : Store} {entries : List (Value × Value)} {fields : List (String × Tree)}

/-- A field shows an entry of a mapping. -/
def Shows (store : Store) (entry : Value × Value) (field : String × Tree) : Prop :=
  entry.1 = .text field.1 ∧ store.plain entry.2 = .ok field.2

theorem shows_of_plain {tree : Tree} (keyed : TextKeyed entries) (rendered : store.plain (.map entries) = .ok tree) :
    ∃ fields, tree = Tree.record fields ∧ List.Forall₂ store.Shows entries fields := by
  obtain ⟨trees, made, same⟩ := ok_of_bind rendered
  cases same
  suffices general : ∀ found : List (String × Tree), (∀ name ∈ found.map Prod.fst, .text name ∉ entries.map Prod.fst) →
      Value.plainEntries store.wording (store.targetWithin (store.size + 1)) (Tree.ofFields found) entries = .ok trees →
      ∃ fields, trees = Tree.ofFields (found ++ fields) ∧ List.Forall₂ store.Shows entries fields by
    obtain ⟨fields, rfl, shows⟩ := general [] (by simp) made
    exact ⟨fields, rfl, shows⟩
  clear made rendered
  obtain ⟨named, distinct⟩ := keyed
  induction entries with
  | nil =>
    intro found _ made
    cases made
    exact ⟨[], by rw [List.append_nil], .nil⟩
  | cons entry rest ih =>
    intro found apart made
    obtain ⟨key, value⟩ := entry
    obtain ⟨⟨name, rfl⟩, later⟩ := List.forall_mem_cons.mp named
    obtain ⟨new, distinct⟩ := List.nodup_cons.mp distinct
    rw [Value.plainEntries] at made
    obtain ⟨between, one, made⟩ := ok_of_bind made
    simp only [Value.plainEntry] at one
    obtain ⟨_, called, one⟩ := ok_of_bind one
    obtain ⟨tree, rendered, same⟩ := ok_of_bind one
    cases called
    cases same
    have fresh : name ∉ found.map Prod.fst := fun there => apart name there List.mem_cons_self
    rw [Tree.ofFields, Tree.putText_record, Workflow.putNamed_fresh fresh] at made
    obtain ⟨fields, rfl, shows⟩ := ih later distinct (found ++ [(name, tree)]) (by
      intro other there
      rw [List.map_append, List.mem_append] at there
      rcases there with there | last
      · exact fun later => apart other there (List.mem_cons_of_mem _ later)
      · rw [List.mem_singleton.mp last]
        exact new) made
    exact ⟨(name, tree) :: fields, by rw [List.append_assoc]; rfl, .cons ⟨rfl, rendered⟩ shows⟩

theorem keys_of_shows (shows : List.Forall₂ store.Shows entries fields) :
    entries.map Prod.fst = fields.map fun field => .text field.1 := by
  induction shows with
  | nil => rfl
  | cons first _ ih => rw [List.map_cons, List.map_cons, ih, first.1]

theorem lookup_of_shows (shows : List.Forall₂ store.Shows entries fields) (name : String) :
    Option.Rel (fun value tree => store.plain value = .ok tree) (Value.lookup? (.text name) entries) (fields.lookup name) := by
  induction shows with
  | nil => exact .none
  | @cons entry field _ _ first _ ih =>
    obtain ⟨key, value⟩ := entry
    obtain ⟨other, tree⟩ := field
    obtain ⟨rfl, rendered⟩ := first
    rw [Value.lookup?, List.find?_cons, Publish.equals_text, List.lookup_cons]
    by_cases same : name = other
    · simpa [same] using Option.Rel.some rendered
    · rw [beq_false_of_ne same]
      exact ih

/-- The names of entries under texts. -/
theorem names_of_shows (wordings : Store) (shows : List.Forall₂ store.Shows entries fields) :
    (entries.mapM fun entry => wordings.wording entry.1) = .ok (fields.map Prod.fst) := by
  refine mapM_ok (List.forall₂_map_right_iff.mpr (shows.imp fun entry field shown => ?_))
  rw [shown.1]
  rfl

theorem items_of_plain {value : Value} {items : List Value} {tree : Tree} (listed : value.items? = some items)
    (rendered : store.plain value = .ok tree) :
    ∃ trees, tree = .list trees ∧ List.Forall₂ (fun item tree => store.plain item = .ok tree) items trees := by
  cases value with
  | list | tuple =>
    cases listed
    obtain ⟨trees, made, same⟩ := ok_of_bind rendered
    cases same
    rw [Value.plainItems_eq] at made
    exact ⟨trees, rfl, forall₂_of_mapM made⟩
  | _ => cases listed

/-- The keys of a row, if it has any. -/
def rowNames (wordings : Store) : Value → Except Failure (List String)
  | .map entries => entries.mapM fun entry => wordings.wording entry.1
  | _ => pure []

/-- A row adds the keys that its record shows. -/
theorem names_of_row (wordings : Store) {row : Value} {tree : Tree} (isRow : IsRow store row) (rendered : store.plain row = .ok tree) :
    wordings.rowNames row = .ok tree.keys := by
  by_cases mapping : ∃ entries, row = .map entries
  · obtain ⟨entries, rfl⟩ := mapping
    rcases isRow with ⟨_, ⟨⟩, keyed⟩ | none
    · obtain ⟨fields, rfl, shows⟩ := shows_of_plain keyed rendered
      rw [Tree.keys, Tree.fields_record]
      exact names_of_shows wordings shows
    · obtain ⟨trees, -, same⟩ := ok_of_bind rendered
      cases same
      exact absurd rendered (none trees)
  · rcases isRow with ⟨entries, rfl, -⟩ | none
    · exact absurd ⟨entries, rfl⟩ mapping
    · have keys : tree.keys = [] := by
        cases tree with
        | map entries => exact absurd rendered (none entries)
        | _ => rfl
      rw [keys, rowNames]
      · rfl
      · rintro entries rfl
        exact mapping ⟨entries, rfl⟩

/-- The keys of a matrix that are collected are those that its record shows. -/
theorem names_of_matrix (wordings : Store) (shows : List.Forall₂ store.Shows entries fields) :
    ((entries.filter fun entry => !Build.isMatrixRow entry.1).mapM fun entry => wordings.wording entry.1) =
      .ok (Tree.record fields).matrixKeys := by
  have kept : List.Forall₂ store.Shows (entries.filter fun entry => !Build.isMatrixRow entry.1)
      (fields.filter fun field => decide (field.1 ≠ "include" ∧ field.1 ≠ "exclude")) := by
    refine List.rel_filter (fun entry field shown => ?_) shows
    simp [shown.1, Build.isMatrixRow, Publish.equals_text]
  rw [names_of_shows wordings kept, Tree.matrixKeys, Tree.keys, Tree.fields_record, List.filter_map]
  rfl

/-- The keys of rows that are collected are those that the record of a matrix shows. -/
theorem names_of_rows (wordings : Store) (shows : List.Forall₂ store.Shows entries fields)
    {rows : List Value} (listed : (Value.included entries).items? = some rows) (each : ∀ row ∈ rows, IsRow store row) :
    ∃ names, rows.mapM wordings.rowNames = .ok names ∧ names.flatten = (Tree.record fields).rowKeys := by
  have found := lookup_of_shows shows "include"
  rw [Value.included] at listed
  generalize Value.lookup? (.text "include") entries = value at found listed
  generalize there : fields.lookup "include" = shown at found
  cases found with
  | none => cases listed
  | some rendered =>
    obtain ⟨trees, rfl, paired⟩ := items_of_plain listed rendered
    refine ⟨trees.map Tree.keys, mapM_ok (List.forall₂_map_right_iff.mpr ?_), ?_⟩
    · clear listed rendered there
      induction paired with
      | nil => exact .nil
      | cons first _ ih =>
        obtain ⟨isRow, later⟩ := List.forall_mem_cons.mp each
        exact .cons (names_of_row wordings isRow first) (ih later)
    · rw [Tree.rowKeys, Tree.fields_record, there, List.flatMap_def]
      rfl

theorem rowKeys_of_null (shows : List.Forall₂ store.Shows entries fields) (null : Value.included entries = .null) :
    (Tree.record fields).rowKeys = [] := by
  have found := lookup_of_shows shows "include"
  rw [Value.included] at null
  rw [Tree.rowKeys, Tree.fields_record]
  generalize Value.lookup? (.text "include") entries = value at found null
  generalize fields.lookup "include" = shown at found
  cases found with
  | none => rfl
  | some rendered =>
    cases null
    cases rendered
    rfl

/-- What is collected from a matrix. -/
def collected (wordings : Store) (matrix : List (Value × Value)) : Except Failure (Option (List String)) := do
  let axes ← (matrix.filter fun entry => !Build.isMatrixRow entry.1).mapM fun entry => wordings.wording entry.1
  match (Value.included matrix).items?, (Value.included matrix).isNull with
  | some rows, _ =>
    let more ← rows.mapM wordings.rowNames
    return some (axes ++ more.flatten).eraseDups
  | none, true => return some axes.eraseDups
  | none, false => return none

theorem matrixAxes_eq (wordings : Store) (strategy : Value) :
    Build.matrixAxes wordings.wording strategy =
      match strategy.matrix? with
      | none => .ok (some [])
      | some (.map matrix) => wordings.collected matrix
      | some _ => .ok none := rfl

/-- The axes that are collected from a strategy are those of the matrix that its record shows. -/
theorem matrixAxes_written {strategy matrix : List (Value × Value)} {tree : Tree}
    (written : Written store strategy matrix) (rendered : store.plain (.map strategy) = .ok tree) :
    ∃ shown, tree.fields.lookup "matrix" = some shown ∧ shown.axes.Nodup ∧
      ∀ wordings : Store, Build.matrixAxes wordings.wording (.map strategy) = .ok (some shown.axes) := by
  obtain ⟨fields, rfl, shows⟩ := shows_of_plain written.keyed rendered
  have found := lookup_of_shows shows "matrix"
  rw [show Value.lookup? (.text "matrix") strategy = _ from written.found] at found
  obtain ⟨shown, there, plain⟩ : ∃ shown, fields.lookup "matrix" = some shown ∧ store.plain (.map matrix) = .ok shown := by
    generalize fields.lookup "matrix" = other at found
    cases found with
    | some plain => exact ⟨_, rfl, plain⟩
  obtain ⟨entries, rfl, shows⟩ := shows_of_plain written.keys plain
  have distinct : (Tree.record entries).matrixKeys.Nodup := by
    have keys := written.keys.2
    rw [keys_of_shows shows, ← Function.comp_def, ← List.map_map] at keys
    rw [Tree.matrixKeys, Tree.keys, Tree.fields_record]
    exact keys.of_map.filter _
  rw [Tree.fields_record]
  refine ⟨_, there, ?_, ?_⟩
  · refine List.nodup_append.mpr ⟨distinct, nodup_eraseDups _, fun key own other added same => ?_⟩
    obtain ⟨-, apart⟩ := List.mem_filter.mp (List.mem_eraseDups.mp added)
    exact of_decide_eq_true apart (same ▸ own)
  · intro wordings
    have own := names_of_matrix wordings shows
    have dedup (more : List String) : ((Tree.record entries).matrixKeys ++ more).eraseDups =
        (Tree.record entries).matrixKeys ++ (more.filter (· ∉ (Tree.record entries).matrixKeys)).eraseDups := by
      rw [List.eraseDups_append, eraseDups_of_nodup distinct, List.removeAll]
      simp
    rw [matrixAxes_eq, written.found]
    dsimp only
    rw [collected, own]
    rcases written.rows with none | ⟨rows, listed, each⟩
    · have empty := rowKeys_of_null shows none
      have alone := dedup []
      rw [List.append_nil] at alone
      rw [none, Tree.axes, empty, ← alone]
      rfl
    · obtain ⟨names, told, flat⟩ := names_of_rows wordings shows listed each
      rw [listed, Tree.axes, ← dedup, ← flat]
      exact congrArg (· >>= fun more => Except.ok (some ((Tree.record entries).matrixKeys ++ more.flatten).eraseDups)) told

theorem matrixAxes_computed (wordings : Store) {strategy : Value} (computed : Computed strategy) :
    Build.matrixAxes wordings.wording strategy = .ok none := by
  rw [matrixAxes_eq]
  cases computed with
  | @matrix matrix found other =>
    rw [found]
    cases matrix with
    | map entries => exact absurd rfl (other entries)
    | _ => rfl
  | @rows matrix found named other rows =>
    have each : ∀ entry ∈ matrix.filter fun entry => !Build.isMatrixRow entry.1, ∃ name, wordings.wording entry.1 = .ok name := by
      intro entry member
      obtain ⟨name, same⟩ := named entry (List.mem_of_mem_filter member)
      exact ⟨name, by rw [same]; rfl⟩
    obtain ⟨names, told⟩ := exists_mapM each
    have filled : (Value.included matrix).isNull = false := by
      rw [← Bool.not_eq_true]
      exact mt eq_null other
    rw [found]
    dsimp only
    rw [collected, told, rows, filled]
    rfl

theorem matrixAxes_missing (wordings : Store) {strategy : Value} (missing : strategy.matrix? = none) :
    Build.matrixAxes wordings.wording strategy = .ok (some []) := by
  rw [matrixAxes_eq, missing]

end Store

namespace Build

open Value (Written Computed IsRow TextKeyed)

/-- A strategy is stored, and the axes that it names replace those named before. -/
theorem job_after_strategy {call : Call} {job : Nat} {workspace between : Workspace} {argument value : Value} (tame : Tame call)
    (has : workspace.store.Has (.job job)) (given : argumentValue call job argument workspace = .ok (value, between))
    {axes : Option (List String)} (named : ∀ wordings : Store, matrixAxes wordings.wording value = .ok axes) :
    ((callJob call job "strategy" [argument]).run workspace).2.store.job job =
      { (workspace.store.job job).set .strategy value with axes } := by
  unfold argumentValue at given
  rcases resolved : (resolve call (jobKnown job) argument).run workspace with ⟨failure | result, entered⟩
  · rw [resolved] at given
    cases given
  rw [resolved] at given
  cases given
  have keeps : Store.Keeps [] workspace.store between.store :=
    (maintains_resolve tame (maintains_jobKnown job) argument).run resolved
  have ran : ((callJob call job "strategy" [argument]).run workspace).2 =
      ((recordNames job .strategy value).run (between.withJob job (·.set .strategy value))).2 := by
    rw [show "strategy" = JobField.strategy.setter from rfl, Told.callJob_setter, run_bind_ok resolved]
    exact Told.run_bind_pure_snd _ _ _
  have stored := Workspace.job_withJob (keeps.has _ has) (·.set .strategy value)
  have there : (between.withJob job (·.set .strategy value)).store.Has (.job job) := Workspace.has_withJob.mpr (keeps.has _ has)
  rw [ran]
  rcases noted : (recordNames job .strategy value).run (between.withJob job (·.set .strategy value)) with ⟨result, after⟩
  cases recordNames_outcome noted with
  | none strategy => exact absurd rfl strategy
  | @axes _ found _ _ told same =>
    cases told.symm.trans (named _)
    rw [same, Workspace.job_withJob there, stored, keeps.same (.job job) has List.not_mem_nil]
  | axesUntold untold => cases untold.symm.trans (named _)

/-- The callbacks of a job may refer to certain axes, though not to one without a name, which no path has.
Only if an id of a step or an output of a step with an id cannot be looked up no callback is called at all. -/
def Offers (job : Nat) (axis : String → Prop) (workspace : Workspace) : Prop :=
  (∃ known, Consults job known workspace ∧ ∀ name : Label,
    Settles (reference known "axis" [.ofLabel name]) (axis name.chars ∧ name.chars ≠ "") [.text "matrix", name]) ∨
  (∃ step ∈ (workspace.store.job job).steps, ¬ (workspace.store.step step).Tracked) ∧ ∃ failure, Refuses job failure workspace

theorem axes_of_knownNames {store : Store} {job : Job} {known : Known} (told : store.knownNames job = .ok known) :
    known.axes = job.axes := by
  obtain ⟨outputs, -, same⟩ := ok_of_bind told
  cases same
  rfl

theorem offers_axes (job : Nat) (workspace : Workspace) :
    Offers job (fun name => ∀ axes, (workspace.store.job job).axes = some axes → name ∈ axes) workspace := by
  rcases consults_or_refuses job workspace with ⟨known, told, consults⟩ | ⟨failure, untold, refuses⟩
  · refine .inl ⟨known, consults, fun name => ?_⟩
    rw [← axes_of_knownNames told]
    exact settles_extend "matrix axis" "matrix" (List.forall_mem_nil _) known.axes name
  · exact .inr ⟨Store.exists_untracked untold, failure, refuses⟩

/-- Whatever axes a job had, a strategy replaces them. A strategy under texts that says what its axes are leaves
those of the matrix that its record shows, without repetition; a strategy whose matrix or rows are only known
when the workflow runs leaves them open, and one without a matrix leaves none. Callbacks are checked against
what has been left. -/
theorem strategy_names_axes {depth job : Nat} {workspace between : Workspace} {argument value : Value}
    (has : workspace.store.Has (.job job))
    (given : argumentValue (callWithin depth) job argument workspace = .ok (value, between)) :
    let after := ((callJob (callWithin depth) job "strategy" [argument]).run workspace).2
    let leaves (axes : Option (List String)) := after.store.job job = { (workspace.store.job job).set .strategy value with axes }
    (∀ store strategy matrix tree, value = .map strategy → Written store strategy matrix → store.plain value = .ok tree →
      ∃ shown, tree.fields.lookup "matrix" = some shown ∧ shown.axes.Nodup ∧
        leaves (some shown.axes) ∧ Offers job (· ∈ shown.axes) after) ∧
    (Computed value → leaves none ∧ Offers job (fun _ => True) after) ∧
    (value.matrix? = none → leaves (some []) ∧ Offers job (fun _ => False) after) := by
  intro after leaves
  have left {axes : Option (List String)} (named : ∀ wordings : Store, matrixAxes wordings.wording value = .ok axes) :
      leaves axes ∧ Offers job (fun name => ∀ names, axes = some names → name ∈ names) after := by
    have same : leaves axes := job_after_strategy (tame_callWithin depth) has given named
    have offers := offers_axes job after
    rw [same] at offers
    exact ⟨same, offers⟩
  refine ⟨?_, fun computed => ?_, fun missing => ?_⟩
  · rintro store strategy matrix tree rfl written rendered
    obtain ⟨shown, found, distinct, named⟩ := Store.matrixAxes_written written rendered
    obtain ⟨same, offers⟩ := left named
    exact ⟨shown, found, distinct, same, by simpa using offers⟩
  · obtain ⟨same, offers⟩ := left fun wordings => Store.matrixAxes_computed wordings computed
    exact ⟨same, by simpa using offers⟩
  · obtain ⟨same, offers⟩ := left fun wordings => Store.matrixAxes_missing wordings missing
    exact ⟨same, by simpa using offers⟩

/-- A matrix with rows that share keys with it and with one another. -/
def crossing : List (Value × Value) := [
  (.text "os", .list [.text "linux", .text "windows"]), (.text "exclude", .list []), (.text "python", .list [.int 3]),
  (.text "include", .tuple [
    .map [(.text "os", .text "mac"), (.text "beta", .bool true)], .text "arm",
    .map [(.text "node", .int 20), (.text "beta", .bool false), (.text "python", .int 4)]])]

/-- A job that had another axis before. -/
def rearranged : Workspace := drafted.withJob 0 fun job => { job with axes := some ["arch"] }

theorem written_crossing : Written drafted.store [(.text "matrix", .map crossing)] crossing where
  keyed := ⟨by simp [Event.AllNamed], by simp⟩
  found := by simp [Value.matrix?, Value.lookup?, Publish.equals_text]
  keys := ⟨by simp [Event.AllNamed, crossing], by simp [crossing]⟩
  rows := by
    refine .inr ⟨_, by simp [Value.included, Value.lookup?, Publish.equals_text, crossing]; rfl, ?_⟩
    rintro row (_ | ⟨_, _ | ⟨_, _ | ⟨_, ⟨⟩⟩⟩⟩)
    · exact .inl ⟨_, rfl, by simp [TextKeyed, Event.AllNamed]⟩
    · exact .inr fun entries rendered => by cases rendered
    · exact .inl ⟨_, rfl, by simp [TextKeyed, Event.AllNamed]⟩

theorem strategy_names_axes_crossing :
    let after := ((callJob (callWithin 1) 0 "strategy" [.map [(.text "matrix", .map crossing)]]).run rearranged).2
    (rearranged.store.job 0).axes = some ["arch"] ∧
    (after.store.job 0).axes = some ["os", "python", "beta", "node"] ∧ Offers 0 (· ∈ ["os", "python", "beta", "node"]) after := by
  have given : argumentValue (callWithin 1) 0 (.map [(.text "matrix", .map crossing)]) rearranged =
      .ok (.map [(.text "matrix", .map crossing)], rearranged) := rfl
  obtain ⟨written, -⟩ := strategy_names_axes (by decide) given
  obtain ⟨shown, found, -, same, offers⟩ := written drafted.store _ crossing _ rfl written_crossing rfl
  have axes : shown.axes = ["os", "python", "beta", "node"] := by
    cases found
    decide
  rw [axes] at same offers
  exact ⟨rfl, congrArg Job.axes same, offers⟩

end Build

end WorkflowCompiler
