import WorkflowCompiler.Proofs.DiskPlaces
import WorkflowCompiler.Proofs.KebabCase
import WorkflowCompiler.Proofs.SpelledMakers

/-! Annotations and the lines that they are written as. A reader of such a line takes the first
`::` for the start of the message, so that the message may hold anything, while the properties
before it are told apart as long as their texts hold no comma and no colon. -/

namespace WorkflowCompiler

/-- What a line tells the runner to note. -/
structure Notice where
  kind : String
  properties : List (String × String)
  message : String
deriving DecidableEq

namespace Notice

/-- A text up to its first `::`, and what follows it. -/
def cutMark : List Char → Option (List Char × List Char)
  | ':' :: ':' :: rest => some ([], rest)
  | c :: rest => (cutMark rest).map fun (before, after) => (c :: before, after)
  | [] => none

/-- A property up to its first `=`, and what follows it. -/
def readProperty (text : List Char) : Option (String × String) :=
  match text.dropWhile (· != '=') with
  | _ :: value => some (String.ofList (text.takeWhile (· != '=')), String.ofList value)
  | [] => none

/-- Reads a kind and the properties that follow it after a space, if there is one. -/
def readHeader (header : List Char) : Option (String × List (String × String)) :=
  let kind := String.ofList (header.takeWhile (· != ' '))
  match header.dropWhile (· != ' ') with
  | _ :: properties => do return (kind, ← (properties.splitOn ',').mapM readProperty)
  | [] => some (kind, [])

/-- Reads a line that is an annotation. -/
def decode (line : String) : Option Notice :=
  match line.toList with
  | 'e' :: 'c' :: 'h' :: 'o' :: ' ' :: ':' :: ':' :: rest => do
    let (header, message) ← cutMark rest
    let (kind, properties) ← readHeader header
    return { kind, properties, message := String.ofList message }
  | _ => none

def propertyText (property : String × String) : String := property.1 ++ "=" ++ property.2

def joined (properties : List (String × String)) : String := ",".intercalate (properties.map propertyText)

/-- The line of an annotation. -/
def encode (note : Notice) : String :=
  if (joined note.properties).isEmpty then "echo ::" ++ note.kind ++ "::" ++ note.message
  else "echo ::" ++ note.kind ++ " " ++ joined note.properties ++ "::" ++ note.message

/-- A reader of the line can tell the kind, the names of the properties and their texts apart. -/
structure Clear (note : Notice) : Prop where
  kind : ' ' ∉ note.kind.toList ∧ ':' ∉ note.kind.toList
  names : ∀ property ∈ note.properties, ∀ c ∈ property.1.toList, c ∉ [',', ':', '=']
  texts : ∀ property ∈ note.properties, ',' ∉ property.2.toList ∧ ':' ∉ property.2.toList

theorem cutMark_append {header : List Char} (clear : ':' ∉ header) (message : List Char) :
    cutMark (header ++ ':' :: ':' :: message) = some (header, message) := by
  induction header with
  | nil => rfl
  | cons c rest ih =>
    have ⟨other, others⟩ := not_or.mp (List.mem_cons.not.mp clear)
    rw [List.cons_append, cutMark, ih others]
    · rfl
    · intro more
      simp [Ne.symm other]

theorem takeWhile_until {c : Char} {before : List Char} (clear : c ∉ before) (after : List Char) :
    (before ++ c :: after).takeWhile (· != c) = before ∧ (before ++ c :: after).dropWhile (· != c) = c :: after := by
  have inside : ∀ other ∈ before, (other != c) = true := fun other there => by
    rw [bne_iff_ne]
    rintro rfl
    exact clear there
  rw [List.takeWhile_append_of_pos inside, List.dropWhile_append_of_pos inside]
  simp

theorem toList_propertyText (property : String × String) :
    (propertyText property).toList = property.1.toList ++ '=' :: property.2.toList := by
  simp [propertyText]

theorem readProperty_text {property : String × String} (clear : '=' ∉ property.1.toList) :
    readProperty (propertyText property).toList = some property := by
  have ⟨before, after⟩ := takeWhile_until clear property.2.toList
  simp [readProperty, toList_propertyText, before, after]

theorem readHeader_bare {kind : String} (clear : ' ' ∉ kind.toList) : readHeader kind.toList = some (kind, []) := by
  have inside : ∀ c ∈ kind.toList, (c != ' ') = true := fun c there => by
    rw [bne_iff_ne]
    rintro rfl
    exact clear there
  rw [readHeader, List.takeWhile_eq_self_iff.mpr inside, List.dropWhile_eq_nil_iff.mpr inside]
  simp

variable {note : Notice}

theorem Clear.property (clear : note.Clear) {property : String × String} (there : property ∈ note.properties) :
    ',' ∉ (propertyText property).toList ∧ ':' ∉ (propertyText property).toList ∧ '=' ∉ property.1.toList := by
  have name := clear.names property there
  have text := clear.texts property there
  refine ⟨?_, ?_, fun equals => name '=' equals (by simp)⟩
  · simpa [toList_propertyText, text.1] using fun comma => name ',' comma (by simp)
  · simpa [toList_propertyText, text.2] using fun colon => name ':' colon (by simp)

theorem mapM_readProperty {properties : List (String × String)} (clear : ∀ property ∈ properties, '=' ∉ property.1.toList) :
    (properties.map fun property => (propertyText property).toList).mapM readProperty = some properties := by
  induction properties with
  | nil => rfl
  | cons property rest ih =>
    have ⟨first, others⟩ := List.forall_mem_cons.mp clear
    simp [List.mapM_cons, readProperty_text first, ih others]

theorem toList_joined (properties : List (String × String)) :
    (joined properties).toList = [','].intercalate (properties.map fun property => (propertyText property).toList) := by
  simp [joined, String.toList_intercalate, Function.comp_def]

theorem joined_eq_empty {properties : List (String × String)} : (joined properties).isEmpty = true ↔ properties = [] := by
  rw [String.isEmpty_iff]
  cases properties with
  | nil => simp [joined]
  | cons property rest =>
    refine iff_of_false (fun none => ?_) (List.cons_ne_nil property rest)
    have chars := congrArg String.toList none
    cases rest <;> simp [joined, propertyText] at chars

theorem splitOn_joined {properties : List (String × String)} (given : properties ≠ [])
    (clear : ∀ property ∈ properties, ',' ∉ (propertyText property).toList) :
    (joined properties).toList.splitOn ',' = properties.map fun property => (propertyText property).toList := by
  rw [toList_joined]
  refine List.splitOn_intercalate _ ?_ (by simpa using given)
  intro text there
  obtain ⟨property, inside, rfl⟩ := List.mem_map.mp there
  exact clear property inside

theorem colon_joined {properties : List (String × String)}
    (clear : ∀ property ∈ properties, ':' ∉ (propertyText property).toList) : ':' ∉ (joined properties).toList := by
  intro colon
  rw [toList_joined] at colon
  rcases Text.mem_of_mem_intercalate colon with between | ⟨text, there, inside⟩
  · simp at between
  · obtain ⟨property, given, rfl⟩ := List.mem_map.mp there
    exact clear property given inside

/-- What is written before the message. -/
def header (note : Notice) : String :=
  if note.properties = [] then note.kind else note.kind ++ " " ++ joined note.properties

theorem toList_encode (note : Notice) :
    note.encode.toList = "echo ::".toList ++ (note.header.toList ++ ':' :: ':' :: note.message.toList) := by
  by_cases bare : note.properties = []
  · simp [encode, header, bare, joined]
  · simp [encode, header, bare, mt joined_eq_empty.mp bare]

theorem Clear.header (clear : note.Clear) : ':' ∉ note.header.toList := by
  unfold Notice.header
  split
  · exact clear.kind.2
  · simp [clear.kind.2, colon_joined fun property there => (clear.property there).2.1]

theorem readHeader_header (clear : note.Clear) :
    readHeader note.header.toList = some (note.kind, note.properties) := by
  unfold header
  split
  · next bare => rw [readHeader_bare clear.kind.1, bare]
  · next given =>
    have shape : (note.kind ++ " " ++ joined note.properties).toList =
        note.kind.toList ++ ' ' :: (joined note.properties).toList := by simp
    have ⟨before, after⟩ := takeWhile_until clear.kind.1 (joined note.properties).toList
    rw [shape, readHeader, before, after]
    simp [splitOn_joined given fun property there => (clear.property there).1,
      mapM_readProperty fun property there => (clear.property there).2.2]

/-- A reader of the line of an annotation finds the annotation, whatever its message. -/
theorem decode_encode (clear : note.Clear) : decode note.encode = some note := by
  rw [decode, toList_encode]
  simp [cutMark_append clear.header, readHeader_header clear]

end Notice

/-- A value inside a line of a script, as it reads while the store is as it is. -/
def Store.inline (store : Store) : Value → Except Failure String
  | .expression identity => interpolation <$> store.expressionText identity
  | .bool value => .ok (Tree.boolText value)
  | value =>
    match value.segments? with
    | some segments => .ok (interpolation (dotted segments))
    | none => store.wording value

namespace Build

theorem run_lineText (value : Value) (workspace : Workspace) :
    (lineText value).run workspace = (workspace.store.inline value, workspace) := by
  cases value with
  | expression identity =>
    have same : lineText (.expression identity) = ask (·.expressionText identity) >>= fun text => pure (interpolation text) := rfl
    rw [same, run_bind, run_ask_eq]
    simp only [Store.inline]
    cases workspace.store.expressionText identity <;> rfl
  | pathLike identity inner =>
    rcases reads : (Value.pathLike identity inner).segments? with _ | segments
    · simp only [lineText, Store.inline, reads]
      exact run_ask_eq (·.wording (.pathLike identity inner)) workspace
    · simp only [lineText, Store.inline, reads]
      rfl
  | bool value => rfl
  | path segments => rfl
  | _ => exact run_ask_eq (fun store => store.wording _) workspace

/-- The properties of an annotation as they are written. -/
def propertyTexts (store : Store) (given : List (String × Value)) : Except Failure (List (String × String)) :=
  given.mapM fun (key, value) => do return (key, ← store.inline value)

theorem run_properties (given : List (String × Value)) (workspace : Workspace) :
    (given.mapM fun (key, value) => do return s!"{key}={← lineText value}" : Build (List String)).run workspace =
      ((List.map Notice.propertyText) <$> propertyTexts workspace.store given, workspace) := by
  induction given with
  | nil => rfl
  | cons property rest ih =>
    obtain ⟨key, value⟩ := property
    rw [List.mapM_cons, run_bind, run_bind, run_lineText, propertyTexts, List.mapM_cons, ← propertyTexts]
    dsimp only
    rcases workspace.store.inline value with failure | text
    · rfl
    · dsimp only [run_pure]
      rw [run_bind, ih]
      rcases propertyTexts workspace.store rest with failure | texts <;> rfl

theorem run_notice (kind : String) (message : Value) (arguments : List (String × Value)) (workspace : Workspace) :
    (notice kind message arguments).run workspace =
      (do
        let properties ← propertyTexts workspace.store (givenProperties arguments)
        let message ← workspace.store.inline message
        return line (Notice.encode { kind, properties, message }), workspace) := by
  rw [notice_eq, run_bind, run_properties]
  rcases propertyTexts workspace.store (givenProperties arguments) with failure | texts
  · rfl
  · simp only [Functor.map, Except.map, run_bind, run_lineText]
    rcases workspace.store.inline message with failure | text <;> rfl

section arguments

variable {positional names : List String} {values : List Value} {named : List (String × Value)}

/-- Every argument has a parameter of its own. -/
def Accepts (positional names : List String) (values : List Value) (named : List (String × Value)) : Prop :=
  values.length ≤ positional.length ∧
    ∀ argument ∈ named, argument.1 ∈ positional ++ names ∧ argument.1 ∉ (positional.zip values).map Prod.fst

theorem run_forIn_unless (cause : Cause) (refuses : α → Bool) (items : List α) (workspace : Workspace) :
    (forIn items PUnit.unit fun item _ =>
      if refuses item = true then do
        fail cause
        pure (.yield PUnit.unit)
      else pure (.yield PUnit.unit) : Build PUnit).run workspace =
      (if items.any refuses then .error (.ofCause cause) else .ok PUnit.unit, workspace) := by
  induction items with
  | nil => rfl
  | cons item rest ih =>
    rw [List.forIn_cons, run_bind]
    cases refused : refuses item with
    | true =>
      simp only [List.any_cons, refused, Bool.true_or, if_true]
      rfl
    | false =>
      simp only [List.any_cons, refused, Bool.false_or, Bool.false_eq_true, if_false, run_pure]
      exact ih

/-- Arguments are put under the names of their parameters just if they are all accepted. -/
theorem run_bindArguments_ok_iff {arguments : List (String × Value)} {workspace after : Workspace} :
    (bindArguments positional names values named).run workspace = (.ok arguments, after) ↔
      Accepts positional names values named ∧ arguments = positional.zip values ++ named ∧ after = workspace := by
  have refuses : (named.any fun argument => !(positional ++ names).contains argument.1 ||
      (positional.zip values).any (·.1 == argument.1)) = true ↔
      ¬ ∀ argument ∈ named, argument.1 ∈ positional ++ names ∧ argument.1 ∉ (positional.zip values).map Prod.fst := by
    simp only [List.any_eq_true, Bool.or_eq_true, Bool.not_eq_true', List.contains_eq_mem, decide_eq_false_iff_not, beq_iff_eq,
      List.mem_map, not_forall, exists_prop, not_and_or, not_not]
  unfold bindArguments
  dsimp only
  by_cases short : values.length ≤ positional.length
  · rw [if_neg (Nat.not_lt.mpr short), run_bind, run_forIn_unless]
    by_cases taken : ∀ argument ∈ named, argument.1 ∈ positional ++ names ∧ argument.1 ∉ (positional.zip values).map Prod.fst
    · have accepts : Accepts positional names values named := ⟨short, taken⟩
      rw [if_neg (mt refuses.mp (not_not.mpr taken))]
      simp [accepts, eq_comm]
    · rw [if_pos (refuses.mpr taken)]
      exact iff_of_false nofun fun accepted => taken accepted.1.2
  · rw [if_pos (Nat.not_le.mp short)]
    exact iff_of_false nofun fun accepted => short accepted.1.1

theorem run_argument_ok_iff {arguments : List (String × Value)} {name : String} {value : Value} {workspace after : Workspace} :
    (argument arguments name).run workspace = (.ok value, after) ↔ argument? arguments name = some value ∧ after = workspace := by
  rw [argument]
  cases argument? arguments name with
  | none => exact iff_of_false (fun failed => by cases failed) fun found => by cases found.1
  | some other => simp [eq_comm]

theorem keys_zip (names : List α) (items : List β) : ((names.zip items).map Prod.fst).Sublist names := by
  induction names generalizing items with
  | nil => exact List.Sublist.refl []
  | cons name names ih =>
    cases items with
    | nil => exact List.nil_sublist _
    | cons item items => exact (ih items).cons_cons name

/-- Arguments that are all taken have distinct names if those given by name have. -/
theorem Accepts.distinct (accepts : Accepts positional names values named) (apart : positional.Nodup)
    (distinct : (named.map Prod.fst).Nodup) : ((positional.zip values ++ named).map Prod.fst).Nodup := by
  rw [List.map_append, List.nodup_append]
  refine ⟨apart.sublist (keys_zip positional values), distinct, ?_⟩
  rintro name placed _ given rfl
  obtain ⟨argument, there, rfl⟩ := List.mem_map.mp given
  exact (accepts.2 argument there).2 placed

theorem Accepts.perm {other : List (String × Value)} (accepts : Accepts positional names values named) (same : other.Perm named) :
    Accepts positional names values other :=
  ⟨accepts.1, fun argument there => accepts.2 argument (same.mem_iff.mp there)⟩

theorem argument?_perm {arguments others : List (String × Value)} (distinct : (arguments.map Prod.fst).Nodup)
    (same : others.Perm arguments) (name : String) : argument? others name = argument? arguments name := by
  have apart : (others.map Prod.fst).Nodup := (same.map Prod.fst).nodup_iff.mpr distinct
  apply Option.ext
  intro value
  rw [argument?, argument?, Disk.lookup_eq_some apart, Disk.lookup_eq_some distinct, same.mem_iff]

/-- A name that no position stands for is given by name if at all. -/
theorem argument?_named {name : String} {value : Value} (distinct : ((positional.zip values ++ named).map Prod.fst).Nodup)
    (free : name ∉ positional) :
    argument? (positional.zip values ++ named) name = some value ↔ (name, value) ∈ named := by
  rw [argument?, Disk.lookup_eq_some distinct, List.mem_append]
  exact or_iff_right fun placed => free (List.of_mem_zip placed).1

end arguments

section properties

variable {arguments : List (String × Value)} {key : String} {value : Value}

theorem givenProperties_eq (arguments : List (String × Value)) :
    givenProperties arguments =
      noticeProperties.filterMap fun property => ((argument? arguments property.2).filter (!·.isNull)).map (property.1, ·) := by
  refine List.filterMap_congr fun property _ => ?_
  simp only [argumentOr]
  rcases argument? arguments property.2 with _ | value
  · rfl
  · cases value <;> rfl

theorem mem_givenProperties : (key, value) ∈ givenProperties arguments ↔
    ∃ parameter, (key, parameter) ∈ noticeProperties ∧ argument? arguments parameter = some value ∧ value.isNull = false := by
  simp only [givenProperties_eq, List.mem_filterMap, Option.map_eq_some_iff, Option.filter_eq_some_iff, Prod.exists,
    Prod.mk.injEq, Bool.not_eq_true']
  constructor
  · rintro ⟨name, parameter, known, given, found, rfl, rfl⟩
    exact ⟨parameter, known, found⟩
  · rintro ⟨parameter, known, found⟩
    exact ⟨key, parameter, known, value, found, rfl, rfl⟩

theorem keys_givenProperties (arguments : List (String × Value)) :
    ((givenProperties arguments).map Prod.fst).Sublist (noticeProperties.map Prod.fst) := by
  rw [givenProperties_eq]
  generalize noticeProperties = properties
  induction properties with
  | nil => exact List.Sublist.refl []
  | cons property rest ih =>
    rcases given : (argument? arguments property.2).filter (!·.isNull) with _ | value
    · rw [List.filterMap_cons_none (by rw [given]; rfl)]
      exact ih.cons property.1
    · rw [List.filterMap_cons_some (by rw [given]; rfl)]
      exact ih.cons_cons property.1

theorem keys_propertyTexts {store : Store} {given : List (String × Value)} {properties : List (String × String)}
    (made : propertyTexts store given = .ok properties) : properties.map Prod.fst = given.map Prod.fst := by
  have paired := forall₂_of_mapM made
  clear made
  induction paired with
  | nil => rfl
  | cons one _ ih =>
    obtain ⟨text, -, same⟩ := ok_of_bind one
    cases same
    rw [List.map_cons, List.map_cons, ih]

theorem mem_propertyTexts {store : Store} {given : List (String × Value)} {properties : List (String × String)}
    (made : propertyTexts store given = .ok properties) {key text : String} :
    (key, text) ∈ properties ↔ ∃ value, (key, value) ∈ given ∧ store.inline value = .ok text := by
  have paired := forall₂_of_mapM made
  clear made
  induction paired with
  | nil => simp
  | @cons property written rest others one _ ih =>
    obtain ⟨name, value⟩ := property
    obtain ⟨here, reads, same⟩ := ok_of_bind one
    cases same
    simp only [List.mem_cons, Prod.mk.injEq, ih]
    constructor
    · rintro (⟨rfl, rfl⟩ | ⟨other, there, reads⟩)
      · exact ⟨value, .inl ⟨rfl, rfl⟩, reads⟩
      · exact ⟨other, .inr there, reads⟩
    · rintro ⟨other, ⟨rfl, rfl⟩ | there, written⟩
      · exact .inl ⟨rfl, Except.ok.inj (written.symm.trans reads)⟩
      · exact .inr ⟨other, there, written⟩

end properties

/-- The arguments of an annotation under the names of their parameters. -/
def noticeArguments (values : List Value) (named : List (String × Value)) : List (String × Value) := ["message"].zip values ++ named

variable {kind : String} {values : List Value} {named : List (String × Value)} {workspace after : Workspace} {result : Value}

theorem run_notice_ok_iff :
    (directive (.notice kind) values named).run workspace = (.ok result, after) ↔
      Accepts ["message"] (noticeProperties.map Prod.snd) values named ∧
      ∃ message properties text, argument? (noticeArguments values named) "message" = some message ∧
        propertyTexts workspace.store (givenProperties (noticeArguments values named)) = .ok properties ∧
        workspace.store.inline message = .ok text ∧ result = line (Notice.encode ⟨kind, properties, text⟩) ∧
        after = workspace := by
  have whole : directive (.notice kind) values named =
      (do
        let arguments ← bindArguments ["message"] (noticeProperties.map Prod.snd) values named
        let message ← argument arguments "message"
        notice kind message arguments) := rfl
  rw [whole]
  constructor
  · intro ran
    rcases run_bind_cases ran with ⟨failure, -, stops⟩ | ⟨arguments, between, bound, rest⟩
    · cases stops
    obtain ⟨accepts, rfl, rfl⟩ := run_bindArguments_ok_iff.mp bound
    rcases run_bind_cases rest with ⟨failure, -, stops⟩ | ⟨message, between, given, writes⟩
    · cases stops
    obtain ⟨found, rfl⟩ := run_argument_ok_iff.mp given
    rw [run_notice] at writes
    obtain ⟨built, rfl⟩ := Prod.mk.inj writes
    obtain ⟨properties, texts, built⟩ := ok_of_bind built
    obtain ⟨text, reads, built⟩ := ok_of_bind built
    cases built
    exact ⟨accepts, message, properties, text, found, texts, reads, rfl, rfl⟩
  · rintro ⟨accepts, message, properties, text, found, texts, reads, rfl, rfl⟩
    rw [run_bind_ok (run_bindArguments_ok_iff.mpr ⟨accepts, rfl, rfl⟩), ← noticeArguments,
      run_bind_ok (run_argument_ok_iff.mpr ⟨found, rfl⟩), run_notice, texts, reads]
    rfl

/-- An annotation is built the same way in whatever order its arguments are given by name. -/
theorem run_notice_perm {others : List (String × Value)} (distinct : (named.map Prod.fst).Nodup) (same : others.Perm named)
    (built : (directive (.notice kind) values named).run workspace = (.ok result, after)) :
    (directive (.notice kind) values others).run workspace = (.ok result, after) := by
  obtain ⟨accepts, message, properties, text, found, texts, reads, rfl, rfl⟩ := run_notice_ok_iff.mp built
  have apart := accepts.distinct (List.nodup_singleton "message") distinct
  have arguments (name : String) : argument? (noticeArguments values others) name = argument? (noticeArguments values named) name :=
    argument?_perm apart (same.append_left _) name
  have given : givenProperties (noticeArguments values others) = givenProperties (noticeArguments values named) := by
    simp only [givenProperties_eq, arguments]
  exact run_notice_ok_iff.mpr ⟨accepts.perm same, message, properties, text, by rw [arguments, found], by rw [given, texts], reads, rfl, rfl⟩

/-- The properties of an annotation are those given, as they read. -/
theorem mem_properties {properties : List (String × String)} {property : String × String} {text : String}
    (apart : ((noticeArguments values named).map Prod.fst).Nodup) (known : property ∈ noticeProperties)
    (texts : propertyTexts workspace.store (givenProperties (noticeArguments values named)) = .ok properties) :
    (property.1, text) ∈ properties ↔
      ∃ value, (property.2, value) ∈ named ∧ value.isNull = false ∧ workspace.store.inline value = .ok text := by
  have distinct : (noticeProperties.map Prod.fst).Nodup := by decide
  have free : ∀ property ∈ noticeProperties, property.2 ∉ ["message"] := by decide
  have given (value : Value) : argument? (noticeArguments values named) property.2 = some value ↔ (property.2, value) ∈ named :=
    argument?_named apart (free property known)
  rw [mem_propertyTexts texts]
  refine exists_congr fun value => ?_
  rw [mem_givenProperties, ← and_assoc, ← given]
  refine and_congr_left fun _ => ⟨?_, fun found => ⟨property.2, known, found⟩⟩
  rintro ⟨parameter, other, found⟩
  have same : property = (property.1, parameter) := List.inj_on_of_nodup_map distinct known other rfl
  rwa [same]

/-- Whoever reads the line of a built annotation finds its kind, the properties that were given
with their texts, in the order in which they are written, and the whole message. -/
theorem decode_notice {command : CommandKind}
    (known : (command, kind) ∈ [(.setNotice, "notice"), (.setWarning, "warning"), (.setError, "error")])
    (distinct : (named.map Prod.fst).Nodup)
    (built : (directive command values named).run workspace = (.ok result, after))
    (clear : ∀ parameter ∈ ["title", "file", "col", "end_column", "line", "end_line"], ∀ value text, (parameter, value) ∈ named →
      value.isNull = false → workspace.store.inline value = .ok text → ',' ∉ text.toList ∧ ':' ∉ text.toList) :
    ∃ note line message,
      result = .command (.text line) .null .null ∧ Notice.decode line = some note ∧ note.kind = kind ∧
      (message ∈ values ∨ ("message", message) ∈ named) ∧ workspace.store.inline message = .ok note.message ∧
      (note.properties.map Prod.fst).Sublist ["title", "file", "col", "endColumn", "line", "endLine"] ∧
      (∀ property ∈ [("title", "title"), ("file", "file"), ("col", "col"), ("endColumn", "end_column"), ("line", "line"),
          ("endLine", "end_line")], ∀ text, (property.1, text) ∈ note.properties ↔
        ∃ value, (property.2, value) ∈ named ∧ value.isNull = false ∧ workspace.store.inline value = .ok text) ∧
      after = workspace ∧
      ∀ others, others.Perm named → (directive command values others).run workspace = (.ok result, workspace) := by
  obtain ⟨allowed, rfl⟩ : kind ∈ ["notice", "warning", "error"] ∧ command = .notice kind := by
    have kinds : command = .setNotice ∧ kind = "notice" ∨ command = .setWarning ∧ kind = "warning" ∨
        command = .setError ∧ kind = "error" := by simpa using known
    rcases kinds with ⟨rfl, rfl⟩ | ⟨rfl, rfl⟩ | ⟨rfl, rfl⟩ <;> exact ⟨by decide, rfl⟩
  obtain ⟨accepts, message, properties, text, found, texts, reads, rfl, rfl⟩ := run_notice_ok_iff.mp built
  have apart : ((noticeArguments values named).map Prod.fst).Nodup := accepts.distinct (List.nodup_singleton "message") distinct
  have order : (properties.map Prod.fst).Sublist (noticeProperties.map Prod.fst) :=
    keys_propertyTexts texts ▸ keys_givenProperties _
  have cleared : Notice.Clear ⟨kind, properties, text⟩ := by
    refine ⟨?_, ?_, ?_⟩
    · have bare : ∀ kind ∈ ["notice", "warning", "error"], ' ' ∉ kind.toList ∧ ':' ∉ kind.toList := by decide
      exact bare kind allowed
    · intro property there
      have plain : ∀ name ∈ noticeProperties.map Prod.fst, ∀ c ∈ name.toList, c ∉ [',', ':', '='] := by simp [noticeProperties]
      exact plain property.1 (order.subset (List.mem_map_of_mem there))
    · intro property there
      obtain ⟨known, writes, same⟩ := List.mem_map.mp (order.subset (List.mem_map_of_mem there))
      obtain ⟨value, given, some, read⟩ := (mem_properties apart writes texts).mp (by rw [same]; exact there)
      exact clear known.2 (List.mem_map_of_mem writes) value property.2 given some read
  refine ⟨⟨kind, properties, text⟩, _, message, rfl, Notice.decode_encode cleared, rfl, ?_, reads, order,
    fun property writes text => mem_properties apart writes texts, rfl, fun others same => run_notice_perm distinct same built⟩
  rw [argument?, Disk.lookup_eq_some apart, noticeArguments, List.mem_append] at found
  exact found.imp_left fun placed => (List.of_mem_zip placed).2

/-- Properties out of order, one of them zero and one not given after all. -/
def placed : List (String × Value) := [("end_line", .int 9), ("title", .text "a=b"), ("file", .null), ("col", .int 0)]

theorem decode_notice_placed :
    (CommandKind.setWarning, "warning") ∈ [(.setNotice, "notice"), (.setWarning, "warning"), (.setError, "error")] ∧
    (placed.map Prod.fst).Nodup ∧
    (directive .setWarning [.text "x::y, z=1\n"] placed).run {} =
      (.ok (line "echo ::warning title=a=b,col=0,endLine=9::x::y, z=1\n"), {}) ∧
    (∀ parameter ∈ ["title", "file", "col", "end_column", "line", "end_line"], ∀ value text, (parameter, value) ∈ placed →
      value.isNull = false → Store.inline {} value = .ok text → ',' ∉ text.toList ∧ ':' ∉ text.toList) ∧
    ∃ note, Notice.decode "echo ::warning title=a=b,col=0,endLine=9::x::y, z=1\n" = some note ∧
      note.kind = "warning" ∧ ("title", "a=b") ∈ note.properties ∧ ("col", "0") ∈ note.properties := by
  have known : (CommandKind.setWarning, "warning") ∈ [(.setNotice, "notice"), (.setWarning, "warning"), (.setError, "error")] := by simp
  have distinct : (placed.map Prod.fst).Nodup := by decide
  have built : (directive .setWarning [.text "x::y, z=1\n"] placed).run {} =
      (.ok (line "echo ::warning title=a=b,col=0,endLine=9::x::y, z=1\n"), {}) := by rfl
  have clear : ∀ parameter ∈ ["title", "file", "col", "end_column", "line", "end_line"], ∀ value text, (parameter, value) ∈ placed →
      value.isNull = false → Store.inline {} value = .ok text → ',' ∉ text.toList ∧ ':' ∉ text.toList := by
    intro parameter _ value text given some reads
    simp only [placed, List.mem_cons, Prod.mk.injEq, List.not_mem_nil, or_false] at given
    rcases given with ⟨-, rfl⟩ | ⟨-, rfl⟩ | ⟨-, rfl⟩ | ⟨-, rfl⟩
    · cases reads
      decide
    · cases reads
      decide
    · cases some
    · cases reads
      decide
  obtain ⟨note, written, message, same, decoded, kind, -, -, -, properties, -⟩ := decode_notice known distinct built clear
  cases same
  exact ⟨known, distinct, built, clear, note, decoded, kind,
    (properties ("title", "title") (by decide) "a=b").mpr ⟨.text "a=b", by simp [placed], rfl, rfl⟩,
    (properties ("col", "col") (by decide) "0").mpr ⟨.int 0, by simp [placed], rfl, rfl⟩⟩

end Build

end WorkflowCompiler
