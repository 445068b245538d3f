import WorkflowCompiler.Proofs.Results
import WorkflowCompiler.Value.Equality

/-! Members of sets spelled out: a value with the text of each member in the member's place. Values
and their spelled copies are equal to the same things, are keys alike, and have the same items,
segments and characters. Failures are compared by their categories, as their messages may name the
types of values and show the values themselves. -/

namespace WorkflowCompiler

namespace Failure

mutual

/-- The failure without its messages. -/
def bare : Failure → Failure
  | .mk cause children => .mk (.stated cause.category "") (bareAll children)

def bareAll : List Failure → List Failure
  | [] => []
  | failure :: rest => bare failure :: bareAll rest

end

@[simp] theorem bareAll_eq (failures : List Failure) : bareAll failures = failures.map bare := by
  induction failures with
  | nil => rfl
  | cons failure rest ih => rw [bareAll, ih, List.map_cons]

@[simp] theorem category_bare (failure : Failure) : failure.bare.category = failure.category := by
  cases failure
  rfl

theorem bare_ofCause {cause other : Cause} (same : cause.category = other.category) :
    (ofCause cause).bare = (ofCause other).bare := by
  simp [ofCause, bare, same]

theorem children_bare (failure : Failure) : failure.bare.children = failure.children.map bare := by
  cases failure
  exact bareAll_eq _

theorem flatten_bare (failures : List Failure) : (flatten failures).map bare = flatten (failures.map bare) := by
  rw [flatten, flatten, List.map_flatMap, List.flatMap_map]
  refine List.flatMap_congr fun failure _ => ?_
  rw [category_bare, children_bare]
  split <;> rfl

theorem bare_collect {cause other : Cause} {failures copies : List Failure} (alike : cause.category = other.category)
    (same : failures.map bare = copies.map bare) : (collect cause failures).bare = (collect other copies).bare := by
  simp [collect, bare, alike, flatten_bare, same]

end Failure

/-- Two results that stand in a relation, or two failures that differ in their messages alone. -/
inductive Agrees (same : α → β → Prop) : Except Failure α → Except Failure β → Prop
  | ok {value : α} {copy : β} (related : same value copy) : Agrees same (.ok value) (.ok copy)
  | error {failure other : Failure} (alike : failure.bare = other.bare) : Agrees same (.error failure) (.error other)

namespace Agrees

variable {same : α → β → Prop} {first : Except Failure α} {copy : Except Failure β}

theorem fail {cause other : Cause} (alike : cause.category = other.category) :
    Agrees same (.error (.ofCause cause)) (.error (.ofCause other)) := .error (Failure.bare_ofCause alike)

theorem refl (result : Except Failure α) : Agrees Eq result result := by
  cases result with
  | ok value => exact .ok rfl
  | error failure => exact .error rfl

theorem mono {weaker : α → β → Prop} (agrees : Agrees same first copy) (weaken : ∀ value other, same value other → weaker value other) :
    Agrees weaker first copy := by
  cases agrees with
  | ok related => exact .ok (weaken _ _ related)
  | error alike => exact .error alike

/-- What is known of the first result may be used with what relates both. -/
theorem gives {good : α → Prop} (agrees : Agrees same first copy) (fine : Gives good first) :
    Agrees (fun value copied => good value ∧ same value copied) first copy := by
  cases agrees with
  | ok related => exact .ok ⟨fine _ rfl, related⟩
  | error alike => exact .error alike

theorem bind {after : γ → δ → Prop} {next : α → Except Failure γ} {other : β → Except Failure δ}
    (agrees : Agrees same first copy)
    (later : ∀ value copied, same value copied → Agrees after (next value) (other copied)) :
    Agrees after (first >>= next) (copy >>= other) := by
  cases agrees with
  | ok related => exact later _ _ related
  | error alike => exact .error alike

/-- A result whose copy is changed in one way: the copy goes on from the changed value. -/
theorem next {change : α → β} {after : γ → δ → Prop} {next : α → Except Failure γ} {other : β → Except Failure δ}
    (agrees : Agrees (change · = ·) first copy) (later : ∀ value, Agrees after (next value) (other (change value))) :
    Agrees after (first >>= next) (copy >>= other) :=
  agrees.bind fun value _ related => related ▸ later value

/-- Two results that agree with a third. -/
theorem both {same' : γ → β → Prop} {second : Except Failure γ} (agrees : Agrees same first copy) (agrees' : Agrees same' second copy) :
    Agrees (fun value other => ∃ copied, same value copied ∧ same' other copied) first second := by
  cases agrees with
  | ok related =>
    cases agrees' with
    | ok related' => exact .ok ⟨_, related, related'⟩
  | error alike =>
    cases agrees' with
    | error alike' => exact .error (alike.trans alike'.symm)

theorem equal {second : Except Failure α} {copy : Except Failure α} (agrees : Agrees Eq first copy) (agrees' : Agrees Eq second copy) :
    Agrees Eq first second :=
  (agrees.both agrees').mono fun _ _ ⟨_, one, two⟩ => one.trans two.symm

theorem mapM (change : γ → δ) {make : α → Except Failure γ} {other : β → Except Failure δ} {spell : α → β} {items : List α}
    (each : ∀ item ∈ items, Agrees (change · = ·) (make item) (other (spell item))) :
    Agrees (List.map change · = ·) (items.mapM make) ((items.map spell).mapM other) := by
  induction items with
  | nil => exact .ok rfl
  | cons item rest ih =>
    obtain ⟨one, others⟩ := List.forall_mem_cons.mp each
    rw [List.map_cons, List.mapM_cons, List.mapM_cons]
    refine one.bind fun value _ alike => (ih others).bind fun values _ more => .ok ?_
    rw [List.map_cons, alike, more]

/-- What is equal for each item is equal for the list. -/
theorem mapM_eq {make : α → Except Failure γ} {other : β → Except Failure γ} {spell : α → β} {items : List α}
    (each : ∀ item ∈ items, Agrees Eq (make item) (other (spell item))) :
    Agrees Eq (items.mapM make) ((items.map spell).mapM other) :=
  (mapM id fun item member => (each item member).mono fun _ _ => (id : _ → id _ = _)).mono fun _ _ alike =>
    (List.map_id _).symm.trans alike

end Agrees

/-- The text of a segment, as a segment. -/
def Label.spelled (label : Label) : Label := .text label.chars

@[simp] theorem Label.chars_spelled (label : Label) : label.spelled.chars = label.chars := rfl

theorem Choice.text_ne_empty (choice : Choice) : choice.text ≠ "" := by
  rcases choice with operator | runner | shell | permissions
  · cases operator <;> decide
  · cases runner <;> decide
  · cases shell <;> decide
  · cases permissions <;> decide

namespace Value

mutual

/-- The value with the text of each member in its place. -/
def spelled : Value → Value
  | .choice value => .text value.text
  | .list items => .list (spelledItems items)
  | .tuple items => .tuple (spelledItems items)
  | .map entries => .map (spelledEntries entries)
  | .path segments => .path (segments.map Label.spelled)
  | .pathLike identity segments => .pathLike identity (spelled segments)
  | .command line output exported => .command (spelled line) (spelled output) (spelled exported)
  | .event kind settings => .event kind (spelledItems settings)
  | .input kind settings => .input kind (spelledItems settings)
  | value => value

def spelledItems : List Value → List Value
  | [] => []
  | value :: rest => spelled value :: spelledItems rest

def spelledEntries : List (Value × Value) → List (Value × Value)
  | [] => []
  | entry :: rest => spelledEntry entry :: spelledEntries rest

def spelledEntry : Value × Value → Value × Value
  | (key, value) => (spelled key, spelled value)

end

@[simp] theorem spelledItems_eq (items : List Value) : spelledItems items = items.map spelled := by
  induction items with
  | nil => rfl
  | cons value rest ih => rw [spelledItems, ih, List.map_cons]

@[simp] theorem spelledEntries_eq (entries : List (Value × Value)) : spelledEntries entries = entries.map (Prod.map spelled spelled) := by
  induction entries with
  | nil => rfl
  | cons entry rest ih => rw [spelledEntries, ih, List.map_cons, spelledEntry]; rfl

@[simp] theorem spelled_text (value : String) : spelled (.text value) = .text value := rfl

@[simp] theorem spelled_int (value : Int) : spelled (.int value) = .int value := rfl

@[simp] theorem spelled_list (items : List Value) : spelled (.list items) = .list (items.map spelled) :=
  congrArg Value.list (spelledItems_eq items)

@[simp] theorem spelled_tuple (items : List Value) : spelled (.tuple items) = .tuple (items.map spelled) :=
  congrArg Value.tuple (spelledItems_eq items)

@[simp] theorem spelled_map (entries : List (Value × Value)) : spelled (.map entries) = .map (entries.map (Prod.map spelled spelled)) :=
  congrArg Value.map (spelledEntries_eq entries)

@[simp] theorem spelled_ofLabel (label : Label) : (ofLabel label).spelled = ofLabel label.spelled := by
  cases label <;> rfl

@[simp] theorem label?_spelled (value : Value) : value.spelled.label? = value.label?.map Label.spelled := by
  cases value <;> rfl

@[simp] theorem chars?_spelled (value : Value) : value.spelled.chars? = value.chars? := by
  cases value <;> rfl

@[simp] theorem isNull_spelled (value : Value) : value.spelled.isNull = value.isNull := by
  cases value <;> rfl

@[simp] theorem items?_spelled (value : Value) : value.spelled.items? = value.items?.map (List.map spelled) := by
  cases value <;> first
    | rfl
    | simp [items?]

@[simp] theorem size?_spelled (value : Value) : value.spelled.size? = value.size? := by
  cases value <;> rfl

@[simp] theorem segments?_spelled (value : Value) : value.spelled.segments? = value.segments?.map (List.map Label.spelled) := by
  cases value with
  | pathLike identity segments =>
    have labels (items : List Value) :
        (items.map spelled).mapM label? = (items.mapM label?).map (List.map Label.spelled) := by
      induction items with
      | nil => rfl
      | cons item rest ih =>
        rw [List.map_cons, List.mapM_cons, List.mapM_cons, label?_spelled, ih]
        cases item.label? <;> cases rest.mapM label? <;> rfl
    show (segments.spelled.items?.bind fun items => items.mapM label?) = _
    rw [items?_spelled]
    cases onItems : segments.items? with
    | none => simp [segments?, onItems]
    | some items => simp [segments?, onItems, labels]
  | _ => rfl

@[simp] theorem isPath_spelled (value : Value) : value.spelled.isPath = value.isPath := by
  rw [isPath, segments?_spelled, Option.isSome_map, isPath]

@[simp] theorem asList_spelled (value : Value) : value.spelled.asList = value.asList.map spelled := by
  cases value <;> first
    | rfl
    | simp [asList]

@[simp] theorem isEmpty_spelled (value : Value) : value.spelled.isEmpty = value.isEmpty := by
  cases value <;> first
    | rfl
    | simp [isEmpty]

theorem truth_spelled (value : Value) : value.spelled.truth = value.truth := by
  cases value with
  | choice value =>
    show truth (.text value.text) = .ok true
    simp [truth, Choice.text_ne_empty]
  | list | tuple | map => simp [truth]
  | _ => rfl

theorem iterate_spelled (value : Value) : Agrees (List.map spelled · = ·) value.iterate value.spelled.iterate := by
  cases value <;> first
    | exact .error rfl
    | exact .ok rfl
    | exact .ok (by simp)

section

variable {left right : Value}

theorem sameSize_spelled : sameSize left.spelled right.spelled = sameSize left right := by
  rw [sameSize, size?_spelled, size?_spelled, sameSize]

theorem sameChars_spelled : sameChars left.spelled right.spelled = sameChars left right := by
  rw [sameChars, chars?_spelled, chars?_spelled, sameChars]

/-- Values of different kinds are equal if they have the same size or the same characters. -/
theorem equals_apart (present : left.isNull = false) (apart : (left.ctorIdx == right.ctorIdx) = false) :
    equals left right = (sameSize left right || sameChars left right) := by
  rw [equals.eq_def]
  split
  all_goals
    first
      | rfl
      | exact Bool.noConfusion (show true = false from apart)
      | exact Bool.noConfusion (show true = false from present)

theorem equals_apart_spelled (present : left.isNull = false) (apart : (left.ctorIdx == right.ctorIdx) = false)
    (apart' : (left.spelled.ctorIdx == right.spelled.ctorIdx) = false) : equals left.spelled right.spelled = equals left right := by
  rw [equals_apart ((isNull_spelled left).trans present) apart', equals_apart present apart, sameSize_spelled, sameChars_spelled]

/-- So are numbers and texts, and what they are compared with. -/
theorem equals_scalar (scalar : left.size?.isSome ∨ left.label?.isSome) :
    equals left right = (sameSize left right || sameChars left right) := by
  cases left with
  | bool | int | float | text | choice => rw [equals] <;> simp
  | _ => simp [size?, label?] at scalar

theorem equals_scalar_spelled (scalar : left.size?.isSome ∨ left.label?.isSome) :
    equals left.spelled right.spelled = equals left right := by
  rw [equals_scalar scalar, equals_scalar (by rwa [size?_spelled, label?_spelled, Option.isSome_map]), sameSize_spelled, sameChars_spelled]

end

mutual

theorem equals_spelled (left right : Value) : equals left.spelled right.spelled = equals left right := by
  cases left with
  | null => simpa only [spelled, equals] using isNull_spelled right
  | bool | int | float => exact equals_scalar_spelled (.inl rfl)
  | text | choice => exact equals_scalar_spelled (.inr rfl)
  | list lefts =>
    cases right with
    | list rights => simpa [spelled, equals] using equalItems_spelled lefts rights
    | _ => exact equals_apart_spelled rfl rfl rfl
  | tuple lefts =>
    cases right with
    | tuple rights => simpa [spelled, equals] using equalItems_spelled lefts rights
    | _ => exact equals_apart_spelled rfl rfl rfl
  | map lefts =>
    cases right with
    | map rights => simp [spelled, equals, equalEntries_spelled lefts rights]
    | _ => exact equals_apart_spelled rfl rfl rfl
  | path lefts =>
    cases right with
    | path rights => simp [spelled, equals, Function.comp_def]
    | _ => exact equals_apart_spelled rfl rfl rfl
  | pathLike identity segments =>
    cases right with
    | pathLike identity' segments' => simp only [spelled, equals]
    | _ => exact equals_apart_spelled rfl rfl rfl
  | command line output exported =>
    cases right with
    | command line' output' exported' =>
      simp [spelled, equals, equals_spelled line line', equals_spelled output output', equals_spelled exported exported']
    | _ => exact equals_apart_spelled rfl rfl rfl
  | event kind settings =>
    cases right with
    | event kind' settings' => simp [spelled, equals, equalItems_spelled settings settings']
    | _ => exact equals_apart_spelled rfl rfl rfl
  | input kind settings =>
    cases right with
    | input kind' settings' => simp [spelled, equals, equalItems_spelled settings settings']
    | _ => exact equals_apart_spelled rfl rfl rfl
  | _ =>
    cases right with
    | _ => first | rfl | exact equals_apart_spelled rfl rfl rfl

theorem equalItems_spelled (lefts rights : List Value) :
    equalItems (lefts.map spelled) (rights.map spelled) = equalItems lefts rights := by
  cases lefts with
  | nil => cases rights <;> simp [equalItems]
  | cons left lefts =>
    cases rights with
    | nil => simp [equalItems]
    | cons right rights =>
      simp only [List.map_cons, equalItems, equals_spelled left right, equalItems_spelled lefts rights]

theorem equalEntries_spelled (lefts rights : List (Value × Value)) :
    equalEntries (lefts.map (Prod.map spelled spelled)) (rights.map (Prod.map spelled spelled)) = equalEntries lefts rights := by
  cases lefts with
  | nil => simp [equalEntries]
  | cons left lefts =>
    simp only [List.map_cons, equalEntries, hasEntry_spelled left rights, equalEntries_spelled lefts rights]

theorem hasEntry_spelled (left : Value × Value) (rights : List (Value × Value)) :
    hasEntry (Prod.map spelled spelled left) (rights.map (Prod.map spelled spelled)) = hasEntry left rights := by
  obtain ⟨key, value⟩ := left
  have onKey := fun other : Value × Value => equals_spelled key other.1
  have onValue := fun other : Value × Value => equals_spelled value other.2
  simp only [Prod.map_apply, hasEntry, List.find?_map, Function.comp_def, Prod.map_fst, onKey]
  cases rights.find? fun other => equals key other.1 with
  | none => rfl
  | some other => exact onValue other

end

attribute [simp] equals_spelled

theorem any_equals_spelled (value : Value) (others : List Value) :
    (others.map spelled).any (equals value.spelled) = others.any (equals value) := by
  rw [List.any_map]
  exact congrArg others.any (funext fun other => equals_spelled value other)

mutual

@[simp] theorem isKey_spelled (value : Value) : value.spelled.isKey = value.isKey := by
  cases value with
  | tuple items => simp [spelled, isKey, areKeys_spelled items]
  | command line output exported =>
    simp [spelled, isKey, isKey_spelled line, isKey_spelled output, isKey_spelled exported]
  | _ => simp [spelled, isKey]

theorem areKeys_spelled (items : List Value) : areKeys (items.map spelled) = areKeys items := by
  cases items with
  | nil => simp [areKeys]
  | cons value rest => simp [areKeys, isKey_spelled value, areKeys_spelled rest]

end

section

variable (spell : α → β) (key : Value) (item : α) (entries : List (Value × α))

theorem lookup?_spelled :
    lookup? key.spelled (entries.map (Prod.map spelled spell)) = (lookup? key entries).map spell := by
  simp only [lookup?, List.find?_map, Function.comp_def, Prod.map_fst, equals_spelled, Option.map_map]
  rfl

theorem insert_spelled :
    insert key.spelled (spell item) (entries.map (Prod.map spelled spell)) = (insert key item entries).map (Prod.map spelled spell) := by
  induction entries with
  | nil => rfl
  | cons entry rest ih =>
    obtain ⟨other, old⟩ := entry
    rw [List.map_cons, Prod.map_apply, insert, insert, equals_spelled, ih]
    split <;> rfl

theorem insertKey_spelled :
    Agrees (List.map (Prod.map spelled spell) · = ·) (insertKey entries key item)
      (insertKey (entries.map (Prod.map spelled spell)) key.spelled (spell item)) := by
  rw [insertKey, insertKey, isKey_spelled]
  split
  · exact .ok (insert_spelled spell key item entries).symm
  · exact .fail rfl

theorem ofEntries_spelled :
    Agrees (List.map (Prod.map spelled spell) · = ·) (ofEntries entries) (ofEntries (entries.map (Prod.map spelled spell))) := by
  have from_ (found : List (Value × α)) :
      Agrees (List.map (Prod.map spelled spell) · = ·)
        (entries.foldlM (fun found entry => insertKey found entry.1 entry.2) found)
        ((entries.map (Prod.map spelled spell)).foldlM (fun found entry => insertKey found entry.1 entry.2)
          (found.map (Prod.map spelled spell))) := by
    induction entries generalizing found with
    | nil => exact .ok rfl
    | cons entry rest ih =>
      rw [List.map_cons, List.foldlM_cons, List.foldlM_cons]
      refine (insertKey_spelled spell entry.1 entry.2 found).next fun found => ?_
      exact ih found
  exact from_ []

end

theorem pairs_spelled (value : Value) :
    Agrees (List.map (Prod.map spelled spelled) · = ·)
      (do
        let items ← value.iterate
        let pairs ← items.zipIdx.mapM fun (item, position) => do
          match ← item.iterate with
          | [key, item] => .ok (key, item)
          | parts => .error (.ofCause (.badPairLength position parts.length))
        ofEntries pairs)
      (do
        let items ← value.spelled.iterate
        let pairs ← items.zipIdx.mapM fun (item, position) => do
          match ← item.iterate with
          | [key, item] => .ok (key, item)
          | parts => .error (.ofCause (.badPairLength position parts.length))
        ofEntries pairs) := by
  refine (iterate_spelled value).next fun items => ?_
  rw [List.zipIdx_map]
  refine (Agrees.mapM (Prod.map spelled spelled) ?_).bind ?_
  · rintro ⟨item, position⟩ -
    refine (iterate_spelled item).next fun parts => ?_
    rcases parts with _ | ⟨key, _ | ⟨value, _ | ⟨third, rest⟩⟩⟩
    · exact .fail rfl
    · exact .fail rfl
    · exact .ok rfl
    · exact .fail rfl
  · rintro pairs _ rfl
    exact ofEntries_spelled spelled pairs

theorem toEntries_spelled (value : Value) :
    Agrees (List.map (Prod.map spelled spelled) · = ·) value.toEntries value.spelled.toEntries := by
  cases value with
  | map entries => exact .ok (by simp)
  | path segments => exact .error rfl
  | _ => exact pairs_spelled _

theorem itemEntries_spelled (value : Value) :
    Agrees (List.map (Prod.map spelled spelled) · = ·) value.itemEntries value.spelled.itemEntries := by
  cases value with
  | map entries => exact .ok (by simp)
  | _ => exact .fail rfl

theorem hashForm_sized (value : Value) (same : value.spelled = value) (size : Option Size) :
    (match size with
      | some (.whole whole) => .int (hashOfInt whole)
      | _ => value) =
    spelled (match size with
      | some (.whole whole) => .int (hashOfInt whole)
      | _ => value) := by
  split
  · rfl
  · exact same.symm

theorem hashForm_spelled (value : Value) : value.spelled.hashForm = value.hashForm.spelled := by
  cases value with
  | bool value => exact hashForm_sized (.bool value) rfl (some (.ofBool value))
  | int value => exact hashForm_sized (.int value) rfl (some (.whole value))
  | float value =>
    cases value with
    | infinite negative => rfl
    | finite negative mantissa exponent => exact hashForm_sized (.float (.finite negative mantissa exponent)) rfl (some (.ofFloat _))
    | notANumber => rfl
  | text value =>
    by_cases empty : value = ""
    · rw [empty]
      rfl
    · simp [spelled, hashForm, empty, size?]
  | choice value => simp [spelled, hashForm, Choice.text_ne_empty, size?]
  | bytes values => cases values <;> rfl
  | _ => simp [spelled, hashForm, size?]

theorem sameHash_spelled (left right : Value) : Agrees Eq (sameHash left right) (sameHash left.spelled right.spelled) := by
  rw [sameHash, sameHash, isKey_spelled, isKey_spelled, hashForm_spelled, hashForm_spelled, equals_spelled]
  exact .refl _

end Value

end WorkflowCompiler
