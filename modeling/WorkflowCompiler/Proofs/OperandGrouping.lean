import WorkflowCompiler.Proofs.FormulaSpelling
import WorkflowCompiler.Proofs.SoundMakers
import WorkflowCompiler.Script.Evaluate

/-! Operands of the operators written with a sign. Composing functions make an expression of earlier
ones only, so that each of them has a text. An operand that a binary operator made stands in
parentheses; passed on as an expression once more it does not, and it falls apart. -/

namespace WorkflowCompiler

open Value (AllWithin)
open Proofs Proofs.FormulaSpelling

namespace Store

/-- What there was when an expression was made. -/
def Earlier (bound : Nat) : Target → Prop
  | .expression identity => identity < bound
  | _ => True

theorem earlier_mono {bound later : Nat} (more : bound ≤ later) : Earlier bound ≤ Earlier later := by
  rintro (identity | identity | identity | identity) known
  · exact Nat.lt_of_lt_of_le known more
  all_goals trivial

/-- Each expression consists of earlier ones. -/
def Layered (store : Store) : Prop :=
  ∀ identity < store.expressions.length, (store.expression identity).Within (Earlier identity)

/-- The value names no expression that there is not. -/
def Knows (store : Store) (value : Value) : Prop := value.Within (Earlier store.expressions.length)

theorem Knows.grows {before after : Store} {value : Value} (knows : before.Knows value) (grows : Grows before after) : after.Knows value :=
  Value.Within.mono knows (earlier_mono grows.length_le)

theorem knows_expression {store : Store} {identity : Nat} :
    store.Knows (.expression identity) ↔ identity < store.expressions.length :=
  Build.within_expression

/-- The value is known, and compound or not if it is an expression. -/
def Built (compound : Bool) (store : Store) (value : Value) : Prop :=
  store.Knows value ∧ ∀ identity, value = .expression identity → (store.expression identity).compound = compound

theorem Layered.append {store : Store} (layered : store.Layered) {expression : Expression}
    (within : expression.Within (Earlier store.expressions.length)) :
    Layered { store with expressions := store.expressions ++ [expression] } := by
  have grows : Grows store { store with expressions := store.expressions ++ [expression] } := List.prefix_append _ _
  intro identity inside
  rcases Nat.lt_or_ge identity store.expressions.length with old | new
  · rw [grows.expression old]
    exact layered identity old
  · obtain rfl : identity = store.expressions.length := by
      simp only [List.length_append, List.length_singleton] at inside
      omega
    simpa [Store.expression] using within

/-- An expression that consists of earlier ones has a text, and keeps it. -/
theorem Layered.spells {store : Store} (layered : store.Layered) {identity : Nat} (inside : identity < store.expressions.length) :
    ∃ chars, Spells store identity (store.expression identity).compound chars := by
  induction identity using Nat.strongRecOn with
  | _ identity ih =>
    have parts : ∀ fragment ∈ (store.expression identity).contents, ∃ text : String,
        ∀ after, Grows store after → ∀ hops, identity ≤ hops → partText after hops fragment = .ok text := by
      intro fragment member
      cases fragment with
      | text value => exact ⟨value, fun _ _ _ _ => rfl⟩
      | path segments => exact ⟨dotted segments, fun _ _ _ _ => rfl⟩
      | nested inner =>
        have earlier : inner < identity := layered identity inside inner member
        obtain ⟨chars, -, -, text⟩ := ih inner earlier (Nat.lt_trans earlier inside)
        exact ⟨String.ofList chars, fun after grows hops enough => text after grows hops (Nat.lt_of_lt_of_le earlier enough)⟩
    choose! textOf texts using parts
    refine ⟨(String.join ((store.expression identity).contents.map textOf)).toList, inside, rfl, fun after grows hops enough => ?_⟩
    obtain ⟨hops, rfl⟩ : ∃ fewer, hops = fewer + 1 := ⟨hops - 1, by omega⟩
    have each : (store.expression identity).contents.mapM (partText after hops) =
        .ok ((store.expression identity).contents.map textOf) :=
      mapM_ok (List.forall₂_map_right_iff.mpr (List.forall₂_same.mpr fun fragment member =>
        texts fragment member after grows hops (by omega)))
    rw [expressionTextWithin_succ, grows.expression inside, each, String.ofList_toList]
    rfl

end Store

namespace Build

open Store (Earlier Layered Knows Built)

variable {start : Store} {good : Store → α → Prop} {better : Store → β → Prop}

/-- Whatever has been added to a store, building adds expressions of earlier ones only, and what it
gives is good for the store then. -/
def Layers (start : Store) (good : Store → α → Prop) (build : Build α) : Prop :=
  ∀ workspace, Grows start workspace.store → workspace.store.Layered →
    Grows workspace.store (build.run workspace).2.store ∧ (build.run workspace).2.store.Layered ∧
    Gives (good (build.run workspace).2.store) (build.run workspace).1

theorem layers_of_reads {build : Build α} (reads : Reads build)
    (gives : ∀ workspace, Grows start workspace.store → Gives (good workspace.store) (build.run workspace).1) :
    Layers start good build := by
  intro workspace grows layered
  rw [reads workspace]
  exact ⟨.refl _, layered, gives workspace grows⟩

theorem layers_fail (cause : Cause) : Layers start good (fail cause : Build α) :=
  layers_of_reads (reads_fail cause) fun _ _ => gives_error _ _

theorem layers_bind {first : Build α} {next : α → Build β} (onFirst : Layers start good first)
    (onNext : ∀ later value, Grows start later → good later value → Layers later better (next value)) :
    Layers start better (first >>= next) := by
  intro workspace grows layered
  obtain ⟨grown, kept, given⟩ := onFirst workspace grows layered
  rw [run_bind]
  revert grown kept given
  rcases first.run workspace with ⟨failure | value, between⟩
  · exact fun grown kept _ => ⟨grown, kept, gives_error _ _⟩
  · intro grown kept given
    obtain ⟨further, last, result⟩ := onNext _ value (grows.trans grown) (given value rfl) between (.refl _) kept
    exact ⟨grown.trans further, last, result⟩

theorem layers_ask_bind {question : Store → Except Failure α} {next : α → Build β} (onNext : ∀ value, Layers start better (next value)) :
    Layers start better (ask question >>= next) := by
  have asked : Layers start (fun _ _ => True) (ask question) := layers_of_reads (reads_ask question) fun _ _ _ _ => trivial
  exact layers_bind asked fun later value grows _ workspace further => onNext value workspace (grows.trans further)

theorem Layers.mono {build : Build α} {worse : Store → α → Prop} (layers : Layers start good build)
    (weaker : ∀ store value, good store value → worse store value) : Layers start worse build :=
  fun workspace grows layered =>
    have ⟨grown, kept, given⟩ := layers workspace grows layered
    ⟨grown, kept, fun value result => weaker _ value (given value result)⟩

theorem layers_known {value : Value} (knows : start.Knows value) : Layers start Knows (pure value) :=
  layers_of_reads (reads_pure value) fun _ grows => gives_ok (knows.grows grows)

theorem layers_plain {compound : Bool} {value : Value} (knows : start.Knows value) (plain : isExpression value = false) :
    Layers start (Built compound) (pure value) :=
  layers_of_reads (reads_pure value) fun _ grows => gives_ok ⟨knows.grows grows, fun _ same => by simp [same, isExpression] at plain⟩

/-- Composing adds one expression, and the fragments that it consists of were there. -/
theorem layers_compose {compound : Bool} {values : List Value} (knows : ∀ value ∈ values, start.Knows value) :
    Layers start (Built compound) (compose compound values) := by
  intro workspace grows layered
  rw [compose]
  cases made : values.mapM fragment? with
  | error failure => exact ⟨.refl _, layered, gives_error _ _⟩
  | ok fragments =>
    rw [run_bind_ok (run_ofExcept_ok _ _), run_bind_ok (run_newExpression _ _), run_pure]
    have held := gives_mapM (fun value member => gives_fragment ((knows value member).grows grows)) fragments made
    let expression : Expression := { contents := fragments.filterMap id, compound }
    have within : expression.Within (Earlier workspace.store.expressions.length) := by
      intro inner member
      obtain ⟨fragment, listed, same⟩ := List.mem_filterMap.mp member
      exact held fragment listed inner same
    refine ⟨List.prefix_append _ _, layered.append within, gives_ok ⟨?_, ?_⟩⟩
    · exact Store.knows_expression.mpr (length_lt_append _ _)
    · rintro _ ⟨⟩
      simp [Store.expression]

theorem commaSeparated_knows {values : List Value} (knows : ∀ value ∈ values, start.Knows value) :
    ∀ value ∈ commaSeparated values, start.Knows value :=
  have within : AllWithin (Earlier start.expressions.length) values := knows
  commaSeparated_within within

mutual

theorem layers_literal {start : Store} (value : Value) (knows : start.Knows value) : Layers start Knows (literal value) := by
  have text (written : String) : Layers start Knows (pure (.text written)) := layers_known (Value.within_text _)
  unfold literal
  split
  · exact text _
  · exact layers_known knows
  · refine (layers_compose (commaSeparated_knows fun item member => ?_)).mono fun _ _ built => built.1
    obtain ⟨_, -, rfl⟩ := List.mem_map.mp member
    exact Value.within_text _
  · next items =>
    refine layers_bind (layers_literals items (Value.within_list.mp knows)) fun _ _ _ made => ?_
    exact (layers_compose (commaSeparated_knows made)).mono fun _ _ built => built.1
  · next items =>
    refine layers_bind (layers_literals items (Value.within_tuple.mp knows)) fun _ _ _ made => ?_
    exact (layers_compose (commaSeparated_knows made)).mono fun _ _ built => built.1
  · split
    · exact layers_known knows
    · exact text _
    · exact text _
    · exact layers_fail _

theorem layers_literals {start : Store} (values : List Value) (knows : ∀ value ∈ values, start.Knows value) :
    Layers start (fun store made => ∀ value ∈ made, store.Knows value) (literals values) := by
  cases values with
  | nil => exact layers_of_reads (reads_pure []) fun _ _ => gives_ok fun _ member => nomatch member
  | cons value rest =>
    obtain ⟨first, others⟩ := List.forall_mem_cons.mp knows
    unfold literals
    refine layers_bind (layers_literal value first) fun _ made grows onMade => ?_
    refine layers_bind (layers_literals rest fun item member => (others item member).grows grows) fun _ more further onMore => ?_
    refine layers_of_reads (reads_pure (made :: more)) fun _ last => gives_ok (List.forall_mem_cons.mpr ⟨?_, ?_⟩)
    · exact onMade.grows (further.trans last)
    · exact fun item member => (onMore item member).grows last

end

theorem layers_binary {left right : Value} (operator : Operator) (onLeft : start.Knows left) (onRight : start.Knows right) :
    Layers start (Built true) (binary left operator right) := by
  refine layers_bind (layers_literal left onLeft) fun _ left grows onLeft => ?_
  refine layers_bind (layers_literal right (onRight.grows grows)) fun _ right further onRight => ?_
  exact layers_compose (by simpa [Knows] using ⟨onLeft.grows further, onRight⟩)

theorem layers_binaryNamed {left operator right : Value} (onLeft : start.Knows left) (onRight : start.Knows right) :
    Layers start (Built true) (binaryNamed left operator right) := by
  unfold binaryNamed
  split
  · exact layers_binary _ onLeft onRight
  · exact layers_ask_bind fun _ => layers_fail _

theorem layers_negation {value : Value} (knows : start.Knows value) : Layers start (Built false) (negation value) :=
  layers_bind (layers_literal value knows) fun _ _ _ made => layers_compose (by simpa [Knows] using made)

theorem layers_group {value : Value} (knows : start.Knows value) : Layers start (Built false) (group value) :=
  layers_bind (layers_literal value knows) fun _ _ _ made => layers_compose (by simpa [Knows] using made)

theorem layers_operand {value : Value} (knows : start.Knows value) : Layers start Knows (operand value) := by
  have grouped : Layers start Knows (group value) := (layers_group knows).mono fun _ _ built => built.1
  intro workspace grows layered
  unfold operand
  split
  · rw [run_bind_ok (run_store workspace)]
    split
    · exact grouped workspace grows layered
    · exact layers_known knows workspace grows layered
  · exact layers_known knows workspace grows layered

theorem layers_runnerCall {name : String} {arguments : List Value} (knows : ∀ value ∈ arguments, start.Knows value) :
    Layers start (Built false) (runnerCall name arguments) := by
  refine layers_bind (layers_literals arguments knows) fun _ _ _ made => layers_compose ?_
  have text (written : String) {later : Store} : later.Knows (.text written) := Value.within_text _
  exact List.forall_mem_append.mpr ⟨List.forall_mem_cons.mpr ⟨text _, commaSeparated_knows made⟩, List.forall_mem_singleton.mpr (text _)⟩

theorem layers_combineDigits {compound : Bool} {operation : (width : Nat) → BitVec width → BitVec width → BitVec width}
    {left right : Value} : Layers start (Built compound) (combineDigits operation left right) := by
  unfold combineDigits
  split
  · exact layers_plain (Value.within_bool _) rfl
  · exact layers_plain (Value.within_int _) rfl
  · exact layers_fail _

/-- Two operands, each in parentheses if it is compound, with an operator between them. -/
theorem layers_operands {left right : Value} (operator : Operator) (onLeft : start.Knows left) (onRight : start.Knows right) :
    Layers start (Built true) (do
      let left ← operand left
      binary left operator (← operand right)) := by
  refine layers_bind (layers_operand onLeft) fun _ left grows onLeft => ?_
  refine layers_bind (layers_operand (onRight.grows grows)) fun _ right further onRight => ?_
  exact layers_binary operator (onLeft.grows further) onRight

theorem layers_conjoin {left right : Value} (onLeft : start.Knows left) (onRight : start.Knows right) :
    Layers start (Built true) (conjoin left right) := by
  unfold conjoin
  split
  · exact layers_operands .and onLeft onRight
  · exact layers_combineDigits

theorem isExpression_of_join {kind : EventKind} {settings : List Value} {other joined : Value}
    (result : Event.join kind settings other = .ok joined) : isExpression joined = false := by
  unfold Event.join at result
  split at result
  · cases result
    rfl
  · cases result
  · cases result
    rfl

theorem layers_disjoin {left right : Value} (onLeft : start.Knows left) (onRight : start.Knows right) :
    Layers start (Built true) (disjoin left right) := by
  unfold disjoin
  split
  · next kind settings =>
    have gives : Gives start.Knows (Event.join kind settings right) := Event.gives_join (Value.within_event.mp onLeft) onRight
    cases joined : Event.join kind settings right with
    | error failure => exact layers_of_reads (fun _ => rfl) fun _ _ => gives_error _ _
    | ok value => exact layers_plain (gives value joined) (isExpression_of_join joined)
  · exact layers_plain (Value.within_map.mpr (Event.update_within (Value.within_map.mp onLeft) (Value.within_map.mp onRight))) rfl
  · split
    · exact layers_operands .or onLeft onRight
    · exact layers_combineDigits

theorem layers_invert {value : Value} (knows : start.Knows value) : Layers start (Built false) (invert value) := by
  unfold invert
  split
  · exact layers_bind (layers_operand knows) fun _ _ _ made => layers_negation made
  · split
    · exact layers_plain (Value.within_int _) rfl
    · exact layers_fail _

end Build

/-- The functions that compose expressions. -/
def Builtin.composes : Builtin → Bool
  | .expression | .binary | .compare _ | .negate | .group | .runnerCall _ | .joinTexts | .status _ | .conjoin | .disjoin | .invert => true
  | _ => false

/-- The composing functions that put a binary operator between two operands. -/
def Builtin.isOperator : Builtin → Bool
  | .binary | .compare _ | .conjoin | .disjoin => true
  | _ => false

namespace Build

theorem layers_applyBuiltin {start : Store} {function : Builtin} {arguments : List Value} (composes : function.composes)
    (knows : ∀ value ∈ arguments, start.Knows value) :
    Layers start (Store.Built function.isOperator) (applyBuiltin function arguments) := by
  unfold applyBuiltin
  -- the functions that compose nothing are excluded
  split <;> try cases composes
  · exact layers_bind (layers_literal _ (knows _ (by simp))) fun _ _ _ made => layers_compose (by simpa [Store.Knows] using made)
  · exact layers_binaryNamed (knows _ (by simp)) (knows _ (by simp))
  · exact layers_binary _ (knows _ (by simp)) (knows _ (by simp))
  · exact layers_negation (knows _ (by simp))
  · exact layers_group (knows _ (by simp))
  · exact layers_runnerCall knows
  · exact layers_runnerCall knows
  · exact layers_runnerCall (by simpa using knows _ List.mem_cons_self)
  · exact layers_runnerCall knows
  · exact layers_compose (by simp [Store.Knows])
  · exact layers_conjoin (knows _ (by simp)) (knows _ (by simp))
  · exact layers_disjoin (knows _ (by simp)) (knows _ (by simp))
  · exact layers_invert (knows _ (by simp))
  · exact layers_fail _

end Build

/-- The expression that a call gave, with the function that made it. -/
def Builtin.made (function : Builtin) : Except Failure Value → List (Builtin × Nat)
  | .ok (.expression identity) => [(function, identity)]
  | _ => []

/-- The expressions that composing functions have made by the time of a workspace. In between there may
be more expressions of earlier ones, and anything else. -/
inductive Composed : List (Builtin × Nat) → Workspace → Prop
  | fresh {workspace : Workspace} (empty : workspace.store.expressions = []) : Composed [] workspace
  | beside {made : List (Builtin × Nat)} {before after : Workspace} (composed : Composed made before)
      (grows : Grows before.store after.store) (layered : after.store.Layered) : Composed made after
  | called {made : List (Builtin × Nat)} {before after : Workspace} {result : Except Failure Value}
      (function : Builtin) (arguments : List Value) (composed : Composed made before) (composes : function.composes)
      (knows : ∀ value ∈ arguments, before.store.Knows value)
      (ran : (Build.applyBuiltin function arguments).run before = (result, after)) :
      Composed (made ++ function.made result) after

/-- What composing functions have made is there, compound if an operator made it. -/
theorem Composed.layered {made : List (Builtin × Nat)} {workspace : Workspace} (composed : Composed made workspace) :
    workspace.store.Layered ∧ ∀ entry ∈ made, entry.2 < workspace.store.expressions.length ∧
      (workspace.store.expression entry.2).compound = entry.1.isOperator := by
  have kept {made : List (Builtin × Nat)} {before after : Store} (grows : Grows before after)
      (flags : ∀ entry ∈ made, entry.2 < before.expressions.length ∧ (before.expression entry.2).compound = entry.1.isOperator) :
      ∀ entry ∈ made, entry.2 < after.expressions.length ∧ (after.expression entry.2).compound = entry.1.isOperator := by
    intro entry member
    obtain ⟨inside, flag⟩ := flags entry member
    rw [grows.expression inside]
    exact ⟨Nat.lt_of_lt_of_le inside grows.length_le, flag⟩
  induction composed with
  | fresh empty => exact ⟨fun identity inside => by simp [empty] at inside, fun _ member => nomatch member⟩
  | beside _ grows layered ih => exact ⟨layered, kept grows ih.2⟩
  | called function arguments _ composes knows ran ih =>
    obtain ⟨layered, flags⟩ := ih
    obtain ⟨grows, still, given⟩ := Build.layers_applyBuiltin composes knows _ (.refl _) layered
    rw [ran] at grows still given
    refine ⟨still, List.forall_mem_append.mpr ⟨kept grows flags, ?_⟩⟩
    intro entry member
    unfold Builtin.made at member
    split at member
    · cases List.mem_singleton.mp member
      obtain ⟨known, flag⟩ := given _ rfl
      exact ⟨Store.knows_expression.mp known, flag _ rfl⟩
    · cases member

/-- Where an operand stands in a condition: beside another one, or alone after the sign of negation. -/
inductive OperandPlace
  | andLeft
  | andRight
  | orLeft
  | orRight
  | negated
deriving DecidableEq, Repr

namespace OperandPlace

def build (place : OperandPlace) (operand other : Value) : Build Value :=
  match place with
  | .andLeft => Build.applyBuiltin .conjoin [operand, other]
  | .andRight => Build.applyBuiltin .conjoin [other, operand]
  | .orLeft => Build.applyBuiltin .disjoin [operand, other]
  | .orRight => Build.applyBuiltin .disjoin [other, operand]
  | .negated => Build.applyBuiltin .invert [operand]

/-- The operand passed on as an expression once more. -/
def buildWrapped (place : OperandPlace) (operand other : Value) : Build Value := do
  place.build (← Build.applyBuiltin .expression [operand]) other

def text (place : OperandPlace) (operand other : List Char) : List Char :=
  match place with
  | .andLeft => Formula.spaced .and operand other
  | .andRight => Formula.spaced .and other operand
  | .orLeft => Formula.spaced .or operand other
  | .orRight => Formula.spaced .or other operand
  | .negated => '!' :: operand

theorem text_length (place : OperandPlace) (operand longer other : List Char) (more : operand.length < longer.length) :
    (place.text operand other).length < (place.text longer other).length := by
  cases place <;> simp [text, Formula.spaced] <;> omega

end OperandPlace

namespace Build

/-- The text of what is built. -/
def written (build : Build Value) (workspace : Workspace) : Except Failure String :=
  ((build >>= fun value => ask (·.wording value)).run workspace).1

theorem written_of_makes {build : Build Value} {workspace : Workspace} {compound : Bool} {chars : List Char}
    (makes : Makes build workspace compound chars) : written build workspace = .ok (String.ofList chars) := by
  obtain ⟨identity, after, result, -, spells⟩ := makes
  rw [written, run_bind_ok result, run_ask_eq]
  exact spells.2.2 after.store (.refl _) _ (by have inside := spells.1; simp [Store.size]; omega)

/-- Two operands with an operator between them. -/
theorem makes_operands {workspace : Workspace} {left right : Nat} {compound other : Bool} {first second : List Char}
    (operator : Operator) (spells : Spells workspace.store left compound first) (spellsRight : Spells workspace.store right other second) :
    Makes (do
      let left ← operand (.expression left)
      binary left operator (← operand (.expression right))) workspace true
      (Formula.spaced operator (Formula.enclosed '(' ')' compound first) (Formula.enclosed '(' ')' other second)) := by
  obtain ⟨leftShown, middle, leftRun, grows, stands⟩ := operand_spells spells
  obtain ⟨rightShown, last, rightRun, later, standsRight⟩ := operand_spells (spellsRight.grows grows)
  obtain ⟨made, after, result, further, spelled⟩ := makes_binary operator (stands.grows later) standsRight
  refine ⟨made, after, ?_, grows.trans (later.trans further), spelled⟩
  rw [run_bind_ok leftRun, run_bind_ok rightRun, result]

theorem makes_place {workspace : Workspace} {operand other : Nat} {compound otherCompound : Bool} {chars otherChars : List Char}
    (place : OperandPlace) (spells : Spells workspace.store operand compound chars) (spellsOther : Spells workspace.store other otherCompound otherChars) :
    ∃ flag, Makes (place.build (.expression operand) (.expression other)) workspace flag
      (place.text (Formula.enclosed '(' ')' compound chars) (Formula.enclosed '(' ')' otherCompound otherChars)) := by
  cases place with
  | andLeft => exact ⟨true, makes_operands .and spells spellsOther⟩
  | andRight => exact ⟨true, makes_operands .and spellsOther spells⟩
  | orLeft => exact ⟨true, makes_operands .or spells spellsOther⟩
  | orRight => exact ⟨true, makes_operands .or spellsOther spells⟩
  | negated =>
    obtain ⟨shown, after, result, grows, stands⟩ := operand_spells spells
    obtain ⟨made, last, negated, later, spelled⟩ := makes_negation stands
    refine ⟨false, made, last, ?_, grows.trans later, spelled⟩
    rw [← negated, ← run_bind_ok result]
    rfl

/-- An expression passed on as an expression has its text, but is not compound. -/
theorem makes_wrapped {workspace : Workspace} {identity : Nat} {compound : Bool} {chars : List Char}
    (spells : Spells workspace.store identity compound chars) :
    Makes (applyBuiltin .expression [.expression identity]) workspace false chars := by
  have parts : AllShow workspace.store [.expression identity] [chars] := .cons ⟨compound, spells⟩ .nil
  obtain ⟨made, after, result, grows, spelled⟩ := makes_compose parts false
  exact ⟨made, after, result, grows, by simpa using spelled⟩

theorem makes_placeWrapped {workspace : Workspace} {operand other : Nat} {compound otherCompound : Bool} {chars otherChars : List Char}
    (place : OperandPlace) (spells : Spells workspace.store operand compound chars) (spellsOther : Spells workspace.store other otherCompound otherChars) :
    ∃ flag, Makes (place.buildWrapped (.expression operand) (.expression other)) workspace flag
      (place.text chars (Formula.enclosed '(' ')' otherCompound otherChars)) := by
  obtain ⟨fresh, between, result, grows, spellsFresh⟩ := makes_wrapped spells
  obtain ⟨flag, identity, after, last, further, spelled⟩ := makes_place place spellsFresh (spellsOther.grows grows)
  exact ⟨flag, identity, after, by rw [OperandPlace.buildWrapped, run_bind_ok result, last], grows.trans further, spelled⟩

end Build

/-- Of expressions that composing functions have made, any one in any place: as it is, it stands in
parentheses exactly if an operator made it; passed on as an expression it never does, so that the
text is the same exactly if no operator made it. -/
theorem Composed.wrapped_operand {made : List (Builtin × Nat)} {workspace : Workspace} (composed : Composed made workspace)
    {maker otherMaker : Builtin} {operand other : Nat} (built : (maker, operand) ∈ made) (otherBuilt : (otherMaker, other) ∈ made)
    (place : OperandPlace) :
    let plain := Build.written (place.build (.expression operand) (.expression other)) workspace
    let wrapped := Build.written (place.buildWrapped (.expression operand) (.expression other)) workspace
    ∃ chars otherChars, workspace.store.wording (.expression operand) = .ok (String.ofList chars) ∧
      workspace.store.wording (.expression other) = .ok (String.ofList otherChars) ∧
      plain = .ok (String.ofList (place.text (Formula.enclosed '(' ')' maker.isOperator chars)
        (Formula.enclosed '(' ')' otherMaker.isOperator otherChars))) ∧
      wrapped = .ok (String.ofList (place.text chars (Formula.enclosed '(' ')' otherMaker.isOperator otherChars))) ∧
      (wrapped = plain ↔ maker.isOperator = false) := by
  obtain ⟨layered, flags⟩ := composed.layered
  have spelled {maker : Builtin} {identity : Nat} (built : (maker, identity) ∈ made) :
      ∃ chars, Spells workspace.store identity maker.isOperator chars ∧
        workspace.store.wording (.expression identity) = .ok (String.ofList chars) := by
    obtain ⟨inside, flag⟩ := flags _ built
    obtain ⟨chars, spells⟩ := layered.spells inside
    refine ⟨chars, flag ▸ spells, spells.2.2 workspace.store (.refl _) _ ?_⟩
    simp only [Store.size]
    omega
  obtain ⟨chars, spells, wording⟩ := spelled built
  obtain ⟨otherChars, spellsOther, otherWording⟩ := spelled otherBuilt
  obtain ⟨flag, makes⟩ := Build.makes_place place spells spellsOther
  obtain ⟨flag, makesWrapped⟩ := Build.makes_placeWrapped place spells spellsOther
  intro plain wrapped
  have plainText := Build.written_of_makes makes
  have wrappedText := Build.written_of_makes makesWrapped
  refine ⟨chars, otherChars, wording, otherWording, plainText, wrappedText, ?_⟩
  rw [show plain = _ from plainText, show wrapped = _ from wrappedText]
  constructor
  · intro same
    by_contra operator
    have longer : chars.length < (Formula.enclosed '(' ')' maker.isOperator chars).length := by
      simp only [Formula.enclosed, eq_true_of_ne_false operator, ↓reduceIte, List.length_append, List.length_cons]
      omega
    have shorter := place.text_length chars _ (Formula.enclosed '(' ')' otherMaker.isOperator otherChars) longer
    rw [String.ofList_injective (Except.ok.inj same)] at shorter
    exact Nat.lt_irrefl _ shorter
  · intro simple
    rw [simple]
    rfl

/-- A comparison of the reference with a branch, and a check for success. -/
def comparedReference : Workspace where
  store :=
    { expressions :=
        [{ contents := [.path [.text "github", .text "ref"], .text " ", .text "==", .text " ", .text "'main'"], compound := true },
          { contents := [.text "success()"] }] }

theorem comparedReference_composed : Composed [(.compare .equal, 0), (.status "success", 1)] comparedReference := by
  have fresh : Composed [] {} := .fresh rfl
  have compared := Composed.called (.compare .equal) [.path [.text "github", .text "ref"], .text "main"] fresh rfl
    (by simp [Store.Knows]) rfl
  exact Composed.called (.status "success") [] compared rfl nofun rfl

theorem comparedReference_wrapped_operand :
    Composed [(.compare .equal, 0), (.status "success", 1)] comparedReference ∧
    (Build.written (OperandPlace.andLeft.buildWrapped (.expression 0) (.expression 1)) comparedReference =
      Build.written (OperandPlace.andLeft.build (.expression 0) (.expression 1)) comparedReference ↔
      (Builtin.compare .equal).isOperator = false) := by
  obtain ⟨_, _, _, _, _, _, same⟩ := comparedReference_composed.wrapped_operand List.mem_cons_self
    (List.mem_cons_of_mem _ List.mem_cons_self) .andLeft
  exact ⟨comparedReference_composed, same⟩

/-- Passed on as an expression, the comparison loses its parentheses: the condition reads otherwise,
and what is negated is the reference alone. -/
theorem comparedReference_ungrouped :
    Composed [(.compare .equal, 0), (.status "success", 1)] comparedReference ∧
    Build.written (OperandPlace.andLeft.build (.expression 0) (.expression 1)) comparedReference =
      .ok "(github.ref == 'main') && success()" ∧
    Build.written (OperandPlace.andLeft.buildWrapped (.expression 0) (.expression 1)) comparedReference =
      .ok "github.ref == 'main' && success()" ∧
    Build.written (OperandPlace.negated.build (.expression 0) (.expression 1)) comparedReference = .ok "!(github.ref == 'main')" ∧
    Build.written (OperandPlace.negated.buildWrapped (.expression 0) (.expression 1)) comparedReference = .ok "!github.ref == 'main'" :=
  ⟨comparedReference_composed, rfl, rfl, rfl, rfl⟩

end WorkflowCompiler
