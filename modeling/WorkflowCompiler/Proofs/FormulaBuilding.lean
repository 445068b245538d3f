import WorkflowCompiler.Proofs.FormulaReading
import WorkflowCompiler.Proofs.FormulaSpelling

/-! Composing a formula with the builders, and the text of what they build. -/

namespace WorkflowCompiler.Proofs
open Build

/-- The member by which a function is called. -/
def RunnerFunction.builtin : RunnerFunction → Builtin
  | contains => Builtin.contains
  | startsWith => Builtin.startsWith
  | endsWith => Builtin.endsWith
  | format => Builtin.format
  | join => Builtin.joinTexts
  | toJson => Builtin.toJson
  | fromJson => Builtin.fromJson
  | hashFiles => Builtin.hashFiles
  | always => Builtin.always
  | success => Builtin.success
  | failure => Builtin.failure
  | cancelled => Builtin.cancelled

namespace Formula

mutual

/-- How the formula is composed. -/
def recipe : Formula → Recipe
  | null => .value .null
  | bool value => .value (.bool value)
  | int value => .value (.int value)
  | text value => .value (.text value)
  | path segments => .path ((segments.map Value.ofLabel).map .value)
  | call function arguments => .apply function.builtin (recipes arguments)
  | compare operator left right => .apply (.compare operator) [left.recipe, right.recipe]
  | group inner => .apply .group [inner.recipe]
  | combine operator left right =>
    .apply (if operator = .and then .conjoin else .disjoin) [left.recipe, right.recipe]
  | negated inner => .apply .invert [inner.recipe]

def recipes : List Formula → List Recipe
  | [] => []
  | formula :: rest => formula.recipe :: recipes rest

end

/-- The formula as an expression, also where it is a value of its own. -/
def expressionRecipe (formula : Formula) : Recipe :=
  if formula.isComposed then formula.recipe else .apply .expression [formula.recipe]

end Formula

namespace FormulaBuilding
open FormulaSpelling

theorem segments_run (segments : List Label) (names : ∀ segment ∈ segments, isName segment.chars)
    (workspace : Workspace) :
    ((segments.map Value.ofLabel).mapM segment).run workspace = (.ok segments, workspace) := by
  induction segments with
  | nil => rfl
  | cons first more ih =>
    have filled : first.chars.isEmpty = false := by
      have valid := names first List.mem_cons_self
      rw [Bool.eq_false_iff]
      intro empty
      simp [isName, String.isEmpty_iff.mp empty] at valid
    have one : (segment (Value.ofLabel first)).run workspace = (.ok first, workspace) := by
      cases first <;> simp_all [Build.segment, Value.ofLabel, Value.label?]
    have later := ih fun segment member => names segment (List.mem_cons_of_mem _ member)
    rw [List.map_cons, List.mapM_cons, run_bind_ok one, run_bind_ok later, run_pure]

theorem values_run (call : Call) (ambient : Ambient) (values : List Value) (workspace : Workspace) :
    (evaluateAll call ambient (values.map .value)).run workspace = (.ok values, workspace) := by
  induction values with
  | nil => rw [List.map_nil, evaluateAll, run_pure]
  | cons value values ih =>
    have one : (evaluate call ambient (.value value)).run workspace = (.ok value, workspace) := by
      rw [evaluate, run_pure]
    rw [List.map_cons, evaluateAll, run_bind_ok one, run_bind_ok ih, run_pure]

theorem run_single {call : Call} {ambient : Ambient} {recipe : Recipe} {workspace after : Workspace} {value : Value}
    (one : (evaluate call ambient recipe).run workspace = (.ok value, after)) :
    (evaluateAll call ambient [recipe]).run workspace = (.ok [value], after) := by
  rw [evaluateAll, run_bind_ok one, evaluateAll, run_bind_ok (run_pure _ _), run_pure]

theorem run_both {call : Call} {ambient : Ambient} {first second : Recipe} {workspace middle after : Workspace}
    {left right : Value} (one : (evaluate call ambient first).run workspace = (.ok left, middle))
    (two : (evaluate call ambient second).run middle = (.ok right, after)) :
    (evaluateAll call ambient [first, second]).run workspace = (.ok [left, right], after) := by
  rw [evaluateAll, run_bind_ok one, run_bind_ok (run_single two), run_pure]

/-- The values that formulas have been built as. -/
inductive AllMean (store : Store) : List Value → List Formula → Prop
  | nil : AllMean store [] []
  | cons {value : Value} {formula : Formula} {values : List Value} {formulas : List Formula}
      (first : Means store value formula) (more : AllMean store values formulas) :
      AllMean store (value :: values) (formula :: formulas)

theorem AllMean.stand {store : Store} {values : List Value} {formulas : List Formula}
    (mean : AllMean store values formulas) : AllStand store values (Formula.allChars formulas) := by
  induction mean with
  | nil => exact .nil
  | cons first _ ih => exact .cons first.stands ih

theorem makes_call {workspace : Workspace} {function : RunnerFunction} {values : List Value} {formulas : List Formula}
    (takes : function.Takes formulas) (mean : AllMean workspace.store values formulas) :
    Makes (applyBuiltin function.builtin values) workspace false (Formula.call function formulas).chars := by
  cases function with
  | join =>
    match formulas, takes, mean with
    | [_], _, .cons first .nil => exact makes_runnerCall "join" (AllMean.cons first .nil).stand
    | [_, separator], given, .cons first (.cons second .nil) =>
      have made := makes_runnerCall "join" (AllMean.cons first (.cons second .nil)).stand
      cases separator with
      | null => exact absurd rfl given
      | bool | int | text | path =>
        cases second
        exact made
      | call | compare | group | combine | negated =>
        obtain ⟨identity, rfl, -⟩ := second
        exact made
  | always | success | failure | cancelled =>
    cases takes
    cases mean
    exact makes_status _ _
  | contains | startsWith | endsWith | format | toJson | fromJson | hashFiles =>
    exact makes_runnerCall _ mean.stand

theorem disjoin_of_means {store : Store} {left right : Value} {formula : Formula} (means : Means store left formula)
    (some : Build.isExpression left || Build.isExpression right) : disjoin left right = disjunction left right := by
  cases formula with
  | null | bool | int | text | path =>
    cases means
    simp [disjoin, some]
  | call | compare | group | combine | negated =>
    obtain ⟨identity, rfl, -⟩ := means
    simp [disjoin, some]

theorem makes_combine {workspace : Workspace} {operator : Operator} {left right : Value} {first second : Formula}
    (combining : isComparison operator = false) (composed : first.isComposed || second.isComposed)
    (means : Means workspace.store left first) (meansRight : Means workspace.store right second) :
    Makes (applyBuiltin (if operator = .and then .conjoin else .disjoin) [left, right]) workspace true
      (Formula.combine operator first second).chars := by
  obtain ⟨leftShown, middle, leftRun, grows, stands⟩ := operand_stands means
  obtain ⟨rightShown, last, rightRun, later, standsRight⟩ := operand_stands (meansRight.grows grows)
  obtain ⟨made, after, result, further, spells⟩ := makes_binary operator (stands.grows later) standsRight
  refine ⟨made, after, ?_, grows.trans (later.trans further), spells⟩
  have some : Build.isExpression left || Build.isExpression right := by
    rwa [means.isExpression, meansRight.isExpression]
  have joined : applyBuiltin (if operator = .and then .conjoin else .disjoin) [left, right] =
      (do
        let left ← operand left
        binary left operator (← operand right)) := by
    cases operator with
    | and => simp [applyBuiltin, conjoin, some, conjunction]
    | or => simp [applyBuiltin, disjoin_of_means means some, disjunction]
    | less | lessOrEqual | greater | greaterOrEqual | equal | notEqual => cases combining
  rw [joined, run_bind_ok leftRun, run_bind_ok rightRun, result]

theorem makes_invert {workspace : Workspace} {value : Value} {formula : Formula} (composed : formula.isComposed)
    (means : Means workspace.store value formula) :
    Makes (applyBuiltin .invert [value]) workspace false (Formula.negated formula).chars := by
  obtain ⟨identity, rfl, spells⟩ := means.expression composed
  obtain ⟨shown, after, result, grows, stands⟩ := operand_stands means
  obtain ⟨made, last, negated, later, spelled⟩ := makes_negation stands
  refine ⟨made, last, ?_, grows.trans later, spelled⟩
  rw [← negated, ← run_bind_ok result]
  rfl

mutual

theorem evaluates (call : Call) (ambient : Ambient) (formula : Formula) (valid : formula.WellFormed)
    (workspace : Workspace) :
    ∃ value after, (evaluate call ambient formula.recipe).run workspace = (.ok value, after) ∧
      Grows workspace.store after.store ∧ Means after.store value formula := by
  cases formula with
  | null | bool | int | text =>
    exact ⟨_, workspace, by rw [Formula.recipe, evaluate, run_pure], .refl _, rfl⟩
  | path segments =>
    refine ⟨.path segments, workspace, ?_, .refl _, rfl⟩
    have given := values_run call ambient (segments.map Value.ofLabel) workspace
    rw [Formula.recipe, evaluate, run_bind_ok given, extend, run_bind_ok (segments_run segments valid.1 workspace)]
    rfl
  | call function arguments =>
    obtain ⟨values, middle, given, grows, mean⟩ := evaluatesAll call ambient arguments valid.2 workspace
    obtain ⟨value, after, result, later, means⟩ :=
      (makes_call valid.1 mean).means (.call function arguments) rfl
    refine ⟨value, after, ?_, grows.trans later, means⟩
    rw [Formula.recipe, evaluate, run_bind_ok given, result]
  | compare operator left right =>
    obtain ⟨first, middle, one, grows, means⟩ := evaluates call ambient left valid.2.2.2.1 workspace
    obtain ⟨second, last, two, later, meansRight⟩ := evaluates call ambient right valid.2.2.2.2 middle
    obtain ⟨value, after, result, further, means⟩ :=
      (makes_binary operator (means.grows later).stands meansRight.stands).means
        (.compare operator left right) rfl
    refine ⟨value, after, ?_, (grows.trans later).trans further, means⟩
    rw [Formula.recipe, evaluate, run_bind_ok (run_both one two)]
    exact result
  | group inner =>
    obtain ⟨first, middle, one, grows, means⟩ := evaluates call ambient inner valid workspace
    obtain ⟨value, after, result, later, means⟩ := (makes_group means.stands).means (.group inner) rfl
    refine ⟨value, after, ?_, grows.trans later, means⟩
    rw [Formula.recipe, evaluate, run_bind_ok (run_single one)]
    exact result
  | combine operator left right =>
    obtain ⟨combining, composed, validLeft, validRight⟩ := valid
    obtain ⟨first, middle, one, grows, means⟩ := evaluates call ambient left validLeft workspace
    obtain ⟨second, last, two, later, meansRight⟩ := evaluates call ambient right validRight middle
    obtain ⟨value, after, result, further, means⟩ :=
      (makes_combine combining composed (means.grows later) meansRight).means (.combine operator left right) rfl
    refine ⟨value, after, ?_, (grows.trans later).trans further, means⟩
    rw [Formula.recipe, evaluate, run_bind_ok (run_both one two)]
    exact result
  | negated inner =>
    obtain ⟨composed, validInner⟩ := valid
    obtain ⟨first, middle, one, grows, means⟩ := evaluates call ambient inner validInner workspace
    obtain ⟨value, after, result, later, means⟩ :=
      (makes_invert composed means).means (.negated inner) rfl
    refine ⟨value, after, ?_, grows.trans later, means⟩
    rw [Formula.recipe, evaluate, run_bind_ok (run_single one)]
    exact result

theorem evaluatesAll (call : Call) (ambient : Ambient) (formulas : List Formula)
    (valid : Formula.AllWellFormed formulas) (workspace : Workspace) :
    ∃ values after, (evaluateAll call ambient (Formula.recipes formulas)).run workspace = (.ok values, after) ∧
      Grows workspace.store after.store ∧ AllMean after.store values formulas := by
  cases formulas with
  | nil => exact ⟨[], workspace, by rw [Formula.recipes, evaluateAll, run_pure], .refl _, .nil⟩
  | cons first more =>
    obtain ⟨value, middle, one, grows, means⟩ := evaluates call ambient first valid.1 workspace
    obtain ⟨values, after, others, later, mean⟩ := evaluatesAll call ambient more valid.2 middle
    refine ⟨value :: values, after, ?_, grows.trans later, .cons (means.grows later) mean⟩
    rw [Formula.recipes, evaluateAll, run_bind_ok one, run_bind_ok others, run_pure]

end

theorem run_wording {call : Call} {ambient : Ambient} {recipe : Recipe} {workspace after : Workspace}
    {identity : Nat} {compound : Bool} {chars : List Char}
    (result : (evaluate call ambient recipe).run workspace = (.ok (.expression identity), after))
    (spells : Spells after.store identity compound chars) :
    (evaluate call ambient (.apply .wording [recipe])).run workspace = (.ok (.text (String.ofList chars)), after) := by
  obtain ⟨inside, -, text⟩ := spells
  have enough : identity < after.store.size + 1 := by
    simp only [Store.size]
    omega
  have wording : after.store.wording (.expression identity) = .ok (String.ofList chars) :=
    text after.store (.refl _) _ enough
  rw [evaluate, run_bind_ok (run_single result), applyBuiltin, run_bind_ok (run_ask wording), run_pure]

/-- Every formula builds an expression whose text the runner reads as what is meant. -/
theorem built_text_reads_as_meant (call : Call) (ambient : Ambient) (formula : Formula) (valid : formula.WellFormed)
    (workspace : Workspace) :
    ∃ text after,
      (evaluate call ambient (.apply .wording [formula.expressionRecipe])).run workspace = (.ok (.text text), after) ∧
        RunnerGrammar.parse text = some formula.meaning := by
  obtain ⟨value, middle, result, -, means⟩ := evaluates call ambient formula valid workspace
  have reading := FormulaReading.parse_chars formula valid
  cases composed : formula.isComposed with
  | true =>
    obtain ⟨identity, rfl, spells⟩ := means.expression composed
    refine ⟨_, middle, ?_, reading⟩
    rw [Formula.expressionRecipe, if_pos composed]
    exact run_wording result spells
  | false =>
    obtain ⟨shown, literalRun, shows⟩ := means.stands middle (.refl _)
    obtain ⟨identity, after, made, -, spells⟩ := makes_compose (.cons shows .nil) false
    refine ⟨_, after, ?_, reading⟩
    rw [Formula.expressionRecipe, if_neg (by simp [composed])]
    have wrapped : (evaluate call ambient (.apply .expression [formula.recipe])).run workspace =
        (.ok (.expression identity), after) := by
      rw [evaluate, run_bind_ok (run_single result), applyBuiltin, run_bind_ok literalRun, made]
    simpa using run_wording wrapped spells

/-- A text with a quote, a comma, a parenthesis and an operator in it, inside a negated call. -/
def quotedCondition : Formula :=
  .combine .or (.compare .equal (.path [.text "github", .text "ref_name"]) (.text "it's (a, b) && !c"))
    (.negated (.combine .and (.call .contains [.path [.text "github", .text "head-ref"], .text "''"])
      (.call .always [])))

theorem quotedCondition_text_reads_as_meant :
    quotedCondition.WellFormed ∧
      ∃ text after,
        (evaluate (callWithin callDepth) (.names {}) (.apply .wording [quotedCondition.expressionRecipe])).run {} =
            (.ok (.text text), after) ∧
          RunnerGrammar.parse text = some quotedCondition.meaning := by
  have valid : quotedCondition.WellFormed := by
    simp [quotedCondition, Formula.WellFormed, Formula.AllWellFormed, RunnerFunction.Takes, isComparison,
      Formula.isCompound, Formula.isComposed, keywords, Label.chars]
    decide
  exact ⟨valid, built_text_reads_as_meant _ _ _ valid _⟩

end FormulaBuilding

end WorkflowCompiler.Proofs
