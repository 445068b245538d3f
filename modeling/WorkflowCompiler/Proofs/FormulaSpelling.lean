import WorkflowCompiler.Proofs.BuildRuns
import WorkflowCompiler.Proofs.Formula

/-! The texts that building blocks of expressions get. An expression is only ever added to the
store, so that its text stays what it was when it was made. -/

namespace WorkflowCompiler.Proofs.FormulaSpelling
open Build

/-- Expressions are never taken away: those of one store are the first of those of the other. -/
def Grows (before after : Store) : Prop := before.expressions <+: after.expressions

theorem Grows.refl (store : Store) : Grows store store := List.prefix_refl _

theorem Grows.trans {first second third : Store} (early : Grows first second) (late : Grows second third) :
    Grows first third := List.IsPrefix.trans early late

theorem Grows.expression {before after : Store} (grows : Grows before after) {identity : Nat}
    (inside : identity < before.expressions.length) : after.expression identity = before.expression identity := by
  obtain ⟨more, same⟩ := grows
  simp only [Store.expression, ← same, List.getD_eq_getElem?_getD, List.getElem?_append_left inside]

/-- The text of an expression, whatever is added to the store, for every reader that follows
references far enough. -/
def Spells (store : Store) (identity : Nat) (compound : Bool) (chars : List Char) : Prop :=
  identity < store.expressions.length ∧ (store.expression identity).compound = compound ∧
    ∀ after, Grows store after → ∀ hops, identity < hops →
      after.expressionTextWithin hops identity = .ok (String.ofList chars)

theorem Spells.grows {before after : Store} {identity : Nat} {compound : Bool} {chars : List Char}
    (spells : Spells before identity compound chars) (grows : Grows before after) :
    Spells after identity compound chars := by
  obtain ⟨inside, flag, text⟩ := spells
  refine ⟨Nat.lt_of_lt_of_le inside grows.length_le, ?_, fun later further => text later (grows.trans further)⟩
  rw [grows.expression inside, flag]

/-- What a value adds to the text of an expression that it is a part of. -/
def Shows (store : Store) (value : Value) (chars : List Char) : Prop :=
  match value with
  | .text written => written = String.ofList chars
  | .path segments => dotted segments = String.ofList chars
  | .expression identity => ∃ compound, Spells store identity compound chars
  | _ => False

/-- What is shown by values one after the other. -/
inductive AllShow (store : Store) : List Value → List (List Char) → Prop
  | nil : AllShow store [] []
  | cons {value : Value} {chars : List Char} {values : List Value} {texts : List (List Char)}
      (first : Shows store value chars) (more : AllShow store values texts) :
      AllShow store (value :: values) (chars :: texts)

theorem AllShow.append {store : Store} {values others : List Value} {texts more : List (List Char)}
    (first : AllShow store values texts) (second : AllShow store others more) :
    AllShow store (values ++ others) (texts ++ more) := by
  induction first with
  | nil => exact second
  | cons one _ ih => exact .cons one ih

theorem AllShow.intersperse {store : Store} {values : List Value} {texts : List (List Char)}
    (shows : AllShow store values texts) :
    AllShow store (commaSeparated values) (texts.intersperse [',', ' ']) := by
  induction shows with
  | nil => exact .nil
  | cons first more ih =>
    cases more with
    | nil => exact .cons first .nil
    | cons second more => exact .cons first (.cons rfl ih)

/-- The part of an expression that a value becomes. -/
def fragmentOf : Value → Fragment
  | .expression identity => .nested identity
  | .path segments => .path segments
  | value => .text (value.chars?.getD "")

theorem fragment?_of_shows {store : Store} {value : Value} {chars : List Char} (shows : Shows store value chars) :
    fragment? value = .ok (some (fragmentOf value)) := by
  cases value with
  | text | path | expression => rfl
  | _ => exact shows.elim

theorem fragments_of_shows {store : Store} {values : List Value} {texts : List (List Char)}
    (shows : AllShow store values texts) :
    values.mapM fragment? = .ok (values.map fun value => some (fragmentOf value)) := by
  induction shows with
  | nil => rfl
  | cons first more ih =>
    rw [List.mapM_cons, fragment?_of_shows first, ih]
    rfl

/-- The text that the expression with the identity `bound` gets from one of its parts. -/
def partText (store : Store) (hops : Nat) : Fragment → Except Failure String
  | .text value => .ok value
  | .path segments => .ok (dotted segments)
  | .nested inner => store.expressionTextWithin hops inner

theorem expressionTextWithin_succ (store : Store) (hops identity : Nat) :
    store.expressionTextWithin (hops + 1) identity = (do
      let parts ← (store.expression identity).contents.mapM (partText store hops)
      return String.join parts) := by
  rw [Store.expressionTextWithin]
  congr

theorem partText_of_shows {store after : Store} {value : Value} {chars : List Char} {hops : Nat}
    (shows : Shows store value chars) (grows : Grows store after) (enough : store.expressions.length ≤ hops) :
    partText after hops (fragmentOf value) = .ok (String.ofList chars) := by
  cases value with
  | text written => exact congrArg Except.ok shows
  | path segments => exact congrArg Except.ok shows
  | expression identity =>
    obtain ⟨compound, inside, -, text⟩ := shows
    exact text after grows hops (by omega)
  | _ => exact shows.elim

theorem partTexts_of_shows {store after : Store} {values : List Value} {texts : List (List Char)} {hops : Nat}
    (shows : AllShow store values texts) (grows : Grows store after) (enough : store.expressions.length ≤ hops) :
    (values.map fragmentOf).mapM (partText after hops) = .ok (texts.map String.ofList) := by
  induction shows with
  | nil => rfl
  | cons first more ih =>
    rw [List.map_cons, List.mapM_cons, partText_of_shows first grows enough, ih]
    rfl

theorem join_ofList (texts : List (List Char)) : String.join (texts.map String.ofList) = String.ofList texts.flatten := by
  rw [← String.toList_inj, String.toList_join, String.toList_ofList, List.flatMap_map]
  simp only [String.toList_ofList, List.flatMap_id']

/-- `build` makes an expression with the text `chars`. -/
def Makes (build : Build Value) (workspace : Workspace) (compound : Bool) (chars : List Char) : Prop :=
  ∃ identity after, build.run workspace = (.ok (.expression identity), after) ∧
    Grows workspace.store after.store ∧ Spells after.store identity compound chars

theorem makes_compose {workspace : Workspace} {values : List Value} {texts : List (List Char)}
    (shows : AllShow workspace.store values texts) (compound : Bool) :
    Makes (compose compound values) workspace compound texts.flatten := by
  let expression : Expression := { contents := values.map fragmentOf, compound }
  let after : Workspace := { workspace with store :=
    { workspace.store with expressions := workspace.store.expressions ++ [expression] } }
  have grows : Grows workspace.store after.store := List.prefix_append _ _
  have inside : workspace.store.expressions.length < after.store.expressions.length := by simp [after]
  have found : after.store.expression workspace.store.expressions.length = expression := by
    simp [after, Store.expression]
  refine ⟨workspace.store.expressions.length, after, ?_, grows, inside, ?_, ?_⟩
  · rw [compose, fragments_of_shows shows, run_bind_ok (run_ofExcept_ok _ _)]
    have kept : (values.map fun value => some (fragmentOf value)).filterMap id = values.map fragmentOf := by
      simp [List.filterMap_map]
    rw [run_bind_ok (run_newExpression _ _), kept]
    rfl
  · rw [found]
  · intro later further hops enough
    obtain ⟨hops, rfl⟩ : ∃ inner, hops = inner + 1 := ⟨hops - 1, by omega⟩
    rw [expressionTextWithin_succ, further.expression inside, found,
      partTexts_of_shows shows (grows.trans further) (by omega)]
    exact congrArg Except.ok (join_ofList texts)

/-- The literal of a value shows `chars` from here on. -/
def Stands (store : Store) (value : Value) (chars : List Char) : Prop :=
  ∀ workspace, Grows store workspace.store → ∃ shown, (literal value).run workspace = (.ok shown, workspace) ∧
    Shows workspace.store shown chars

theorem Stands.grows {before after : Store} {value : Value} {chars : List Char}
    (stands : Stands before value chars) (grows : Grows before after) : Stands after value chars :=
  fun workspace further => stands workspace (grows.trans further)

theorem stands_expression {store : Store} {identity : Nat} {compound : Bool} {chars : List Char}
    (spells : Spells store identity compound chars) : Stands store (.expression identity) chars :=
  fun _ grows => ⟨.expression identity, rfl, compound, spells.grows grows⟩

theorem makes_binary {workspace : Workspace} {left right : Value} {first second : List Char} (operator : Operator)
    (stands : Stands workspace.store left first) (standsRight : Stands workspace.store right second) :
    Makes (binary left operator right) workspace true (Formula.spaced operator first second) := by
  obtain ⟨leftShown, leftRun, leftShows⟩ := stands workspace (.refl _)
  obtain ⟨rightShown, rightRun, rightShows⟩ := standsRight workspace (.refl _)
  have shows : AllShow workspace.store [leftShown, .text " ", .text operator.text, .text " ", rightShown]
      [first, [' '], operator.text.toList, [' '], second] :=
    .cons leftShows (.cons rfl (.cons (String.ofList_toList).symm (.cons rfl (.cons rightShows .nil))))
  obtain ⟨identity, after, result, grows, spells⟩ := makes_compose shows true
  refine ⟨identity, after, ?_, grows, ?_⟩
  · rw [binary, run_bind_ok leftRun, run_bind_ok rightRun, result]
  · simpa [Formula.spaced] using spells

theorem makes_group {workspace : Workspace} {value : Value} {chars : List Char}
    (stands : Stands workspace.store value chars) :
    Makes (group value) workspace false ('(' :: chars ++ [')']) := by
  obtain ⟨shown, literalRun, shows⟩ := stands workspace (.refl _)
  have parts : AllShow workspace.store [.text "(", shown, .text ")"] [['('], chars, [')']] :=
    .cons rfl (.cons shows (.cons rfl .nil))
  obtain ⟨identity, after, result, grows, spells⟩ := makes_compose parts false
  refine ⟨identity, after, ?_, grows, ?_⟩
  · rw [group, run_bind_ok literalRun, result]
  · simpa using spells

theorem makes_negation {workspace : Workspace} {value : Value} {chars : List Char}
    (stands : Stands workspace.store value chars) :
    Makes (negation value) workspace false ('!' :: chars) := by
  obtain ⟨shown, literalRun, shows⟩ := stands workspace (.refl _)
  have parts : AllShow workspace.store [.text "!", shown] [['!'], chars] := .cons rfl (.cons shows .nil)
  obtain ⟨identity, after, result, grows, spells⟩ := makes_compose parts false
  refine ⟨identity, after, ?_, grows, ?_⟩
  · rw [negation, run_bind_ok literalRun, result]
  · simpa using spells

/-- The literals of values show texts from here on. -/
inductive AllStand (store : Store) : List Value → List (List Char) → Prop
  | nil : AllStand store [] []
  | cons {value : Value} {chars : List Char} {values : List Value} {texts : List (List Char)}
      (first : Stands store value chars) (more : AllStand store values texts) :
      AllStand store (value :: values) (chars :: texts)

theorem literals_stand {workspace : Workspace} {values : List Value} {texts : List (List Char)}
    (stand : AllStand workspace.store values texts) :
    ∃ shown, (literals values).run workspace = (.ok shown, workspace) ∧ AllShow workspace.store shown texts := by
  induction stand with
  | nil => exact ⟨[], by rw [literals]; rfl, .nil⟩
  | cons first _ ih =>
    obtain ⟨shown, literalRun, shows⟩ := first workspace (.refl _)
    obtain ⟨more, moreRun, moreShow⟩ := ih
    refine ⟨shown :: more, ?_, .cons shows moreShow⟩
    rw [literals, run_bind_ok literalRun, run_bind_ok moreRun]
    rfl

theorem makes_runnerCall {workspace : Workspace} {values : List Value} {texts : List (List Char)} (name : String)
    (stand : AllStand workspace.store values texts) :
    Makes (runnerCall name values) workspace false
      (name.toList ++ '(' :: [',', ' '].intercalate texts ++ [')']) := by
  obtain ⟨shown, literalRun, shows⟩ := literals_stand stand
  have parts : AllShow workspace.store (.text (name ++ "(") :: commaSeparated shown ++ [.text ")"])
      ((name.toList ++ ['(']) :: texts.intersperse [',', ' '] ++ [[')']]) := by
    refine .cons ?_ (.append (.intersperse shows) (.cons rfl .nil))
    show name ++ "(" = _
    rw [← String.toList_inj]
    simp
  obtain ⟨identity, after, result, grows, spells⟩ := makes_compose parts false
  refine ⟨identity, after, ?_, grows, ?_⟩
  · rw [runnerCall, run_bind_ok literalRun, result]
  · simpa [List.intercalate] using spells

theorem makes_status (name : String) (workspace : Workspace) :
    Makes (compose false [.text (name ++ "()")]) workspace false (name.toList ++ ['(', ')']) := by
  have parts : AllShow workspace.store [.text (name ++ "()")] [name.toList ++ ['(', ')']] := by
    refine .cons ?_ .nil
    show name ++ "()" = _
    rw [← String.toList_inj]
    simp
  simpa using makes_compose parts false

/-- The value that a formula has been built as. -/
def Means (store : Store) (value : Value) : Formula → Prop
  | .null => value = .null
  | .bool content => value = .bool content
  | .int content => value = .int content
  | .text content => value = .text content
  | .path segments => value = .path segments
  | formula => ∃ identity, value = .expression identity ∧ Spells store identity formula.isCompound formula.chars

theorem means_expression {store : Store} {formula : Formula} {identity : Nat} (composed : formula.isComposed)
    (spells : Spells store identity formula.isCompound formula.chars) :
    Means store (.expression identity) formula := by
  cases formula with
  | null | bool | int | text | path => simp [Formula.isComposed, Formula.isCompound] at composed
  | call | compare | group | combine | negated => exact ⟨identity, rfl, spells⟩

theorem Means.expression {store : Store} {formula : Formula} {value : Value} (composed : formula.isComposed)
    (means : Means store value formula) :
    ∃ identity, value = .expression identity ∧ Spells store identity formula.isCompound formula.chars := by
  cases formula with
  | null | bool | int | text | path => simp [Formula.isComposed, Formula.isCompound] at composed
  | call | compare | group | combine | negated => exact means

theorem Means.grows {before after : Store} {value : Value} {formula : Formula}
    (means : Means before value formula) (grows : Grows before after) : Means after value formula := by
  cases formula with
  | null | bool | int | text | path => exact means
  | call | compare | group | combine | negated =>
    obtain ⟨identity, same, spells⟩ := means
    exact ⟨identity, same, spells.grows grows⟩

theorem Means.stands {store : Store} {value : Value} {formula : Formula} (means : Means store value formula) :
    Stands store value formula.chars := by
  cases formula with
  | null =>
    subst means
    exact fun _ _ => ⟨.text "null", rfl, rfl⟩
  | bool content =>
    subst means
    exact fun _ _ => ⟨.text (Tree.boolText content), rfl, (String.ofList_toList).symm⟩
  | int content =>
    subst means
    exact fun _ _ => ⟨.text (toString content), rfl, (String.ofList_toList).symm⟩
  | text content =>
    subst means
    exact fun _ _ => ⟨.text (quotedLiteral content), rfl, (String.ofList_toList).symm⟩
  | path segments =>
    subst means
    exact fun _ _ => ⟨.path segments, rfl, (String.ofList_toList).symm⟩
  | call | compare | group | combine | negated =>
    obtain ⟨identity, rfl, spells⟩ := means
    exact stands_expression spells

theorem Makes.means {build : Build Value} {workspace : Workspace} (formula : Formula)
    (made : Makes build workspace formula.isCompound formula.chars) (composed : formula.isComposed) :
    ∃ value after, build.run workspace = (.ok value, after) ∧ Grows workspace.store after.store ∧
      Means after.store value formula := by
  obtain ⟨identity, after, result, grows, spells⟩ := made
  exact ⟨.expression identity, after, result, grows, means_expression composed spells⟩

theorem Means.isExpression {store : Store} {value : Value} {formula : Formula} (means : Means store value formula) :
    isExpression value = formula.isComposed := by
  cases formula with
  | null | bool | int | text | path =>
    cases means
    rfl
  | call | compare | group | combine | negated =>
    obtain ⟨identity, rfl, -⟩ := means
    rfl

/-- The operand of an operator: in parentheses exactly if it is compound. -/
theorem operand_spells {workspace : Workspace} {identity : Nat} {compound : Bool} {chars : List Char}
    (spells : Spells workspace.store identity compound chars) :
    ∃ shown after, (operand (.expression identity)).run workspace = (.ok shown, after) ∧ Grows workspace.store after.store ∧
      Stands after.store shown (Formula.enclosed '(' ')' compound chars) := by
  have flag := spells.2.1
  cases compound with
  | true =>
    obtain ⟨made, after, result, grows, grouped⟩ := makes_group (stands_expression spells)
    refine ⟨.expression made, after, ?_, grows, stands_expression grouped⟩
    simp [operand, run_bind_ok (run_store workspace), flag, result]
  | false =>
    refine ⟨.expression identity, workspace, ?_, .refl _, stands_expression spells⟩
    simp [operand, run_bind_ok (run_store workspace), flag]

theorem operand_stands {workspace : Workspace} {value : Value} {formula : Formula}
    (means : Means workspace.store value formula) :
    ∃ shown after, (operand value).run workspace = (.ok shown, after) ∧ Grows workspace.store after.store ∧
      Stands after.store shown (Formula.enclosed '(' ')' formula.isCompound formula.chars) := by
  cases composed : formula.isComposed with
  | false =>
    have simple : formula.isCompound = false := by
      cases formula <;> simp_all [Formula.isComposed, Formula.isCompound]
    refine ⟨value, workspace, ?_, .refl _, ?_⟩
    · cases formula <;> simp_all [Formula.isComposed, Formula.isCompound, Means] <;> rfl
    · rw [simple]
      exact means.stands
  | true =>
    obtain ⟨identity, rfl, spells⟩ := means.expression composed
    exact operand_spells spells

end WorkflowCompiler.Proofs.FormulaSpelling
