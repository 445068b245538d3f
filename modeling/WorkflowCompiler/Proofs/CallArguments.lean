import WorkflowCompiler.Proofs.ExpressionTexts
import WorkflowCompiler.Proofs.FormulaBuilding
import WorkflowCompiler.Proofs.NumberTexts

/-! Arguments of calls. A sequence among them becomes its leaves with commas between, at every level,
so that a reader who splits a call at its commas finds the literals of all leaves. An empty sequence
leaves an empty argument. -/

namespace WorkflowCompiler

open Proofs (RunnerFunction Stops takeWhile_append_of_stops)

/-! ### Reading calls -/

/-- Where the reader of a call stands: how many parentheses are open, and whether inside a literal. -/
structure Nesting where
  depth : Nat := 0
  quoted : Bool := false
deriving DecidableEq

/-- A doubled quote ends a literal and starts it again. -/
def Nesting.next (nesting : Nesting) (c : Char) : Nesting :=
  if c = '\'' then { nesting with quoted := !nesting.quoted }
  else if nesting.quoted then nesting
  else if c = '(' then { nesting with depth := nesting.depth + 1 }
  else if c = ')' then { nesting with depth := nesting.depth - 1 }
  else nesting

namespace CallText

/-- The text closes what is open and what it opens, and has no comma outside. -/
def Whole (nesting : Nesting) : List Char → Prop
  | [] => nesting = {}
  | c :: rest => (nesting = {} → c ≠ ',' ∧ c ≠ ')') ∧ Whole (nesting.next c) rest

instance decidableWhole : (nesting : Nesting) → (text : List Char) → Decidable (Whole nesting text)
  | nesting, [] => inferInstanceAs (Decidable (nesting = {}))
  | nesting, c :: rest =>
    have := decidableWhole (nesting.next c) rest
    inferInstanceAs (Decidable ((nesting = {} → c ≠ ',' ∧ c ≠ ')') ∧ Whole (nesting.next c) rest))

/-- The text up to the parenthesis that closes the call, which ends the text, in pieces: it is split at
the commas outside literals and parentheses. -/
def pieces (nesting : Nesting) : List Char → Option (List (List Char))
  | [] => none
  | c :: rest =>
    if nesting = {} ∧ c = ')' then if rest = [] then some [[]] else none
    else if nesting = {} ∧ c = ',' then ([] :: ·) <$> pieces {} rest
    else List.modifyHead (c :: ·) <$> pieces (nesting.next c) rest

/-- A blank after a comma belongs to the comma, and parentheses with nothing between hold no argument. -/
def trimmed : List (List Char) → List String
  | [[]] => []
  | [] => []
  | first :: more => String.ofList first :: more.map fun
    | ' ' :: piece => String.ofList piece
    | piece => String.ofList piece

/-- The name and the arguments of a call. -/
def read? (text : String) : Option (String × List String) :=
  match text.toList.dropWhile (· != '(') with
  | [] => none
  | _ :: rest => (fun found => (String.ofList (text.toList.takeWhile (· != '(')), trimmed found)) <$> pieces {} rest

/-- What the runner may read as one operand at least closes what it opens, and has no comma outside. -/
structure IsOperand (text : String) : Prop where
  filled : text ≠ ""
  whole : Whole {} text.toList

/-- Inside a whole text no piece ends, so that it becomes the start of the next piece. -/
theorem pieces_append {nesting : Nesting} {text : List Char} (whole : Whole nesting text) (rest : List Char) :
    pieces nesting (text ++ rest) = List.modifyHead (text ++ ·) <$> pieces {} rest := by
  induction text generalizing nesting with
  | nil =>
    obtain rfl : nesting = {} := whole
    have same : List.modifyHead (([] : List Char) ++ ·) = id := funext fun found => by cases found <;> rfl
    rw [List.nil_append, same, id_map]
  | cons c text ih =>
    obtain ⟨inside, later⟩ := whole
    have open' : ¬ (nesting = {} ∧ c = ')') := fun ⟨outside, closing⟩ => (inside outside).2 closing
    have joined : ¬ (nesting = {} ∧ c = ',') := fun ⟨outside, comma⟩ => (inside outside).1 comma
    rw [List.cons_append, pieces, if_neg open', if_neg joined, ih later]
    cases pieces {} rest with
    | none => rfl
    | some found => cases found <;> rfl

/-- Pieces with the blanks that stand before them. -/
def spaced : List (List Char) → List (List Char)
  | [] => [[]]
  | first :: more => first :: more.map (' ' :: ·)

/-- Whole texts with commas between them are the pieces of the whole. -/
theorem pieces_intercalate {texts : List (List Char)} (whole : ∀ text ∈ texts, Whole {} text) :
    pieces {} ([',', ' '].intercalate texts ++ [')']) = some (spaced texts) := by
  induction texts with
  | nil => rfl
  | cons first more ih =>
    obtain ⟨here, later⟩ := List.forall_mem_cons.mp whole
    cases more with
    | nil =>
      rw [List.intercalate_singleton, pieces_append here]
      simp [pieces, spaced]
    | cons second more =>
      have blank (text : List Char) : pieces {} (' ' :: text) = List.modifyHead (' ' :: ·) <$> pieces {} text := by
        rw [pieces, if_neg (by decide), if_neg (by decide)]
        rfl
      have comma (text : List Char) : pieces {} (',' :: text) = ([] :: ·) <$> pieces {} text := by
        rw [pieces, if_neg (by decide), if_pos (by decide)]
      rw [List.intercalate_cons_cons, List.append_assoc, List.append_assoc, pieces_append here, List.cons_append, comma,
        List.cons_append, blank, List.nil_append, ih later]
      simp [spaced]

theorem trimmed_spaced (texts : List String) :
    trimmed (spaced (texts.map String.toList)) = if texts = [""] then [] else texts := by
  match texts with
  | [] => rfl
  | [text] =>
    by_cases empty : text = ""
    · subst empty
      rfl
    · have filled : text.toList ≠ [] := fun none => empty (String.toList_eq_nil_iff.mp none)
      simp [trimmed, spaced, empty, filled]
  | first :: second :: more => simp [trimmed, spaced, Function.comp_def]

theorem read?_call {name : String} (plain : '(' ∉ name.toList) {texts : List String} (whole : ∀ text ∈ texts, Whole {} text.toList) :
    read? (name ++ "(" ++ ", ".intercalate texts ++ ")") = some (name, if texts = [""] then [] else texts) := by
  have written : (name ++ "(" ++ ", ".intercalate texts ++ ")").toList =
      name.toList ++ '(' :: ([',', ' '].intercalate (texts.map String.toList) ++ [')']) := by
    simp [String.toList_intercalate]
  have named : ∀ c ∈ name.toList, (c != '(') = true := fun c member => by
    simp only [bne_iff_ne]
    rintro rfl
    exact plain member
  have stops : Stops (· != '(') ('(' :: ([',', ' '].intercalate (texts.map String.toList) ++ [')'])) := by simp [Stops]
  obtain ⟨before, after⟩ := takeWhile_append_of_stops named stops
  have inner : ∀ text ∈ texts.map String.toList, Whole {} text := by simpa using whole
  rw [read?, written, after, before]
  simp only [pieces_intercalate inner, Option.map_eq_map, Option.map_some, trimmed_spaced, String.ofList_toList]

/-! ### Literals read as operands -/

theorem whole_plain {text : List Char} (plain : ∀ c ∈ text, c ≠ '\'' ∧ c ≠ '(' ∧ c ≠ ')' ∧ c ≠ ',') : Whole {} text := by
  induction text with
  | nil => rfl
  | cons c text ih =>
    obtain ⟨⟨quote, opening, closing, comma⟩, later⟩ := List.forall_mem_cons.mp plain
    refine ⟨fun _ => ⟨comma, closing⟩, ?_⟩
    have stays : Nesting.next {} c = {} := by simp [Nesting.next, quote, opening, closing]
    rw [stays]
    exact ih later

/-- A literal ends at its last quote, whatever is in it. -/
theorem whole_doubled (text : List Char) :
    Whole { quoted := true } (text.flatMap (fun c => if c == '\'' then ['\'', '\''] else [c]) ++ ['\'']) := by
  induction text with
  | nil => decide
  | cons c text ih =>
    rw [List.flatMap_cons, List.append_assoc]
    by_cases quote : c = '\''
    · subst quote
      exact ⟨nofun, fun _ => by decide, ih⟩
    · have stays : Nesting.next { quoted := true } c = { quoted := true } := by simp [Nesting.next, quote]
      rw [if_neg (by simpa using quote)]
      refine ⟨nofun, ?_⟩
      rw [stays]
      exact ih

theorem isOperand_quoted (text : String) : IsOperand (Build.quotedLiteral text) where
  filled empty := by simp [Build.quotedLiteral] at empty
  whole := by
    rw [Build.quotedLiteral, String.toList_ofList]
    exact ⟨fun _ => by decide, whole_doubled text.toList⟩

theorem isOperand_bool (value : Bool) : IsOperand (Tree.boolText value) := by
  cases value <;> exact ⟨by decide, by decide⟩

theorem isOperand_int (value : Int) : IsOperand (toString value) where
  filled empty := by
    obtain ⟨sign, first, rest, same, -⟩ := (Yaml.numerals_int value).shape
    simp [empty] at same
  whole := by
    refine whole_plain fun c member => ?_
    rcases Yaml.numeral_cases ((Yaml.numerals_int value).all c member) with digit | rfl | rfl | rfl | rfl
    · have other : ∀ d, d.isDigit = false → c ≠ d := fun d => Yaml.ne_of_digit digit
      exact ⟨other _ rfl, other _ rfl, other _ rfl, other _ rfl⟩
    all_goals decide

end CallText

/-! ### Leaves of sequences -/

namespace Value

mutual

/-- What a nested sequence leaves in a list of arguments: its leaves, and `none` for each sequence
that is empty. -/
def slots : Value → List (Option Value)
  | .list items => if items.isEmpty then [none] else slotsOf items
  | .tuple items => if items.isEmpty then [none] else slotsOf items
  | value => [some value]

def slotsOf : List Value → List (Option Value)
  | [] => []
  | value :: rest => slots value ++ slotsOf rest

end

/-- Also an empty sequence leaves a slot. -/
theorem slots_ne_nil (value : Value) : value.slots ≠ [] := by
  cases value with
  | list items | tuple items =>
    cases items with
    | nil => exact List.cons_ne_nil _ _
    | cons first rest => exact List.append_ne_nil_of_left_ne_nil (slots_ne_nil first) _
  | _ => exact List.cons_ne_nil _ _

/-- The leaves of nested sequences, in order. -/
def leavesOf (values : List Value) : List Value := (slotsOf values).reduceOption

end Value

open Value (slots slotsOf leavesOf)

/-- What may stand in a nested sequence, and the literal that it becomes. Paths and expressions are
read as they are, so that they have to be operands by themselves. -/
inductive Leaf (store : Store) : Value → String → Prop
  | null : Leaf store .null "null"
  | bool (value : Bool) : Leaf store (.bool value) (Tree.boolText value)
  | int (value : Int) : Leaf store (.int value) (toString value)
  | text {value : Value} {written : String} (chars : value.chars? = some written) : Leaf store value (Build.quotedLiteral written)
  | path {value : Value} {segments : List Label} (named : value.segments? = some segments)
      (operand : CallText.IsOperand (dotted segments)) : Leaf store value (dotted segments)
  | expression {identity : Nat} {text : String} (has : store.Has (.expression identity))
      (reads : store.expressionText identity = .ok text) (operand : CallText.IsOperand text) : Leaf store (.expression identity) text

/-- What fills a slot: the literal of its leaf, or nothing. -/
inductive Slot (store : Store) : Option Value → String → Prop
  | empty : Slot store none ""
  | leaf {value : Value} {text : String} (leaf : Leaf store value text) : Slot store (some value) text

namespace Leaf

theorem operand {store : Store} {value : Value} {text : String} (leaf : Leaf store value text) : CallText.IsOperand text := by
  cases leaf with
  | null => exact ⟨by decide, by decide⟩
  | bool value => exact CallText.isOperand_bool value
  | int value => exact CallText.isOperand_int value
  | text chars => exact CallText.isOperand_quoted _
  | path named operand => exact operand
  | expression has reads operand => exact operand

theorem kept {before after : Store} (closed : before.Closed) (keeps : Store.Keeps [] before after) {value : Value} {text : String}
    (leaf : Leaf before value text) : Leaf after value text := by
  cases leaf with
  | null => exact .null
  | bool value => exact .bool value
  | int value => exact .int value
  | text chars => exact .text chars
  | path named operand => exact .path named operand
  | expression has reads operand =>
    exact .expression (keeps.has _ has) ((Store.sameForm_of_keeps closed keeps (.expression _) has).trans reads) operand

/-- The literal of a leaf is at hand. -/
theorem literal {workspace : Workspace} {value : Value} {text : String} (leaf : Leaf workspace.store value text) :
    ∃ shown, (Build.literal value).run workspace = (.ok shown, workspace) ∧ workspace.store.Adds shown text := by
  cases leaf with
  | null => exact ⟨_, rfl, Store.adds_text _ _⟩
  | bool value => exact ⟨_, rfl, Store.adds_text _ _⟩
  | int value => exact ⟨_, rfl, Store.adds_text _ _⟩
  | text chars =>
    cases value <;> cases chars <;> exact ⟨_, rfl, Store.adds_text _ _⟩
  | path named operand =>
    cases value with
    | path segments =>
      cases named
      exact ⟨_, rfl, Value.within_path _, rfl⟩
    | pathLike identity segments =>
      refine ⟨.pathLike identity segments, ?_, Value.within_pathLike _ _, ?_⟩
      · simp only [Build.literal, named]
        rfl
      · simp only [Store.addedText, Build.fragment?, named]
        rfl
    | _ => cases named
  | expression has reads operand => exact ⟨_, rfl, Store.adds_expression has reads⟩

end Leaf

namespace Slot

theorem kept {before after : Store} (closed : before.Closed) (keeps : Store.Keeps [] before after) {slot : Option Value} {text : String}
    (fills : Slot before slot text) : Slot after slot text := by
  cases fills with
  | empty => exact .empty
  | leaf leaf => exact .leaf (leaf.kept closed keeps)

theorem whole {store : Store} {slot : Option Value} {text : String} (fills : Slot store slot text) : CallText.Whole {} text.toList := by
  cases fills with
  | empty => rfl
  | leaf leaf => exact leaf.operand.whole

end Slot

/-- The arguments that a call passes on. A separator of `join` that is null counts as left out, and the
status functions take no arguments. -/
def Proofs.RunnerFunction.given? : RunnerFunction → List Value → Option (List Value)
  | .join, [values] => some [values]
  | .join, [values, .null] => some [values]
  | .join, [values, separator] => some [values, separator]
  | .join, _ => none
  | .always, _ => none
  | .success, _ => none
  | .failure, _ => none
  | .cancelled, _ => none
  | _, values => some values

namespace Build

theorem adds_commaSeparated {store : Store} {values : List Value} {texts : List String} (adds : List.Forall₂ store.Adds values texts) :
    List.Forall₂ store.Adds (commaSeparated values) (texts.intersperse ", ") := by
  induction adds with
  | nil => exact .nil
  | cons first more ih =>
    cases more with
    | nil => exact .cons first .nil
    | cons second more => exact .cons first (.cons (Store.adds_text _ _) ih)

theorem join_intersperse (texts : List String) : String.join (texts.intersperse ", ") = ", ".intercalate texts := by
  rw [← String.toList_inj, String.toList_join, String.toList_intercalate, List.intercalate]
  induction texts with
  | nil => rfl
  | cons first more ih => cases more <;> simp_all

theorem intercalate_groups {groups : List (List String)} (filled : ∀ group ∈ groups, group ≠ []) :
    ", ".intercalate (groups.map ", ".intercalate) = ", ".intercalate groups.flatten := by
  induction groups with
  | nil => rfl
  | cons first more ih =>
    obtain ⟨here, later⟩ := List.forall_mem_cons.mp filled
    cases more with
    | nil => simp
    | cons second more =>
      have rest : (second :: more).flatten ≠ [] := by
        have there := later second List.mem_cons_self
        simp [there]
      rw [List.map_cons, String.intercalate_cons_of_ne_nil (by simp), ih later, ← String.intercalate_append_of_ne_nil here rest]
      rfl

/-- The literals of the values add what fills their slots. What they leave falls into groups, one for
each value. -/
def YieldsGroups (values : List Value) (workspace : Workspace) (texts : List String) : Prop :=
  ∃ groups : List (List String), groups.flatten = texts ∧ (∀ group ∈ groups, group ≠ []) ∧
    YieldsAll (literals values) workspace (groups.map ", ".intercalate)

/-- Literals with commas between them add what fills their slots, with commas between. -/
theorem yields_separated {workspace : Workspace} {items : List Value} {texts : List String} (yields : YieldsGroups items workspace texts) :
    Yields (literals items >>= fun items => compose false (commaSeparated items)) workspace (", ".intercalate texts) := by
  obtain ⟨groups, rfl, filled, values, between, result, sound, keeps, adds⟩ := yields
  obtain ⟨value, after, composed, soundAfter, further, addsAll⟩ := yields_compose sound (adds_commaSeparated adds) false
  rw [join_intersperse, intercalate_groups filled] at addsAll
  exact ⟨value, after, by rw [run_bind_ok result, composed], soundAfter, keeps.trans further, addsAll⟩

/-- An empty sequence adds nothing, which fills its slot. -/
theorem yields_sequence {workspace : Workspace} {items : List Value} {texts : List String}
    (fills : List.Forall₂ (Slot workspace.store) (if items.isEmpty then [none] else slotsOf items) texts)
    (yields : ∀ texts, List.Forall₂ (Slot workspace.store) (slotsOf items) texts → YieldsGroups items workspace texts) :
    Yields (literals items >>= fun items => compose false (commaSeparated items)) workspace (", ".intercalate texts) := by
  cases items with
  | nil =>
    have nothing := yields_separated (yields [] .nil)
    obtain _ | ⟨_ | _, _ | _⟩ := fills
    simpa using nothing
  | cons first rest => exact yields_separated (yields texts fills)

/-- A value that is no sequence fills one slot. -/
theorem yields_leaf {value : Value} {workspace : Workspace} (sound : workspace.Sound) {texts : List String}
    (fills : List.Forall₂ (Slot workspace.store) [some value] texts) : Yields (literal value) workspace (", ".intercalate texts) := by
  cases fills with
  | cons only none =>
    cases none
    cases only with
    | leaf leaf =>
      obtain ⟨shown, result, adds⟩ := leaf.literal
      exact ⟨shown, workspace, result, sound, .refl _ _, by rwa [String.intercalate_singleton]⟩

mutual

/-- The literal of a nested value adds what fills its slots, with commas between. -/
theorem yields_literal (value : Value) {workspace : Workspace} (sound : workspace.Sound) {texts : List String}
    (fills : List.Forall₂ (Slot workspace.store) value.slots texts) : Yields (literal value) workspace (", ".intercalate texts) := by
  cases value with
  | list items | tuple items => exact yields_sequence fills fun texts fills => yields_literals items sound fills
  | _ => exact yields_leaf sound fills

theorem yields_literals (values : List Value) {workspace : Workspace} (sound : workspace.Sound) {texts : List String}
    (fills : List.Forall₂ (Slot workspace.store) (slotsOf values) texts) : YieldsGroups values workspace texts := by
  cases values with
  | nil =>
    cases fills
    exact ⟨[], rfl, nofun, [], workspace, rfl, sound, .refl _ _, .nil⟩
  | cons value rest =>
    have early := List.forall₂_take value.slots.length fills
    have late := List.forall₂_drop value.slots.length fills
    rw [slotsOf, List.take_left] at early
    rw [slotsOf, List.drop_left] at late
    obtain ⟨shown, between, result, soundBetween, keeps, adds⟩ := yields_literal value sound early
    -- The first literal may have made expressions, but what the leaves that follow read as has not changed.
    have later := late.imp fun _ _ fills => Slot.kept sound.objects keeps fills
    obtain ⟨groups, flat, filled, others, after, rest, soundAfter, further, addsRest⟩ := yields_literals rest soundBetween later
    refine ⟨texts.take value.slots.length :: groups, ?_, List.forall_mem_cons.mpr ⟨?_, filled⟩, shown :: others, after, ?_,
      soundAfter, keeps.trans further, .cons (adds.kept soundBetween.objects further) addsRest⟩
    · rw [List.flatten_cons, flat, List.take_append_drop]
    · have same := early.length_eq
      exact fun none => value.slots_ne_nil (List.length_eq_zero_iff.mp (by rw [same, none]; rfl))
    · rw [literals, run_bind_ok result, run_bind_ok rest]
      rfl

end

theorem written_bind_ok {first : Build α} {next : α → Build Value} {workspace between : Workspace} {value : α}
    (result : first.run workspace = (.ok value, between)) : written (first >>= next) workspace = written (next value) between := by
  rw [written, written, bind_assoc, run_bind_ok result]

theorem written_runnerCall (name : String) {given : List Value} {workspace : Workspace} (sound : workspace.Sound) {texts : List String}
    (fills : List.Forall₂ (Slot workspace.store) (slotsOf given) texts) :
    written (runnerCall name given) workspace = .ok (name ++ "(" ++ ", ".intercalate texts ++ ")") := by
  obtain ⟨groups, rfl, filled, values, between, result, soundBetween, -, adds⟩ := yields_literals given sound fills
  have parts : List.Forall₂ between.store.Adds (.text (name ++ "(") :: commaSeparated values ++ [.text ")"])
      ((name ++ "(") :: (groups.map ", ".intercalate).intersperse ", " ++ [")"]) :=
    .cons (Store.adds_text _ _) (List.rel_append (adds_commaSeparated adds) (.cons (Store.adds_text _ _) .nil))
  rw [runnerCall, written_bind_ok result, written_compose soundBetween parts, ← intercalate_groups filled, ← join_intersperse,
    List.cons_append, String.join_cons, String.join_append, join_singleton]
  simp only [String.append_assoc]

/-- The text of a value as an expression of its own. -/
def literalText (workspace : Workspace) (value : Value) : Except Failure String := written (applyBuiltin .expression [value]) workspace

theorem literalText_of_leaf {workspace : Workspace} (sound : workspace.Sound) {value : Value} {text : String}
    (leaf : Leaf workspace.store value text) : literalText workspace value = .ok text := by
  obtain ⟨shown, result, adds⟩ := leaf.literal
  exact (written_bind_ok result).trans (written_single sound adds false)

def slotText (workspace : Workspace) (slot : Option Value) : Except Failure String := slot.elim (.ok "") (literalText workspace)

section

variable {workspace : Workspace} {slots : List (Option Value)}

theorem exists_fills (leaves : ∀ leaf ∈ slots.reduceOption, ∃ text, Leaf workspace.store leaf text) :
    ∃ texts, List.Forall₂ (Slot workspace.store) slots texts := by
  induction slots with
  | nil => exact ⟨[], .nil⟩
  | cons slot rest ih =>
    cases slot with
    | none =>
      obtain ⟨texts, fills⟩ := ih leaves
      exact ⟨"" :: texts, .cons .empty fills⟩
    | some value =>
      obtain ⟨⟨text, leaf⟩, later⟩ := List.forall_mem_cons.mp leaves
      obtain ⟨texts, fills⟩ := ih later
      exact ⟨text :: texts, .cons (.leaf leaf) fills⟩

variable {texts : List String} (fills : List.Forall₂ (Slot workspace.store) slots texts)
include fills

theorem mapM_slotText (sound : workspace.Sound) : slots.mapM (slotText workspace) = .ok texts := by
  refine mapM_ok (fills.imp fun slot text fill => ?_)
  cases fill with
  | empty => rfl
  | leaf leaf => exact literalText_of_leaf sound leaf

/-- The literals of the leaves are what fills the slots, apart from those of empty sequences. -/
theorem mapM_literalText (sound : workspace.Sound) :
    slots.reduceOption.mapM (literalText workspace) = .ok (texts.filter (· ≠ "")) := by
  induction fills with
  | nil => rfl
  | @cons slot text _ others fill _ ih =>
    cases fill with
    | empty => exact ih
    | leaf leaf =>
      have kept : (text :: others).filter (· ≠ "") = text :: others.filter (· ≠ "") :=
        List.filter_cons_of_pos (decide_eq_true leaf.operand.filled)
      rw [List.reduceOption_cons_of_some, List.mapM_cons, literalText_of_leaf sound leaf, ih, kept]
      rfl

theorem whole_of_fills : ∀ text ∈ texts, CallText.Whole {} text.toList := by
  induction fills with
  | nil => exact nofun
  | cons fill _ ih => exact List.forall_mem_cons.mpr ⟨fill.whole, ih⟩

theorem empty_mem_iff : "" ∈ texts ↔ none ∈ slots := by
  induction fills with
  | nil => simp
  | cons fill _ ih =>
    cases fill with
    | empty => simp
    | leaf leaf => simp [ih, leaf.operand.filled.symm]

theorem eq_empty_iff : texts = [""] ↔ slots = [none] := by
  have single := fills.length_eq
  constructor
  · rintro rfl
    obtain ⟨slot, rfl⟩ := List.length_eq_one_iff.mp single
    rw [← List.mem_singleton.mp ((empty_mem_iff fills).mp List.mem_cons_self)]
  · rintro rfl
    obtain ⟨text, rfl⟩ := List.length_eq_one_iff.mp single.symm
    rw [← List.mem_singleton.mp ((empty_mem_iff fills).mpr List.mem_cons_self)]

end

theorem applyBuiltin_given {function : RunnerFunction} {values given : List Value} (called : function.given? values = some given) :
    applyBuiltin function.builtin values = runnerCall function.name given := by
  cases function with
  | join =>
    match values with
    | [] | _ :: _ :: _ :: _ => simp [RunnerFunction.given?] at called
    | [_] =>
      cases called
      rfl
    | [_, separator] => cases separator <;> cases called <;> rfl
  | always | success | failure | cancelled => cases called
  | contains | startsWith | endsWith | format | toJson | fromJson | hashFiles =>
    cases called
    rfl

/-- The reader of a call with nested sequences among its arguments finds what fills their slots. That
are the literals of all leaves, in order and none of them empty, unless a sequence is empty: it leaves
an empty argument beside others. -/
theorem call_lists_leaves {workspace : Workspace} (sound : workspace.Sound) {function : RunnerFunction} {values given : List Value}
    (called : function.given? values = some given) (leaves : ∀ leaf ∈ leavesOf given, ∃ text, Leaf workspace.store leaf text) :
    ∃ text texts literals, written (applyBuiltin function.builtin values) workspace = .ok text ∧
      (slotsOf given).mapM (slotText workspace) = .ok texts ∧
      CallText.read? text = some (function.name, if texts = [""] then [] else texts) ∧
      (leavesOf given).mapM (literalText workspace) = .ok literals ∧ "" ∉ literals ∧
      (CallText.read? text = some (function.name, literals) ↔ none ∉ slotsOf given ∨ slotsOf given = [none]) := by
  obtain ⟨texts, fills⟩ := exists_fills leaves
  have plain : '(' ∉ function.name.toList := by cases function <;> decide
  have reads := CallText.read?_call plain (whole_of_fills fills)
  refine ⟨_, texts, _, (congrArg (written · workspace) (applyBuiltin_given called)).trans (written_runnerCall _ sound fills),
    mapM_slotText fills sound, reads, mapM_literalText fills sound, by simp, ?_⟩
  rw [reads, ← empty_mem_iff fills, ← eq_empty_iff fills]
  by_cases only : texts = [""]
  · simp [only]
  · rw [if_neg only, Option.some.injEq, Prod.mk.injEq, or_iff_left only, eq_comm (a := texts), List.filter_eq_self]
    simp only [true_and, decide_eq_true_eq]
    exact ⟨fun all member => all "" member rfl, fun absent text member empty => absent (empty ▸ member)⟩

/-- Leaves with commas, quotes and parentheses in them, two sequences deep. -/
def nestedPatterns : List Value :=
  [.text "{0} (", .list [.tuple [.text "a, b", .text "it's )"], .null, .list [.bool true, .int (-3)]], .expression 1]

theorem nestedPatterns_leaves : ∀ leaf ∈ leavesOf nestedPatterns, ∃ text, Leaf comparedReference.store leaf text := by
  have listed : leavesOf nestedPatterns =
      [.text "{0} (", .text "a, b", .text "it's )", .null, .bool true, .int (-3), .expression 1] := rfl
  have success : CallText.IsOperand "success()" := ⟨by decide, by decide⟩
  simp only [listed, List.forall_mem_cons]
  exact ⟨⟨_, .text rfl⟩, ⟨_, .text rfl⟩, ⟨_, .text rfl⟩, ⟨_, .null⟩, ⟨_, .bool true⟩, ⟨_, .int (-3)⟩,
    ⟨_, .expression (by decide) rfl success⟩, nofun⟩

theorem call_lists_leaves_nested :
    comparedReference.Sound ∧ RunnerFunction.format.given? nestedPatterns = some nestedPatterns ∧
    (∀ leaf ∈ leavesOf nestedPatterns, ∃ text, Leaf comparedReference.store leaf text) ∧
    written (applyBuiltin RunnerFunction.format.builtin nestedPatterns) comparedReference =
      .ok "format('{0} (', 'a, b', 'it''s )', null, true, -3, success())" ∧
    ∃ literals, (leavesOf nestedPatterns).mapM (literalText comparedReference) = .ok literals ∧ "" ∉ literals ∧
      CallText.read? "format('{0} (', 'a, b', 'it''s )', null, true, -3, success())" = some ("format", literals) := by
  have called : RunnerFunction.format.given? nestedPatterns = some nestedPatterns := rfl
  obtain ⟨text, texts, literals, result, -, -, each, filled, same⟩ :=
    call_lists_leaves comparedReference_sound called nestedPatterns_leaves
  have shown : written (applyBuiltin RunnerFunction.format.builtin nestedPatterns) comparedReference =
      .ok "format('{0} (', 'a, b', 'it''s )', null, true, -3, success())" := rfl
  obtain rfl := Except.ok.inj (result.symm.trans shown)
  have full : none ∉ slotsOf nestedPatterns := by simp [nestedPatterns, slotsOf, Value.slots]
  exact ⟨comparedReference_sound, called, nestedPatterns_leaves, shown, literals, each, filled, same.mpr (.inl full)⟩

/-- An empty sequence leaves an empty argument, which is the literal of no leaf. -/
theorem contains_of_nothing :
    (∀ leaf ∈ leavesOf [.list [], .text "x"], ∃ text, Leaf ({} : Workspace).store leaf text) ∧
    written (applyBuiltin RunnerFunction.contains.builtin [.list [], .text "x"]) {} = .ok "contains(, 'x')" ∧
    CallText.read? "contains(, 'x')" = some ("contains", ["", "'x'"]) ∧
    (leavesOf [.list [], .text "x"]).mapM (literalText {}) = .ok ["'x'"] :=
  ⟨List.forall_mem_singleton.mpr ⟨_, .text rfl⟩, rfl, rfl, rfl⟩

end Build

end WorkflowCompiler
