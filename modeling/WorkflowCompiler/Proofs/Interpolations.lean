import Mathlib.Data.List.Sublists
import WorkflowCompiler.Proofs.ExpressionTexts

/-! Interpolations in texts that are put together from texts and expressions. Nothing is escaped, but
scanned from the left the result shows each expression where it was put, unless a text spells an
opening itself or an expression a closing. -/

namespace WorkflowCompiler

open Value (AllWithin)

/-- A text with interpolations in it: each with the text before it, and what comes after the last. -/
structure Interpolated where
  found : List (List Char × List Char) := []
  rest : List Char := []
deriving DecidableEq

namespace Interpolated

/-- With more text in front. -/
def after (text : List Char) : Interpolated → Interpolated
  | ⟨[], rest⟩ => ⟨[], text ++ rest⟩
  | ⟨(raw, inner) :: found, rest⟩ => ⟨(text ++ raw, inner) :: found, rest⟩

def opening : List Char := ['$', '{', '{']

def closing : List Char := ['}', '}']

/-- The characters as they are written. -/
def chars : Interpolated → List Char
  | ⟨[], rest⟩ => rest
  | ⟨(raw, inner) :: found, rest⟩ => raw ++ opening ++ ' ' :: inner ++ ' ' :: closing ++ chars ⟨found, rest⟩

/-- All that stands outside the interpolations. -/
def raws (text : Interpolated) : List (List Char) := text.found.map Prod.fst ++ [text.rest]

/-- An interpolation closes with a blank before the braces. -/
def unpadded (inner : List Char) : List Char := if inner.getLast? = some ' ' then inner.dropLast else inner

mutual

/-- Looks for interpolations from left to right. An opening that is not closed is text. -/
def scan : List Char → Interpolated
  | [] => {}
  | '$' :: '{' :: '{' :: ' ' :: rest =>
    match close? rest with
    | some (inner, later) => { later with found := ([], unpadded inner) :: later.found }
    | none => (scan ('{' :: '{' :: ' ' :: rest)).after ['$']
  | c :: rest => (scan rest).after [c]

/-- The text up to the next closing, and what is found after it. -/
def close? : List Char → Option (List Char × Interpolated)
  | [] => none
  | '}' :: '}' :: rest => some ([], scan rest)
  | c :: rest => (fun (inner, later) => (c :: inner, later)) <$> close? rest

end

theorem after_nil (text : Interpolated) : text.after [] = text := by
  obtain ⟨_ | ⟨⟨raw, inner⟩, found⟩, rest⟩ := text <;> rfl

theorem after_after (text : Interpolated) (first second : List Char) : (text.after second).after first = text.after (first ++ second) := by
  obtain ⟨_ | ⟨⟨raw, inner⟩, found⟩, rest⟩ := text <;> simp [after]

theorem chars_after (text : Interpolated) (more : List Char) : (text.after more).chars = more ++ text.chars := by
  obtain ⟨_ | ⟨⟨raw, inner⟩, found⟩, rest⟩ := text <;> simp [after, chars]

theorem raws_after (text : Interpolated) (more : List Char) : (text.after more).raws = text.raws.modifyHead (more ++ ·) := by
  obtain ⟨_ | ⟨⟨raw, inner⟩, found⟩, rest⟩ := text <;> rfl

theorem inners_after (text : Interpolated) (more : List Char) : (text.after more).found.map Prod.snd = text.found.map Prod.snd := by
  obtain ⟨_ | ⟨⟨raw, inner⟩, found⟩, rest⟩ := text <;> rfl

/-- No opening arises where a text without one meets the dollar sign of an interpolation: the
characters after a dollar sign at its end would have to be braces. -/
theorem scan_append {raw rest : List Char} (clean : ¬ opening <:+: raw) (start : ∀ c ∈ rest.head?, c = '$') :
    scan (raw ++ rest) = (scan rest).after raw := by
  induction raw with
  | nil => exact (after_nil _).symm
  | cons c raw ih =>
    have later := ih fun inside => clean (List.infix_cons inside)
    have outside : ∀ more, c = '$' → raw ++ rest = '{' :: '{' :: ' ' :: more → False := by
      rintro more rfl same
      cases raw with
      | nil =>
        obtain rfl : rest = _ := same
        exact absurd (start '{' rfl) (by decide)
      | cons second raw =>
        obtain ⟨rfl, further⟩ := List.cons.inj same
        cases raw with
        | nil =>
          obtain rfl : rest = _ := further
          exact absurd (start '{' rfl) (by decide)
        | cons third raw =>
          obtain ⟨rfl, -⟩ := List.cons.inj further
          exact clean (List.prefix_append opening raw).isInfix
    rw [List.cons_append, scan, later, after_after]
    · rfl
    · exact outside

/-- The blank before the braces keeps them apart from a brace at the end of the inner text. -/
theorem close?_append {inner : List Char} (plain : ¬ closing <:+: inner) (rest : List Char) :
    close? (inner ++ ' ' :: closing ++ rest) = some (inner ++ [' '], scan rest) := by
  induction inner with
  | nil => rfl
  | cons c inner ih =>
    have later := ih fun inside => plain (List.infix_cons inside)
    have outside : ∀ more, c = '}' → inner ++ ' ' :: closing ++ rest = '}' :: more → False := by
      rintro more rfl same
      cases inner with
      | nil => exact absurd (List.cons.inj same).1 (by decide)
      | cons second inner =>
        obtain ⟨rfl, -⟩ := List.cons.inj same
        exact plain (List.prefix_append closing inner).isInfix
    rw [List.cons_append, List.cons_append, close?, later]
    · rfl
    · exact outside

theorem scan_opening {text inner : List Char} {later : Interpolated} (closes : close? text = some (inner, later)) :
    scan (opening ++ ' ' :: text) = ⟨([], unpadded inner) :: later.found, later.rest⟩ := by
  have written : opening ++ ' ' :: text = '$' :: '{' :: '{' :: ' ' :: text := rfl
  rw [written, scan, closes]

/-- Scanning finds the interpolations that a text is written with. -/
theorem scan_chars {found : List (List Char × List Char)} {rest : List Char}
    (clean : ∀ raw ∈ raws ⟨found, rest⟩, ¬ opening <:+: raw) (plain : ∀ inner ∈ found.map Prod.snd, ¬ closing <:+: inner) :
    scan (chars ⟨found, rest⟩) = ⟨found, rest⟩ := by
  induction found with
  | nil =>
    have only : scan (rest ++ []) = (scan []).after rest := scan_append (clean rest (by simp [raws])) nofun
    rw [List.append_nil] at only
    rw [chars, only]
    simp [scan, after]
  | cons entry found ih =>
    obtain ⟨raw, inner⟩ := entry
    obtain ⟨first, later⟩ := List.forall_mem_cons.mp clean
    obtain ⟨here, others⟩ := List.forall_mem_cons.mp plain
    have closes := close?_append here (chars ⟨found, rest⟩)
    rw [ih later others] at closes
    have starts : ∀ c ∈ (opening ++ ' ' :: (inner ++ ' ' :: closing ++ chars ⟨found, rest⟩)).head?, c = '$' := by
      simp [opening]
    have written : chars ⟨(raw, inner) :: found, rest⟩ =
        raw ++ (opening ++ ' ' :: (inner ++ ' ' :: closing ++ chars ⟨found, rest⟩)) := by
      simp [chars]
    rw [written, scan_append first starts, scan_opening closes]
    simp [unpadded, after]

/-- What an item becomes part of a text as. -/
inductive Piece
  | raw (text : List Char)
  | inner (text : List Char)

namespace Piece

def chars : Piece → List Char
  | raw text => text
  | inner text => opening ++ ' ' :: text ++ ' ' :: closing

def inner? : Piece → Option (List Char)
  | raw _ => none
  | inner text => some text

end Piece

/-- An interpolation for each piece that is one, with the texts that stand together run together. -/
def parted : List Piece → Interpolated
  | [] => {}
  | .raw text :: rest => (parted rest).after text
  | .inner text :: rest => { parted rest with found := ([], text) :: (parted rest).found }

/-- Texts that follow each other among the pieces, run together. -/
def Run (pieces : List Piece) (text : List Char) : Prop :=
  ∃ texts : List (List Char), texts.map .raw <:+: pieces ∧ texts.flatten = text

theorem chars_parted (pieces : List Piece) : (parted pieces).chars = pieces.flatMap Piece.chars := by
  induction pieces with
  | nil => rw [parted, chars, List.flatMap_nil]
  | cons piece pieces ih =>
    rw [List.flatMap_cons, ← ih]
    cases piece with
    | raw text => exact chars_after _ _
    | inner text => simp [parted, chars, Piece.chars]

theorem inners_parted (pieces : List Piece) : (parted pieces).found.map Prod.snd = pieces.filterMap Piece.inner? := by
  induction pieces with
  | nil => rfl
  | cons piece pieces ih =>
    cases piece with
    | raw text => exact (inners_after _ _).trans ih
    | inner text => exact congrArg (text :: ·) ih

/-- What stands outside the interpolations are runs of texts. The first of them starts where the pieces
start, so that a text in front goes on with it. -/
theorem raws_parted (pieces : List Piece) :
    ∃ first others, (parted pieces).raws = first :: others ∧
      (∃ texts : List (List Char), texts.map .raw <+: pieces ∧ texts.flatten = first) ∧ ∀ raw ∈ others, Run pieces raw := by
  induction pieces with
  | nil => exact ⟨[], [], rfl, ⟨[], List.prefix_rfl, rfl⟩, nofun⟩
  | cons piece pieces ih =>
    obtain ⟨first, others, listed, ⟨texts, start, rfl⟩, later⟩ := ih
    have further : ∀ raw ∈ others, Run (piece :: pieces) raw := by
      intro raw member
      obtain ⟨texts, inside, flat⟩ := later raw member
      exact ⟨texts, List.infix_cons inside, flat⟩
    cases piece with
    | raw text =>
      refine ⟨text ++ texts.flatten, others, ?_, ⟨text :: texts, List.cons_prefix_cons.mpr ⟨rfl, start⟩, rfl⟩, further⟩
      rw [parted, raws_after, listed, List.modifyHead_cons]
    | inner text =>
      refine ⟨[], texts.flatten :: others, ?_, ⟨[], List.nil_prefix, rfl⟩, List.forall_mem_cons.mpr ⟨?_, further⟩⟩
      · exact congrArg ([] :: ·) listed
      · exact ⟨texts, List.infix_cons start.isInfix, rfl⟩

/-- Scanning takes pieces apart again if no texts that follow each other spell an opening, and no
inner text a closing. -/
theorem scan_pieces {pieces : List Piece} (clean : ∀ text, Run pieces text → ¬ opening <:+: text)
    (plain : ∀ text, .inner text ∈ pieces → ¬ closing <:+: text) : scan (pieces.flatMap Piece.chars) = parted pieces := by
  obtain ⟨first, others, listed, ⟨texts, start, flat⟩, later⟩ := raws_parted pieces
  rw [← chars_parted]
  refine scan_chars ?_ fun inner member => ?_
  · rw [listed]
    exact List.forall_mem_cons.mpr ⟨clean first ⟨texts, start.isInfix, flat⟩, fun raw member => clean raw (later raw member)⟩
  · rw [inners_parted] at member
    obtain ⟨piece, there, shown⟩ := List.mem_filterMap.mp member
    cases piece with
    | raw text => cases shown
    | inner text =>
      cases shown
      exact plain _ there

/-- The piece that an item becomes: the item as it is if it is a text, and else what it reads as. -/
inductive Embeds (reads : Value → String → Prop) : Value → Piece → Prop
  | raw {value : Value} {text : String} (chars : value.chars? = some text) : Embeds reads value (.raw text.toList)
  | inner {value : Value} {text : String} (other : value.chars? = none) (reading : reads value text) : Embeds reads value (.inner text.toList)

theorem Embeds.imp {reads others : Value → String → Prop} {value : Value} (implies : ∀ text, reads value text → others value text)
    {piece : Piece} (embeds : Embeds reads value piece) : Embeds others value piece := by
  cases embeds with
  | raw chars => exact .raw chars
  | inner other reading => exact .inner other (implies _ reading)

end Interpolated

namespace Build

open Interpolated (Piece Run Embeds opening closing scan parted scan_pieces)

theorem toList_interpolation (text : String) : (interpolation text).toList = (Piece.inner text.toList).chars := by
  simp [interpolation, Piece.chars, opening, closing]

theorem run_interpolated {workspace : Workspace} (sound : workspace.Sound) {value : Value} {text : String}
    (adds : workspace.store.Adds value text) :
    ∃ after, (interpolated value).run workspace = (.ok (interpolation text), after) ∧ after.Sound ∧
      Store.Keeps [] workspace.store after.store := by
  obtain ⟨identity, after, result, soundAfter, keeps, -, reads⟩ := reads_compose sound (.cons adds .nil) false
  rw [join_singleton] at reads
  refine ⟨after, ?_, soundAfter, keeps⟩
  rw [interpolated, run_bind_ok result, run_bind_ok (run_ask reads), run_pure]

/-- Each item is put in as its piece. -/
theorem run_concatenation {items : List Value} {pieces : List Piece} {workspace : Workspace} (sound : workspace.Sound)
    (embeds : List.Forall₂ (Embeds workspace.store.Adds) items pieces) :
    ∃ text after, (concatenation items).run workspace = (.ok text, after) ∧ text.toList = pieces.flatMap Piece.chars := by
  induction items generalizing pieces workspace with
  | nil =>
    cases embeds
    exact ⟨"", workspace, rfl, rfl⟩
  | cons item items ih =>
    obtain _ | ⟨first, rest⟩ := embeds
    unfold concatenation
    cases first with
    | @raw given chars =>
      obtain ⟨text, after, result, spelled⟩ := ih sound rest
      refine ⟨given ++ text, after, ?_, ?_⟩
      · rw [chars, run_bind_ok (run_pure _ _), run_bind_ok result, run_pure]
      · rw [String.toList_append, spelled]
        rfl
    | @inner read other adds =>
      obtain ⟨between, wrapped, soundBetween, keeps⟩ := run_interpolated sound adds
      have kept := rest.imp fun _ _ embeds => embeds.imp fun _ adds => Store.Adds.kept sound.objects keeps adds
      obtain ⟨text, after, result, spelled⟩ := ih soundBetween kept
      refine ⟨interpolation read ++ text, after, ?_, ?_⟩
      · rw [other, run_bind_ok wrapped, run_bind_ok result, run_pure]
      · rw [String.toList_append, spelled, toList_interpolation]
        rfl

/-- The text of an expression that is made of the value alone. -/
def ReadsAs (workspace : Workspace) (value : Value) (text : String) : Prop := written (applyBuiltin .create [value]) workspace = .ok text

theorem embeds_added {workspace : Workspace} (sound : workspace.Sound) {items : List Value} (within : AllWithin workspace.store.Has items)
    {pieces : List Piece} (embeds : List.Forall₂ (Embeds (ReadsAs workspace)) items pieces) :
    List.Forall₂ (Embeds workspace.store.Adds) items pieces := by
  induction embeds with
  | nil => exact .nil
  | cons first _ ih =>
    obtain ⟨here, later⟩ := Value.allWithin_cons.mp within
    exact .cons (first.imp fun _ reads => ⟨here, (written_create sound here).symm.trans reads⟩) (ih later)

/-- Scanned again, the text that is put together shows an interpolation for each item that is no text,
in order and with the item's own text inside, and around them the texts as they were given. -/
theorem scan_concat {workspace : Workspace} (sound : workspace.Sound) {items : List Value} (several : 2 ≤ items.length)
    (within : AllWithin workspace.store.Has items) {pieces : List Piece} (embeds : List.Forall₂ (Embeds (ReadsAs workspace)) items pieces)
    (clean : ∀ text, Run pieces text → ¬ opening <:+: text) (plain : ∀ text, .inner text ∈ pieces → ¬ closing <:+: text) :
    ∃ text after, (applyBuiltin .concat items).run workspace = (.ok (.text text), after) ∧ scan text.toList = parted pieces := by
  obtain ⟨text, after, result, spelled⟩ := run_concatenation sound (embeds_added sound within embeds)
  refine ⟨text, after, ?_, spelled ▸ scan_pieces clean plain⟩
  match items, several with
  | first :: second :: rest, _ =>
    have joined : applyBuiltin .concat (first :: second :: rest) = (do return .text (← concatenation (first :: second :: rest))) := rfl
    rw [joined, run_bind_ok result, run_pure]

/-- Parts of an opening and of a closing beside interpolations, one of which is empty. -/
def scatteredBraces : List Value := [.text "$", .null, .text "\x7b", .expression 1, .text "\x7d"]

def scatteredPieces : List Piece :=
  [.raw "$".toList, .inner "".toList, .raw "\x7b".toList, .inner "success()".toList, .raw "\x7d".toList]

theorem scatteredPieces_clean {text : List Char} (run : Run scatteredPieces text) : ¬ opening <:+: text := by
  obtain ⟨texts, inside, rfl⟩ := run
  have few : texts.Sublist [['$'], ['{'], ['}']] := by
    have kept := inside.sublist.filterMap fun | Piece.raw text => some text | .inner _ => none
    simpa [List.filterMap_map, Function.comp_def, scatteredPieces] using kept
  have each : ∀ texts ∈ [['$'], ['{'], ['}']].sublists, ¬ ['$', '{', '{'] <:+: texts.flatten := by decide
  exact each texts (List.mem_sublists.mpr few)

theorem scatteredPieces_plain {text : List Char} (member : .inner text ∈ scatteredPieces) : ¬ closing <:+: text := by
  have none : '}' ∉ text := by
    simp only [scatteredPieces, List.mem_cons, reduceCtorEq, Piece.inner.injEq, List.not_mem_nil, false_or, or_false] at member
    rcases member with same | same <;> rw [same] <;> decide
  exact fun closes => none (closes.subset List.mem_cons_self)

theorem scan_concat_scattered :
    comparedReference.Sound ∧ 2 ≤ scatteredBraces.length ∧ AllWithin comparedReference.store.Has scatteredBraces ∧
    List.Forall₂ (Embeds (ReadsAs comparedReference)) scatteredBraces scatteredPieces ∧
    (∀ text, Run scatteredPieces text → ¬ opening <:+: text) ∧ (∀ text, .inner text ∈ scatteredPieces → ¬ closing <:+: text) ∧
    ∃ text after, (applyBuiltin .concat scatteredBraces).run comparedReference = (.ok (.text text), after) ∧
      scan text.toList = ⟨[("$".toList, []), ("\x7b".toList, "success()".toList)], "\x7d".toList⟩ := by
  have several : 2 ≤ scatteredBraces.length := by decide
  have within : AllWithin comparedReference.store.Has scatteredBraces := by
    simp [scatteredBraces, within_expression, Store.Has, comparedReference]
  have embeds : List.Forall₂ (Embeds (ReadsAs comparedReference)) scatteredBraces scatteredPieces :=
    .cons (.raw rfl) (.cons (.inner rfl rfl) (.cons (.raw rfl) (.cons (.inner rfl rfl) (.cons (.raw rfl) .nil))))
  obtain ⟨text, after, result, scanned⟩ := scan_concat comparedReference_sound several within embeds
    (fun _ => scatteredPieces_clean) fun _ => scatteredPieces_plain
  refine ⟨comparedReference_sound, several, within, embeds, fun _ => scatteredPieces_clean, fun _ => scatteredPieces_plain,
    text, after, result, scanned.trans ?_⟩
  simp [scatteredPieces, parted, Interpolated.after]

end Build

end WorkflowCompiler
