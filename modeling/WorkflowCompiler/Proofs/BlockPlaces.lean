import WorkflowCompiler.Proofs.BlockMeaning
import WorkflowCompiler.Proofs.DocumentTokens

/-! Texts of several lines in a document. Wherever in a tree such a text stands under a key, the document has a literal block
for it: a head on the line of the key, and the lines of the text two further in than the mapping that the key is in. What
the document has around the block does not depend on the text. -/

namespace WorkflowCompiler.Yaml

def isNameChar (c : Char) : Bool := c.isAlphanum || c == '_' || c == '-'

/-- Names of letters, digits, underscores and hyphens. -/
def IsName (name : String) : Prop := name.toList ≠ [] ∧ ∀ c ∈ name.toList, isNameChar c = true

instance (name : String) : Decidable (IsName name) :=
  decidable_of_iff (name.toList ≠ [] ∧ name.toList.all isNameChar = true) (and_congr_right' List.all_eq_true)

/-- A place under a key in a tree of mappings and lists. -/
inductive Hole
  | entry (before : List (String × Tree)) (key : String) (after : List (String × Tree))
  | value (before : List (String × Tree)) (key : String) (inner : Hole) (after : List (String × Tree))
  | item (before : List Tree) (inner : Hole) (after : List Tree)

namespace Hole

/-- The tree with something in that place. -/
def fill : Hole → Tree → Tree
  | .entry before key after, tree => Tree.record (before ++ (key, tree) :: after)
  | .value before key inner after, tree => Tree.record (before ++ (key, inner.fill tree) :: after)
  | .item before inner after, tree => .list (before ++ inner.fill tree :: after)

/-- The key that the place is under. -/
def key : Hole → String
  | .entry _ key _ => key
  | .value _ _ inner _ => inner.key
  | .item _ inner _ => inner.key

/-- The keys of the mappings that the place is in. -/
def keys : Hole → List String
  | .entry before key after => (before ++ after).map Prod.fst ++ [key]
  | .value before key inner after => (before ++ after).map Prod.fst ++ key :: inner.keys
  | .item _ inner _ => inner.keys

end Hole

/-- A text that ends its last line. -/
def Broken (text : List Char) : Prop := ∃ before c, text = before ++ [c] ∧ isBreak c = true

/-- What a document has around a block: `lead` is what stands in front of the key on its line, `opening` what stands
between the two and the block. -/
structure Frame where
  above : List Char
  lead : List Char
  opening : List Char
  below : List Char

namespace Frame

def around (frame : Frame) (block : List Char) : List Char :=
  frame.above ++ (frame.lead ++ (frame.opening ++ (block ++ frame.below)))

/-- The frame as a part of a longer text. -/
def extend (frame : Frame) (above below : List Char) : Frame :=
  { frame with above := above ++ frame.above, below := frame.below ++ below }

/-- How a key opens its line, a long one the next line. -/
def Opens (frame : Frame) (key : String) : Prop :=
  (isShortKey (.text key) = true ∧
      (frame.opening = key.toList ++ [':', ' '] ∨ frame.opening = '\'' :: (key.toList ++ ['\'', ':', ' ']))) ∨
    (isShortKey (.text key) = false ∧ frame.opening = [':', ' '] ∧
      ∃ before, frame.above = before ++ '?' :: ' ' :: glued (frame.lead.length + 2) (.text key))

/-- A frame for the block under a key: the line of the key starts behind whole lines, with the marks of what the mapping
is in, and what stands below does not belong to the block. -/
structure Fits (frame : Frame) (key : String) : Prop where
  above : frame.above = [] ∨ Broken frame.above
  lead : ∀ c ∈ frame.lead, c ∈ [' ', '-', ':']
  opens : frame.Opens key
  below : Outside (frame.lead.length + 2) frame.below

end Frame

/-- The block for a text in a mapping whose keys stand at `indent`. -/
def blockAt (indent : Nat) (text : List Char) : List Char := literalHeader text ++ '\n' :: literalLines (indent + 2) true text

section

variable {text line rest before above below block : List Char} {key : String} {tree : Tree} {indent column margin : Nat} {c : Char}

theorem isNameChar_code (named : isNameChar c = true) : 0x2D ≤ c.toNat ∧ c.toNat ≤ 0x7A := by
  unfold isNameChar Char.isAlphanum Char.isAlpha Char.isUpper Char.isLower Char.isDigit at named
  simp only [Bool.or_eq_true, Bool.and_eq_true, decide_eq_true_eq, beq_iff_eq, ge_iff_le, UInt32.le_iff_toNat_le] at named
  rcases named with (((⟨lower, upper⟩ | ⟨lower, upper⟩) | ⟨lower, upper⟩) | rfl) | rfl
  · exact ⟨le_trans (by decide) lower, le_trans upper (by decide)⟩
  · exact ⟨le_trans (by decide) lower, le_trans upper (by decide)⟩
  · exact ⟨le_trans (by decide) lower, le_trans upper (by decide)⟩
  · decide
  · decide

theorem isNameChar_cases (named : isNameChar c = true) :
    isShown c = true ∧ isBreak c = false ∧ c ≠ ' ' ∧ c ≠ '\'' ∧ c ≠ '\n' := by
  obtain ⟨low, high⟩ := isNameChar_code named
  have other (d : Char) (outside : d.toNat < 0x2D ∨ 0x7A < d.toNat) : c ≠ d := by
    rintro rfl
    omega
  refine ⟨?_, ?_, other ' ' (by decide), other '\'' (by decide), other '\n' (by decide)⟩
  · simp only [isShown, Bool.and_eq_true, Bool.or_eq_true, decide_eq_true_eq, bne_iff_ne]
    omega
  · simp [isBreak, other '\n' (by decide), other '\x85' (by decide), other '\u2028' (by decide), other '\u2029' (by decide)]

theorem hasPair_of_none {first second : Char → Bool} (none : ∀ c ∈ text, first c = false) : hasPair first second text = false := by
  induction text with
  | nil => rfl
  | cons c text ih =>
    obtain ⟨here, later⟩ := List.forall_mem_cons.mp none
    cases text with
    | nil => rfl
    | cons d text => rw [hasPair, here, ih later]; rfl

/-- A short name is written as it is or in single quotes. -/
theorem shortKey_name (named : IsName key) (indent : Nat) :
    shortKey indent (.text key) = key.toList ∨ shortKey indent (.text key) = '\'' :: (key.toList ++ ['\'']) := by
  obtain ⟨filled, each⟩ := named
  have unbroken : ∀ c ∈ key.toList, isBreak c = false := fun c member => (isNameChar_cases (each c member)).2.1
  have solid : ∀ c ∈ key.toList, c ≠ ' ' := fun c member => (isNameChar_cases (each c member)).2.2.1
  have unquoted : key.toList.contains '\'' = false := by
    rw [← Bool.not_eq_true, List.contains_iff_mem]
    exact fun member => (isNameChar_cases (each _ member)).2.2.2.1 rfl
  have flat : key.toList.contains '\n' = false := by
    rw [← Bool.not_eq_true, List.contains_iff_mem]
    exact fun member => (isNameChar_cases (each _ member)).2.2.2.2 rfl
  have single : canBeSingleQuoted key.toList = true := by
    have special : key.toList.any isSpecial = false := by
      refine List.any_eq_false.mpr fun c member => ?_
      simp [isSpecial, (isNameChar_cases (each c member)).1]
    have spaceless : ∀ c ∈ key.toList, isSpace c = false := fun c member => beq_eq_false_iff_ne.mpr (solid c member)
    rw [canBeSingleQuoted, special, hasPair_of_none unbroken, hasPair_of_none spaceless]
    rfl
  have style : keyStyle key = .plain ∨ keyStyle key = .singleQuoted := by
    unfold keyStyle
    simp only [unquoted, flat, single, Bool.or_self, Bool.false_eq_true, if_false, if_true]
    split
    · exact .inl rfl
    · exact .inr rfl
  show styledText (keyStyle key) ⟨indent, some (indent + 2), false⟩ key.toList = _ ∨ styledText (keyStyle key) _ key.toList = _
  obtain plain | quoted := style
  · left
    obtain ⟨c, rest, same⟩ := List.exists_cons_of_ne_nil filled
    rw [plain, styledText]
    rw [same] at solid ⊢
    obtain ⟨ink, solid⟩ := List.forall_mem_cons.mp solid
    have run : plainFrom ⟨indent, some (indent + 2), false⟩ (indent + 1) false (rest ++ []) = rest ++ [] := plainFrom_run _ _ solid
    rw [List.append_nil] at run
    rw [plainFrom, run]
    simp [ink]
  · right
    rw [quoted, styledText, singleQuotedFrom_unfolded rfl unbroken]
    rfl

theorem Broken.append_left (broken : Broken text) (before : List Char) : Broken (before ++ text) := by
  obtain ⟨front, c, rfl, ends⟩ := broken
  exact ⟨before ++ front, c, (List.append_assoc _ _ _).symm, ends⟩

theorem broken_feed (before : List Char) : Broken (before ++ ['\n']) := ⟨before, '\n', rfl, rfl⟩

theorem broken_literalLines (margin : Nat) (starts : Bool) (text : List Char) :
    (starts = true ∧ text = []) ∨ Broken (literalLines margin starts text) := by
  induction text generalizing starts with
  | nil =>
    cases starts
    · exact .inr (broken_feed [])
    · exact .inl ⟨rfl, rfl⟩
  | cons c text ih =>
    right
    rw [literalLines]
    split
    · next ends =>
      obtain ⟨-, rfl⟩ | broken := ih true
      · exact ⟨[], c, rfl, ends⟩
      · exact broken.append_left [c]
    · obtain ⟨impossible, -⟩ | broken := ih false
      · cases impossible
      · exact (broken.append_left [c]).append_left _

theorem broken_scalarLine (place : Place) (text : String) (style : Style) : Broken (scalarLine place text style) := by
  cases style with
  | literal =>
    rw [scalarLine, styledText]
    simp only [beq_self_eq_true, if_true, List.append_nil]
    obtain ⟨-, none⟩ | broken := broken_literalLines place.left true text.toList
    · rw [none]
      exact broken_feed _
    · exact (broken.append_left ['\n']).append_left _
  | _ => exact broken_feed _

/-- The lines of an item of a sequence. -/
def itemLines (indent : Nat) (item : Tree) : List Char := spaces indent ++ "  - ".toList ++ glued (indent + 4) item

theorem sequenceLines_eq (indent : Nat) (items : List Tree) : sequenceLines indent items = items.flatMap (itemLines indent) := by
  induction items with
  | nil => rfl
  | cons item rest ih => rw [sequenceLines, ih, List.flatMap_cons, itemLines]

theorem mappingLines_eq (indent : Nat) (entries : List (Tree × Tree)) : mappingLines indent entries = entries.flatMap (entryLines indent) := by
  induction entries with
  | nil => rfl
  | cons entry rest ih => rw [mappingLines, ih, List.flatMap_cons]

/-- Whole lines, the first of them at that indentation. -/
def LinesAt (indent : Nat) (lines : List Char) : Prop := ∃ body, lines = spaces indent ++ body ∧ Broken body

namespace LinesAt

variable {lines more : List Char}

theorem split (whole : LinesAt indent lines) : lines = spaces indent ++ lines.drop indent := by
  obtain ⟨body, rfl, -⟩ := whole
  rw [List.drop_left' (length_spaces indent)]

theorem broken_drop (whole : LinesAt indent lines) : Broken (lines.drop indent) := by
  obtain ⟨body, rfl, broken⟩ := whole
  rwa [List.drop_left' (length_spaces indent)]

theorem broken (whole : LinesAt indent lines) : Broken lines := whole.split ▸ whole.broken_drop.append_left (spaces indent)

theorem drop_append (whole : LinesAt indent lines) (more : List Char) : (lines ++ more).drop indent = lines.drop indent ++ more := by
  obtain ⟨body, rfl, -⟩ := whole
  rw [List.append_assoc, List.drop_left' (length_spaces indent), List.drop_left' (length_spaces indent)]

theorem append (whole : LinesAt indent lines) (broken : Broken more) : LinesAt indent (lines ++ more) := by
  obtain ⟨body, rfl, -⟩ := whole
  exact ⟨body ++ more, List.append_assoc _ _ _, broken.append_left body⟩

end LinesAt

theorem linesAt_item {item : Tree} (broken : Broken (glued (indent + 4) item)) : LinesAt indent (itemLines indent item) :=
  ⟨_, List.append_assoc _ _ _, broken.append_left "  - ".toList⟩

theorem broken_members (indent : Nat) (member : Tree) (rest : List Tree) : Broken (memberLines indent (member :: rest)) := by
  rw [memberLines]
  cases rest with
  | nil =>
    rw [memberLines, List.append_nil]
    refine Broken.append_left ?_ (spaces indent)
    split
    · exact (broken_feed [':']).append_left _
    · exact (broken_feed [':']).append_left _
  | cons next rest => exact (broken_members indent next rest).append_left _

mutual

theorem broken_after (indent column : Nat) : (tree : Tree) → Broken (afterColon indent column tree)
  | .null => broken_feed []
  | .list [] => broken_feed [' ', '[', ']']
  | .list (item :: rest) => (linesAt_items indent (item :: rest) (List.cons_ne_nil _ _)).broken.append_left ['\n']
  | .map [] => broken_feed [' ', '\x7b', '\x7d']
  | .map (entry :: rest) => (linesAt_entries (indent + 2) (entry :: rest) (List.cons_ne_nil _ _)).broken.append_left ['\n']
  | .bool _ => (broken_scalarLine _ _ _).append_left [' ']
  | .int _ => (broken_scalarLine _ _ _).append_left [' ']
  | .float _ => (broken_scalarLine _ _ _).append_left [' ']
  | .text _ => (broken_scalarLine _ _ _).append_left [' ']
  | .stamp _ => (broken_scalarLine _ _ _).append_left [' ']
  | .bytes _ => (broken_scalarLine _ _ _).append_left (' ' :: "!!binary ".toList)
  | .set [] => broken_feed " !!set \x7b\x7d".toList
  | .set (member :: rest) => (broken_members (indent + 2) member rest).append_left (" !!set".toList ++ ['\n'])

theorem broken_glued (indent : Nat) : (tree : Tree) → Broken (glued indent tree)
  | .null => broken_feed []
  | .list [] => broken_feed ['[', ']']
  | .list (item :: rest) => (linesAt_items indent (item :: rest) (List.cons_ne_nil _ _)).broken_drop
  | .map [] => broken_feed ['\x7b', '\x7d']
  | .map (entry :: rest) => (linesAt_entries indent (entry :: rest) (List.cons_ne_nil _ _)).broken_drop
  | .bool _ => broken_scalarLine _ _ _
  | .int _ => broken_scalarLine _ _ _
  | .float _ => broken_scalarLine _ _ _
  | .text _ => broken_scalarLine _ _ _
  | .stamp _ => broken_scalarLine _ _ _
  | .bytes _ => (broken_scalarLine _ _ _).append_left "!!binary ".toList
  | .set [] => broken_feed "!!set \x7b\x7d".toList
  | .set (member :: rest) => (broken_members indent member rest).append_left ("!!set".toList ++ ['\n'])

theorem linesAt_items (indent : Nat) : (items : List Tree) → items ≠ [] → LinesAt indent (sequenceLines indent items)
  | [], filled => absurd rfl filled
  | item :: rest, _ => by
    have first : LinesAt indent (itemLines indent item) := linesAt_item (broken_glued (indent + 4) item)
    have later := linesAt_items indent rest
    rw [sequenceLines_eq, List.flatMap_cons, ← sequenceLines_eq]
    cases rest with
    | nil => simpa [sequenceLines] using first
    | cons next rest => exact first.append (later (List.cons_ne_nil next rest)).broken

theorem linesAt_entries (indent : Nat) : (entries : List (Tree × Tree)) → entries ≠ [] → LinesAt indent (mappingLines indent entries)
  | [], filled => absurd rfl filled
  | entry :: rest, _ => by
    have first := linesAt_entry indent entry
    have later := linesAt_entries indent rest
    rw [mappingLines]
    cases rest with
    | nil => simpa [mappingLines] using first
    | cons next rest => exact first.append (later (List.cons_ne_nil next rest)).broken

theorem linesAt_entry (indent : Nat) : (entry : Tree × Tree) → LinesAt indent (entryLines indent entry)
  | (key, value) => by
    cases short : isShortKey key with
    | true =>
      rw [Scan.entryLines_short short]
      exact ⟨_, List.append_assoc _ _ _, ((broken_after indent _ value).append_left [':']).append_left _⟩
    | false =>
      obtain ⟨colon, ends, written⟩ : ∃ colon, _ ∧ entryLines indent (key, value) = _ := Scan.entryLines_long short
      have broken : Broken colon := by
        obtain rfl | ⟨-, rfl⟩ := ends
        · exact (broken_glued (indent + 2) value).append_left [':', ' ']
        · exact broken_feed [':']
      exact ⟨_, written, ((broken.append_left (spaces indent)).append_left _).append_left ['?', ' ']⟩

end

theorem linesAt_flatMap {each : α → List Char} (linesAt : ∀ item, LinesAt indent (each item)) {items : List α} (filled : items ≠ []) :
    LinesAt indent (items.flatMap each) := by
  induction items with
  | nil => exact absurd rfl filled
  | cons item rest ih =>
    rw [List.flatMap_cons]
    cases rest with
    | nil => simpa using linesAt item
    | cons next rest => exact (linesAt item).append (ih (List.cons_ne_nil next rest)).broken

/-- What stands in front of the line of one item among others. The first line is indented by `start`. -/
theorem exists_lines {each : α → List Char} (linesAt : ∀ item, LinesAt indent (each item)) (before after : List α) {start : List Char}
    (placed : start.length = indent) (marks : ∀ c ∈ start, c ∈ [' ', '-', ':']) :
    ∃ above lead, (above = [] ∨ Broken above) ∧ lead.length = indent ∧ (∀ c ∈ lead, c ∈ [' ', '-', ':']) ∧
      ∀ item, start ++ ((before ++ item :: after).flatMap each).drop indent =
        above ++ (lead ++ ((each item).drop indent ++ after.flatMap each)) := by
  cases before with
  | nil =>
    refine ⟨[], start, .inl rfl, placed, marks, fun item => ?_⟩
    rw [List.nil_append, List.flatMap_cons, (linesAt item).drop_append]
    rfl
  | cons first rest =>
    have whole : LinesAt indent ((first :: rest).flatMap each) := linesAt_flatMap linesAt (List.cons_ne_nil first rest)
    refine ⟨start ++ ((first :: rest).flatMap each).drop indent, spaces indent, .inr (whole.broken_drop.append_left start),
      length_spaces indent, fun c member => by simp [eq_of_mem_spaces member], fun item => ?_⟩
    have one : (item :: after).flatMap each = spaces indent ++ ((each item).drop indent ++ after.flatMap each) := by
      rw [List.flatMap_cons, ← List.append_assoc, ← (linesAt item).split]
    rw [List.flatMap_append, whole.drop_append, one]
    simp only [List.append_assoc]

def fieldLines (indent : Nat) (field : String × Tree) : List Char := entryLines indent (.text field.1, field.2)

theorem linesAt_field (indent : Nat) (field : String × Tree) : LinesAt indent (fieldLines indent field) := linesAt_entry indent _

theorem mappingLines_record (indent : Nat) (fields : List (String × Tree)) :
    mappingLines indent (fields.map fun field => (.text field.1, field.2)) = fields.flatMap (fieldLines indent) := by
  rw [mappingLines_eq, List.flatMap_map]
  rfl

theorem glued_record {fields : List (String × Tree)} (filled : fields ≠ []) :
    glued indent (Tree.record fields) = (fields.flatMap (fieldLines indent)).drop indent := by
  obtain ⟨field, rest, rfl⟩ := List.exists_cons_of_ne_nil filled
  rw [← mappingLines_record]
  rfl

theorem glued_list {items : List Tree} (filled : items ≠ []) :
    glued indent (.list items) = (items.flatMap (itemLines indent)).drop indent := by
  obtain ⟨item, rest, rfl⟩ := List.exists_cons_of_ne_nil filled
  rw [← sequenceLines_eq]
  rfl

theorem outside_fields {fields : List (String × Tree)} (named : ∀ field ∈ fields, IsName field.1) (inside : indent < margin) :
    Outside margin (fields.flatMap (fieldLines indent)) := by
  cases fields with
  | nil => exact .inl rfl
  | cons field rest =>
    have name := named field List.mem_cons_self
    obtain ⟨c, more, same, ink, other⟩ : ∃ c more, fieldLines indent field = spaces indent ++ c :: more ∧ c ≠ ' ' ∧ c ≠ '\n' := by
      cases short : isShortKey (.text field.1) with
      | true =>
        rw [fieldLines, Scan.entryLines_short short]
        obtain same | same := shortKey_name name indent
        · obtain ⟨c, more, chars⟩ := List.exists_cons_of_ne_nil name.1
          have first := isNameChar_cases (name.2 c (chars ▸ List.mem_cons_self))
          rw [same, chars]
          exact ⟨c, _, List.append_assoc _ _ _, first.2.2.1, first.2.2.2.2⟩
        · rw [same]
          exact ⟨'\'', _, List.append_assoc _ _ _, by decide, by decide⟩
      | false =>
        obtain ⟨colon, -, written⟩ : ∃ colon, _ ∧ entryLines indent (.text field.1, field.2) = _ := Scan.entryLines_long short
        exact ⟨'?', _, written, by decide, by decide⟩
    rw [List.flatMap_cons, same, List.append_assoc]
    exact .inr ⟨indent, c, _, rfl, inside, ink, other⟩

theorem outside_items (items : List Tree) (inside : indent + 2 < margin) : Outside margin (items.flatMap (itemLines indent)) := by
  cases items with
  | nil => exact .inl rfl
  | cons item rest =>
    rw [List.flatMap_cons, itemLines, show "  - ".toList = spaces 2 ++ ['-', ' '] from rfl, ← List.append_assoc, ← spaces_add]
    simp only [List.append_assoc]
    exact .inr ⟨indent + 2, '-', _, rfl, inside, by decide, by decide⟩

theorem Outside.append {more : List Char} (outside : Outside margin below) (further : Outside margin more) : Outside margin (below ++ more) := by
  obtain rfl | ⟨count, c, rest, rfl, out, ink, other⟩ := outside
  · exact further
  · exact .inr ⟨count, c, rest ++ more, by simp, out, ink, other⟩

theorem Outside.wider {further : Nat} (outside : Outside margin below) (wider : margin ≤ further) : Outside further below :=
  outside.imp_right fun ⟨count, c, rest, same, out, other⟩ => ⟨count, c, rest, same, Nat.lt_of_lt_of_le out wider, other⟩

theorem marks_spaces (count : Nat) : ∀ c ∈ spaces count, c ∈ [' ', '-', ':'] := fun c member => by simp [eq_of_mem_spaces member]

namespace Frame

variable {frame : Frame}

theorem around_extend (frame : Frame) (above below block : List Char) :
    (frame.extend above below).around block = above ++ (frame.around block ++ below) := by
  simp [extend, around]

theorem Fits.extend (fits : frame.Fits key) (starts : above = [] ∨ Broken above) (outside : Outside (frame.lead.length + 2) below) :
    (frame.extend above below).Fits key where
  above := by
    obtain none | broken := fits.above
    · rw [Frame.extend, none, List.append_nil]
      exact starts
    · exact .inr (broken.append_left above)
  lead := fits.lead
  opens := fits.opens.imp_right fun ⟨long, opening, before, same⟩ =>
    ⟨long, opening, above ++ before, by rw [Frame.extend, same, List.append_assoc]⟩
  below := fits.below.append outside

end Frame

theorem scalarLine_block {text : String} (several : '\n' ∈ text.toList) {place : Place} (left : place.left = indent + 2) :
    scalarLine place text (valueStyle text) = blockAt indent text.toList := by
  have literal : valueStyle text = .literal := if_pos (List.contains_iff_mem.mpr several)
  rw [literal, scalarLine, styledText, left, blockAt]
  simp

theorem afterColon_block {text : String} (several : '\n' ∈ text.toList) (indent column : Nat) :
    afterColon indent column (.text text) = ' ' :: blockAt indent text.toList :=
  congrArg (List.cons ' ') (scalarLine_block several rfl)

theorem glued_block {text : String} (several : '\n' ∈ text.toList) (indent : Nat) :
    glued (indent + 2) (.text text) = blockAt indent text.toList := scalarLine_block several rfl

theorem drop_field_short (short : isShortKey (.text key) = true) (indent : Nat) (tree : Tree) :
    (fieldLines indent (key, tree)).drop indent =
      shortKey indent (.text key) ++ ':' :: afterColon indent (indent + (shortKey indent (.text key)).length + 1) tree := by
  rw [fieldLines, Scan.entryLines_short short, List.append_assoc, List.drop_left' (length_spaces indent)]

/-- A long key stands on lines of its own. -/
theorem drop_field_long (long : isShortKey (.text key) = false) (indent : Nat) (written : tree ≠ .null) :
    (fieldLines indent (key, tree)).drop indent =
      '?' :: ' ' :: (glued (indent + 2) (.text key) ++ (spaces indent ++ ':' :: ' ' :: glued (indent + 2) tree)) := by
  obtain ⟨colon, ends, whole⟩ : ∃ colon, (colon = ':' :: ' ' :: glued (indent + 2) tree ∨ _) ∧ entryLines indent (.text key, tree) = _ :=
    Scan.entryLines_long long
  rw [fieldLines, whole, ends.resolve_right fun null => written null.1, List.drop_left' (length_spaces indent)]

theorem opening_name (name : IsName key) (indent : Nat) :
    shortKey indent (.text key) ++ [':', ' '] = key.toList ++ [':', ' '] ∨
      shortKey indent (.text key) ++ [':', ' '] = '\'' :: (key.toList ++ ['\'', ':', ' ']) := by
  obtain same | same := shortKey_name name indent
  · exact .inl (by rw [same])
  · exact .inr (by rw [same]; simp)

/-- A mapping or a list behind a key starts on the next line. -/
theorem exists_afterColon (hole : Hole) (indent : Nat) :
    ∃ place, indent ≤ place ∧ ∀ column tree, afterColon indent column (hole.fill tree) = '\n' :: (spaces place ++ glued place (hole.fill tree)) := by
  have record (before : List (String × Tree)) (field : String × Tree) (after : List (String × Tree)) (column : Nat) :
      afterColon indent column (Tree.record (before ++ field :: after)) =
        '\n' :: (spaces (indent + 2) ++ glued (indent + 2) (Tree.record (before ++ field :: after))) := by
    have whole : LinesAt (indent + 2) ((before ++ field :: after).flatMap (fieldLines (indent + 2))) :=
      linesAt_flatMap (linesAt_field _) (by simp)
    rw [glued_record (by simp), ← whole.split, ← mappingLines_record, Tree.record, afterColon.eq_def]
    simp
  cases hole with
  | entry before key after => exact ⟨indent + 2, by omega, fun column tree => record before (key, tree) after column⟩
  | value before key inner after => exact ⟨indent + 2, by omega, fun column tree => record before (key, inner.fill tree) after column⟩
  | item before inner after =>
    refine ⟨indent, le_refl indent, fun column tree => ?_⟩
    have whole : LinesAt indent ((before ++ inner.fill tree :: after).flatMap (itemLines indent)) :=
      linesAt_flatMap (fun item => linesAt_item (broken_glued _ item)) (by simp)
    rw [Hole.fill, glued_list (by simp), ← whole.split, ← sequenceLines_eq, afterColon.eq_def]
    simp

theorem fill_ne_null (hole : Hole) (tree : Tree) : hole.fill tree ≠ .null := by
  cases hole <;> exact nofun

/-- A place under a key has a frame, which does not depend on what text of several lines is put there. The tree starts
behind `start`. -/
def Framed (start : List Char) (hole : Hole) : Prop :=
  ∃ frame : Frame, frame.Fits hole.key ∧ start.length ≤ frame.lead.length ∧
    ∀ text : String, '\n' ∈ text.toList →
      start ++ glued start.length (hole.fill (.text text)) = frame.around (blockAt frame.lead.length text.toList)

/-- What is framed inside of a tree is framed in the tree. -/
theorem Framed.extend {start inside : List Char} {hole inner : Hole} (framed : Framed inside inner) (same : hole.key = inner.key)
    (starts : above = [] ∨ Broken above) (deeper : start.length ≤ inside.length) (outside : Outside (inside.length + 2) below)
    (written : ∀ tree, start ++ glued start.length (hole.fill tree) = above ++ ((inside ++ glued inside.length (inner.fill tree)) ++ below)) :
    Framed start hole := by
  obtain ⟨frame, fits, further, around⟩ := framed
  refine ⟨frame.extend above below, same ▸ fits.extend starts (outside.wider (by omega)), le_trans deeper further, fun text several => ?_⟩
  rw [written, around text several, Frame.around_extend]
  rfl

theorem framed_entry {start : List Char} (marks : ∀ c ∈ start, c ∈ [' ', '-', ':']) (before : List (String × Tree))
    {after : List (String × Tree)} (name : IsName key) (others : ∀ field ∈ after, IsName field.1) : Framed start (.entry before key after) := by
  obtain ⟨above, lead, starts, placed, led, written⟩ := exists_lines (linesAt_field start.length) before after rfl marks
  have outside : Outside (start.length + 2) (after.flatMap (fieldLines start.length)) := outside_fields others (by omega)
  cases short : isShortKey (.text key) with
  | true =>
    refine ⟨⟨above, lead, shortKey start.length (.text key) ++ [':', ' '], after.flatMap (fieldLines start.length)⟩,
      ⟨starts, led, .inl ⟨short, opening_name name _⟩, by rw [placed]; exact outside⟩, by rw [placed], fun text several => ?_⟩
    rw [Hole.fill, glued_record (by simp), written, drop_field_short short, afterColon_block several, placed]
    simp [Frame.around]
  | false =>
    -- the key has a line of its own, and the colon starts the line of the head
    have broken : Broken (above ++ (lead ++ '?' :: ' ' :: glued (start.length + 2) (.text key))) :=
      (((broken_glued _ _).append_left ['?', ' ']).append_left lead).append_left above
    refine ⟨⟨above ++ (lead ++ '?' :: ' ' :: glued (start.length + 2) (.text key)), spaces start.length, [':', ' '],
      after.flatMap (fieldLines start.length)⟩, ⟨.inr broken, marks_spaces _, .inr ⟨short, rfl, above ++ lead, ?_⟩, ?_⟩, ?_, fun text several => ?_⟩
    · rw [length_spaces, List.append_assoc]
      rfl
    · rw [length_spaces]
      exact outside
    · rw [length_spaces]
    · rw [Hole.fill, glued_record (by simp), written, drop_field_long short _ (by simp), glued_block several, length_spaces]
      simp [Frame.around]

theorem framed_value {start : List Char} (marks : ∀ c ∈ start, c ∈ [' ', '-', ':']) (before : List (String × Tree)) (key : String)
    {inner : Hole} {after : List (String × Tree)} (others : ∀ field ∈ after, IsName field.1)
    (framed : ∀ {start : List Char}, (∀ c ∈ start, c ∈ [' ', '-', ':']) → Framed start inner) : Framed start (.value before key inner after) := by
  obtain ⟨above, lead, starts, placed, led, written⟩ := exists_lines (linesAt_field start.length) before after rfl marks
  have outside : Outside (start.length + 2) (after.flatMap (fieldLines start.length)) := outside_fields others (by omega)
  cases short : isShortKey (.text key) with
  | true =>
    obtain ⟨place, deeper, next⟩ := exists_afterColon inner start.length
    have broken : Broken (above ++ (lead ++ (shortKey start.length (.text key) ++ [':', '\n']))) :=
      (((broken_feed [':']).append_left _).append_left lead).append_left above
    have placed := length_spaces place
    refine (framed (marks_spaces place)).extend rfl (.inr broken) (by omega) (outside.wider (by omega)) fun tree => ?_
    rw [Hole.fill, glued_record (by simp), written, drop_field_short short, next, placed]
    simp
  | false =>
    have broken : Broken (above ++ (lead ++ '?' :: ' ' :: glued (start.length + 2) (.text key))) :=
      (((broken_glued _ _).append_left ['?', ' ']).append_left lead).append_left above
    have inside : (spaces start.length ++ [':', ' ']).length = start.length + 2 := by simp
    have colon : ∀ c ∈ spaces start.length ++ [':', ' '], c ∈ [' ', '-', ':'] := List.forall_mem_append.mpr ⟨marks_spaces _, by simp⟩
    refine (framed colon).extend rfl (.inr broken) (by omega) (outside.wider (by omega)) fun tree => ?_
    rw [Hole.fill, glued_record (by simp), written, drop_field_long short _ (fill_ne_null inner tree), inside]
    simp

theorem framed_item {start : List Char} (marks : ∀ c ∈ start, c ∈ [' ', '-', ':']) (before after : List Tree) {inner : Hole}
    (framed : ∀ {start : List Char}, (∀ c ∈ start, c ∈ [' ', '-', ':']) → Framed start inner) : Framed start (.item before inner after) := by
  have lines : ∀ item, LinesAt start.length (itemLines start.length item) := fun item => linesAt_item (broken_glued _ item)
  obtain ⟨above, lead, starts, placed, led, written⟩ := exists_lines lines before after rfl marks
  have inside : (lead ++ "  - ".toList).length = start.length + 4 := by
    rw [List.length_append, placed]
    rfl
  have dash : ∀ c ∈ lead ++ "  - ".toList, c ∈ [' ', '-', ':'] := by
    have same : "  - ".toList = [' ', ' ', '-', ' '] := rfl
    exact List.forall_mem_append.mpr ⟨led, by simp [same]⟩
  have outside : Outside (start.length + 3) (after.flatMap (itemLines start.length)) := outside_items after (by omega)
  refine (framed dash).extend rfl starts (by omega) (outside.wider (by omega)) fun tree => ?_
  rw [Hole.fill, glued_list (by simp), written, inside, itemLines, List.append_assoc (spaces _), List.drop_left' (length_spaces _)]
  simp only [List.append_assoc]

theorem framed (hole : Hole) (named : ∀ name ∈ hole.keys, IsName name) {start : List Char} (marks : ∀ c ∈ start, c ∈ [' ', '-', ':']) :
    Framed start hole := by
  induction hole generalizing start with
  | entry before key after =>
    exact framed_entry marks before (named key (by simp [Hole.keys])) fun field member => named field.1 (by simp [Hole.keys, List.mem_map_of_mem member])
  | value before key inner after ih =>
    exact framed_value marks before key (fun field member => named field.1 (by simp [Hole.keys, List.mem_map_of_mem member]))
      (ih fun name member => named name (by simp [Hole.keys, member]))
  | item before inner after ih => exact framed_item marks before after (ih named)

theorem onlyFeeds_of_printable (printable : ∀ c ∈ text, c = '\n' ∨ ' ' ≤ c ∧ c ≤ '~') : OnlyFeeds text := by
  intro c member
  refine (printable c member).imp_right fun ⟨low, high⟩ => ?_
  have low : 0x20 ≤ c.toNat := low
  have high : c.toNat ≤ 0x7E := high
  have other (d : Char) (outside : d.toNat < 0x20 ∨ 0x7E < d.toNat) : c ≠ d := by
    rintro rfl
    omega
  simp [isBreak, other '\n' (by decide), other '\x85' (by decide), other '\u2028' (by decide), other '\u2029' (by decide)]

/-- The document of a tree with something in it, up to the mark that ends it. -/
theorem document_fill (hole : Hole) (tree : Tree) :
    ∃ mark, (mark = [] ∨ mark = "...\n".toList) ∧ (document (hole.fill tree)).toList = glued 0 (hole.fill tree) ++ mark := by
  refine ⟨if isPlainRoot (hole.fill tree) || endsOpen (hole.fill tree) then "...\n".toList else [], ?_, ?_⟩
  · split
    · exact .inr rfl
    · exact .inl rfl
  · have root : rootLines (hole.fill tree) = glued 0 (hole.fill tree) := by
      cases hole <;> rfl
    rw [document, String.toList_ofList, root]

/-- Wherever in a tree a text of several lines stands under a key, the document has a literal block for it: the head that
the text asks for, and its lines in their order, those that are not empty two further in than the keys of the mapping. With
what follows in the document, the block means the text. Only the mark that may end the document depends on the text. -/
theorem document_literal (hole : Hole) (named : ∀ name ∈ hole.keys, IsName name) :
    ∃ frame : Frame, frame.Fits hole.key ∧
      ∀ text : String, '\n' ∈ text.toList → (∀ c ∈ text.toList, c = '\n' ∨ ' ' ≤ c ∧ c ≤ '~') →
        ∃ mark, (mark = [] ∨ mark = "...\n".toList) ∧
          let block := fed ((feedLines text.toList).map (marginLine (frame.lead.length + 2)))
          let rest := block ++ (frame.below ++ mark)
          (document (hole.fill (.text text))).toList =
            frame.above ++ (frame.lead ++ (frame.opening ++ ((headOf text.toList).text ++ '\n' :: rest))) ∧
          (headOf text.toList).meaning frame.lead.length rest = text.toList := by
  obtain ⟨frame, fits, -, around⟩ := framed hole named (List.forall_mem_nil _)
  refine ⟨frame, fits, fun text several printable => ?_⟩
  obtain ⟨mark, marked, written⟩ := document_fill hole (.text text)
  have filled : text.toList ≠ [] := List.ne_nil_of_mem several
  have feeds := onlyFeeds_of_printable printable
  have ends : Outside (frame.lead.length + 2) mark := by
    obtain rfl | rfl := marked
    · exact .inl rfl
    · exact .inr ⟨0, '.', _, rfl, by omega, by decide, by decide⟩
  have here := around text several
  rw [List.nil_append, List.length_nil, Frame.around, blockAt, literalHeader_eq filled feeds, (literalLines_eq feeds).1] at here
  refine ⟨mark, marked, ?_, ?_⟩
  · rw [written, here]
    simp
  · rw [← (literalLines_eq feeds).1]
    exact meaning_headOf filled feeds (fits.below.append ends)

/-- The script of a step of a job. -/
def stepScript : Hole :=
  .value [("name", .text "CI")] "jobs" (.value [] "build"
    (.value [("runs-on", .text "ubuntu-latest")] "steps" (.item [] (.entry [] "run" [("shell", .text "bash")]) []) []) []) []

theorem document_literal_step : ∃ frame : Frame, frame.Fits "run" ∧ ∃ mark : List Char,
    let rest := fed ((feedLines "\n  make\n\n".toList).map (marginLine (frame.lead.length + 2))) ++ (frame.below ++ mark)
    (document (stepScript.fill (.text "\n  make\n\n"))).toList =
      frame.above ++ (frame.lead ++ (frame.opening ++ ((headOf "\n  make\n\n".toList).text ++ '\n' :: rest))) ∧
    (headOf "\n  make\n\n".toList).meaning frame.lead.length rest = "\n  make\n\n".toList := by
  have named : ∀ name ∈ stepScript.keys, IsName name := by decide +kernel
  obtain ⟨frame, fits, blocks⟩ := document_literal stepScript named
  obtain ⟨mark, -, written, meaning⟩ := blocks "\n  make\n\n" (by simp) (by simp)
  exact ⟨frame, fits, mark, written, meaning⟩

example : document (stepScript.fill (.text "\n  make\n\n")) =
    "name: CI\njobs:\n  build:\n    runs-on: ubuntu-latest\n    steps:\n      - run: |2+\n\n            make\n\n        shell: bash\n" := by
  decide +kernel

end

end WorkflowCompiler.Yaml
