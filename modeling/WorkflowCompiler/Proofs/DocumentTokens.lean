import WorkflowCompiler.Proofs.FloatTexts

/-! The tokens of a written document: what is written for a tree is read as the tokens of that tree, block by block. A block is read
together with the indentation of the line behind it, which tells where it ends. -/

namespace WorkflowCompiler.Yaml

mutual

/-- Data of which a workflow is made: texts name the entries of its mappings, no two alike, and its numbers are finite. It has
none of the dates, bytes and sets that other documents have. -/
def Plain : Tree → Prop
  | .null | .bool _ | .int _ | .text _ => True
  | .float value => value.Finite
  | .stamp _ | .bytes _ | .set _ => False
  | .list items => PlainItems items
  | .map entries => (entries.map Prod.fst).Nodup ∧ PlainEntries entries

def PlainItems : List Tree → Prop
  | [] => True
  | item :: rest => Plain item ∧ PlainItems rest

def PlainEntries : List (Tree × Tree) → Prop
  | [] => True
  | entry :: rest => PlainEntry entry ∧ PlainEntries rest

def PlainEntry : Tree × Tree → Prop
  | (.text _, value) => Plain value
  | _ => False

end

/-- A scalar is read back from that place. -/
def keptScalar (place : Place) (scalar : Tree) : Bool :=
  decide (Kept place (scalarText scalar).toList (scalarStyle valueStyle scalar))

mutual

/-- What is written behind a key is read back. -/
def keptAfter (indent column : Nat) : Tree → Bool
  | .list items => keptItems indent items
  | .map entries => keptEntries (indent + 2) entries
  | .null => true
  | scalar => keptScalar ⟨column + 1, some (indent + 2), true⟩ scalar

/-- What is written behind a dash or a question mark is read back. -/
def keptGlued (indent : Nat) : Tree → Bool
  | .list items => keptItems indent items
  | .map entries => keptEntries indent entries
  | .null => true
  | scalar => keptScalar ⟨indent, some indent, true⟩ scalar

def keptItems (indent : Nat) : List Tree → Bool
  | [] => true
  | item :: rest => keptGlued (indent + 4) item && keptItems indent rest

def keptEntries (indent : Nat) : List (Tree × Tree) → Bool
  | [] => true
  | entry :: rest => keptEntry indent entry && keptEntries indent rest

def keptEntry (indent : Nat) : Tree × Tree → Bool
  | (key, value) =>
    if isShortKey key then
      decide (KeptKey indent (scalarText key).toList (scalarStyle keyStyle key)) &&
        keptAfter indent (indent + (shortKey indent key).length + 1) value
    else keptScalar ⟨indent + 2, some (indent + 2), true⟩ key && keptGlued (indent + 2) value

end

/-- The token of a scalar. -/
def scalarToken (scalar : Tree) : Token := .scalar (scalarText scalar) (scalarStyle valueStyle scalar == .plain)

mutual

/-- The tokens of a tree. -/
def treeTokens : Tree → List Token
  | .list items =>
    if items.isEmpty then [.flowSequence, .flowSequenceEnd] else .blockSequence :: (itemTokens items ++ [.blockEnd])
  | .map entries =>
    if entries.isEmpty then [.flowMapping, .flowMappingEnd] else .blockMapping :: (entryTokens entries ++ [.blockEnd])
  | .null => []
  | scalar => [scalarToken scalar]

def itemTokens : List Tree → List Token
  | [] => []
  | item :: rest => .entry :: (treeTokens item ++ itemTokens rest)

def entryTokens : List (Tree × Tree) → List Token
  | [] => []
  | entry :: rest => tokensOf entry ++ entryTokens rest

def tokensOf : Tree × Tree → List Token
  | (key, value) => .key :: scalarToken key :: .value :: treeTokens value

end

section
variable {tree : Tree}

theorem suits_scalar (plain : Plain tree) : Suits (scalarText tree).toList (scalarStyle valueStyle tree) := by
  have word : ∀ word ∈ ["null", "true", "false"], canBePlain word.toList = true ∧ word.toList ≠ [] := by decide
  cases tree with
  | bool value => cases value <;> exact word _ (by simp [scalarText, Tree.boolText])
  | int value => exact (numerals_int value).suits
  | float value => exact (numerals_float plain).suits
  | text value => exact suits_valueStyle value
  | stamp | bytes | set => cases plain
  | _ => exact word _ (by simp [scalarText])

/-- Data that is written on a line of its own. -/
def isScalar : Tree → Bool
  | .null | .bytes _ | .set _ | .list _ | .map _ => false
  | _ => true

end

namespace Scan
section
variable {next : List Char} {index line column indent behind : Nat} {outer : List Int} {allowed : Bool} {reversed : List Token} {tree : Tree}

theorem line_scalar (plain : Plain tree) {place : Place} (left : place.margin = some column) (kept : keptScalar place tree = true) :
    Line column (scalarText tree).toList (scalarStyle valueStyle tree == .plain)
      (scalarLine place (scalarText tree) (scalarStyle valueStyle tree)) := by
  have written := line_of_kept left (suits_scalar plain) (of_decide_eq_true kept)
  rw [String.ofList_toList] at written
  exact written

theorem treeTokens_scalar (scalar : isScalar tree = true) :
    treeTokens tree = [.scalar (String.ofList (scalarText tree).toList) (scalarStyle valueStyle tree == .plain)] := by
  rw [String.ofList_toList]
  cases tree <;> first | rfl | cases scalar

/-- What is written behind a key is read up to the next line. -/
structure ReadsAfter (indent column : Nat) (tree : Tree) : Prop where
  clean : Clean (afterColon indent column tree)
  reads : ∀ {next : List Char} {behind index line : Nat} {outer : List Int} {allowed : Bool} {reversed : List Token},
    Opens next → behind ≤ indent →
      (stand ⟨afterColon indent column tree ++ (spaces behind ++ next), index, line, column⟩ indent outer allowed [] reversed).Reaches
        next behind indent outer ((treeTokens tree).reverse ++ reversed)

/-- What is written behind a dash or a question mark is read up to the next line. -/
structure ReadsGlued (indent : Nat) (tree : Tree) : Prop where
  clean : Clean (glued (indent + 2) tree)
  reads : ∀ {next : List Char} {behind index line : Nat} {outer : List Int} {reversed : List Token}, Opens next → behind ≤ indent →
    (stand ⟨' ' :: (glued (indent + 2) tree ++ (spaces behind ++ next)), index, line, indent + 1⟩ indent outer true [] reversed).Reaches
      next behind indent outer ((treeTokens tree).reverse ++ reversed)

/-- Lines in a block at `column` are read up to the line behind them. Where there are none that line is the first. -/
structure ReadsLines (column : Nat) (lines : List Char) (tokens : List Token) : Prop where
  clean : Clean lines
  reads : ∀ {next : List Char} {behind : Nat}, Opens next → behind ≤ column →
    ∃ margin text, lines ++ (spaces behind ++ next) = spaces margin ++ text ∧ margin ≤ column ∧ Opens text ∧
      ∀ {index line : Nat} {outer : List Int} {reversed : List Token},
        (stand ⟨text, index, line, margin⟩ column outer true [] reversed).Reaches next behind column outer (tokens.reverse ++ reversed)

/-- A line at `column` is read as part of a block, which it may open, up to the line behind it. -/
structure ReadsLine (opener : Token) (column : Nat) (line : List Char) (tokens : List Token) : Prop where
  clean : Clean line
  reads : ∃ body, line = spaces column ++ body ∧ ∀ {next : List Char} {behind : Nat}, Opens next → behind ≤ column →
    Opens (body ++ (spaces behind ++ next)) ∧
      ∀ {index line : Nat} {indent : Int} {outer outer' : List Int} {reversed reversed' : List Token},
        Opening opener column indent outer reversed outer' reversed' →
        (stand ⟨body ++ (spaces behind ++ next), index, line, column⟩ indent outer true [] reversed).Reaches next behind column outer'
          (tokens.reverse ++ reversed')

theorem Reaches.then {scan : Scan} {text : List Char} {margin : Nat} {origin into : Int} {outer' : List Int} {reversed' : List Token}
    (first : scan.Reaches text margin origin outer reversed)
    (second : ∀ {index line : Nat}, (stand ⟨text, index, line, margin⟩ origin outer true [] reversed).Reaches next behind into outer' reversed') :
    scan.Reaches next behind into outer' reversed' := by
  obtain ⟨index, line, read⟩ := first
  exact read.reaches second

theorem readsLines_nil (column : Nat) : ReadsLines column [] [] := by
  refine ⟨clean_nil, ?_⟩
  intro next behind opens inside
  refine ⟨behind, next, rfl, inside, opens, ?_⟩
  intro index line outer reversed
  exact reaches_here opens stale_nil

theorem ReadsLine.append {opener : Token} {written lines : List Char} {first tokens : List Token}
    (here : ReadsLine opener column written first) (more : ReadsLines column lines tokens) :
    ReadsLine opener column (written ++ lines) (first ++ tokens) := by
  obtain ⟨clean, body, rfl, read⟩ := here
  refine ⟨clean.append more.clean, body ++ lines, List.append_assoc _ _ _, ?_⟩
  intro next behind opens inside
  obtain ⟨margin, text, split, within, opens', read'⟩ := more.reads opens inside
  obtain ⟨opens'', read⟩ := read opens' within
  rw [List.append_assoc, split]
  refine ⟨opens'', ?_⟩
  intro index line indent outer outer' reversed reversed' opening
  rw [List.reverse_append, List.append_assoc]
  exact (read opening).then read'

theorem ReadsLine.lines {opener : Token} {lines : List Char} {tokens : List Token} (here : ReadsLine opener column lines tokens) :
    ReadsLines column lines tokens := by
  obtain ⟨clean, body, rfl, read⟩ := here
  refine ⟨clean, ?_⟩
  intro next behind opens inside
  obtain ⟨opens', read⟩ := read opens inside
  refine ⟨column, _, List.append_assoc _ _ _, Nat.le_refl _, opens', ?_⟩
  intro index line outer reversed
  exact read .inside

/-- The first line opens a block, and what stands further out than it closes it. -/
theorem ReadsLine.block {opener : Token} {lines : List Char} {tokens : List Token} (here : ReadsLine opener column lines tokens)
    (opens : Opens next) (outside : behind ≤ indent) (deeper : indent < column) :
    ∃ body, lines = spaces column ++ body ∧ Opens (body ++ (spaces behind ++ next)) ∧
      ∀ {index line : Nat}, (stand ⟨body ++ (spaces behind ++ next), index, line, column⟩ indent outer true [] reversed).Reaches
        next behind indent outer ((opener :: (tokens ++ [.blockEnd])).reverse ++ reversed) := by
  obtain ⟨-, body, rfl, read⟩ := here
  obtain ⟨opens', read⟩ := read opens (Nat.le_of_lt (Nat.lt_of_le_of_lt outside deeper))
  refine ⟨body, rfl, opens', ?_⟩
  intro index line
  have opened : (stand ⟨body ++ (spaces behind ++ next), index, line, column⟩ indent outer true [] reversed).Reaches next behind column
      (indent :: outer) (tokens.reverse ++ opener :: reversed) := read (.fresh (Int.ofNat_lt.mpr deeper))
  refine opened.then ?_
  intro index line
  have closed : (stand ⟨next, index, line, behind⟩ column (indent :: outer) true [] (tokens.reverse ++ opener :: reversed)).Reads
      (stand ⟨next, index, line, behind⟩ indent outer true [] (.blockEnd :: (tokens.reverse ++ opener :: reversed))) :=
    reads_outside opens stale_nil (Int.ofNat_lt.mpr (Nat.lt_of_le_of_lt outside deeper))
  simpa using closed.reaches (reaches_here opens stale_nil)

theorem readsAfter_scalar (scalar : isScalar tree = true) (plain : Plain tree)
    (kept : keptScalar ⟨column + 1, some (indent + 2), true⟩ tree = true) (deeper : indent ≤ column) : ReadsAfter indent column tree := by
  have written : afterColon indent column tree =
      ' ' :: scalarLine ⟨column + 1, some (indent + 2), true⟩ (scalarText tree) (scalarStyle valueStyle tree) := by
    cases tree <;> first | rfl | cases scalar
  have line := line_scalar plain rfl kept
  constructor
  · rw [written]
    exact line.clean.cons rfl
  · intro next behind index line' outer allowed reversed opens outside
    rw [written, treeTokens_scalar scalar]
    exact reaches_text line opens outside deeper

theorem readsGlued_scalar (scalar : isScalar tree = true) (plain : Plain tree)
    (kept : keptScalar ⟨indent + 2, some (indent + 2), true⟩ tree = true) : ReadsGlued indent tree := by
  have written : glued (indent + 2) tree =
      scalarLine ⟨indent + 2, some (indent + 2), true⟩ (scalarText tree) (scalarStyle valueStyle tree) := by
    cases tree <;> first | rfl | cases scalar
  have line := line_scalar plain rfl kept
  constructor
  · rw [written]
    exact line.clean
  · intro next behind index line' outer reversed opens outside
    rw [written, treeTokens_scalar scalar]
    exact reaches_text line opens outside (by omega)

theorem readsAfter_null : ReadsAfter indent column .null := by
  refine ⟨clean_nil.cons rfl, ?_⟩
  intro next behind index line outer allowed reversed opens outside
  exact reaches_line opens stale_nil 0 behind

theorem readsGlued_null : ReadsGlued indent .null := by
  refine ⟨clean_nil.cons rfl, ?_⟩
  intro next behind index line outer reversed opens outside
  exact reaches_line opens stale_nil 1 behind

theorem readsAfter_empty (empty : tree = .list [] ∨ tree = .map []) (deeper : indent ≤ column) : ReadsAfter indent column tree := by
  rcases empty with rfl | rfl
  · refine ⟨(((clean_nil.cons rfl).cons rfl).cons rfl).cons rfl, ?_⟩
    intro next behind index line outer allowed reversed opens outside
    exact reaches_brackets .square opens 1 behind (by omega)
  · refine ⟨(((clean_nil.cons rfl).cons rfl).cons rfl).cons rfl, ?_⟩
    intro next behind index line outer allowed reversed opens outside
    exact reaches_brackets .curly opens 1 behind (by omega)

theorem readsGlued_empty (empty : tree = .list [] ∨ tree = .map []) : ReadsGlued indent tree := by
  rcases empty with rfl | rfl
  · refine ⟨((clean_nil.cons rfl).cons rfl).cons rfl, ?_⟩
    intro next behind index line outer reversed opens outside
    exact reaches_brackets .square opens 1 behind (by omega)
  · refine ⟨((clean_nil.cons rfl).cons rfl).cons rfl, ?_⟩
    intro next behind index line outer reversed opens outside
    exact reaches_brackets .curly opens 1 behind (by omega)

/-- An item of a sequence, whose dash stands two further in than the sequence. -/
theorem ReadsGlued.item {item : Tree} (read : ReadsGlued (indent + 2) item) :
    ReadsLine .blockSequence (indent + 2) (spaces indent ++ "  - ".toList ++ glued (indent + 4) item) (.entry :: treeTokens item) := by
  have dashed : ∀ c ∈ "  - ".toList, isClean c = true := List.all_eq_true.mp (by decide)
  refine ⟨((clean_spaces indent).append dashed).append read.clean, '-' :: ' ' :: glued (indent + 4) item, ?_, ?_⟩
  · rw [spaces_add, List.append_assoc, List.append_assoc]
    rfl
  intro next behind opens inside
  have first : Opens ('-' :: ' ' :: (glued (indent + 4) item ++ (spaces behind ++ next))) := opens_cons (by decide)
  refine ⟨first, ?_⟩
  intro index line origin outer outer' reversed reversed' opening
  have dash : (stand ⟨'-' :: ' ' :: (glued (indent + 4) item ++ (spaces behind ++ next)), index, line, indent + 2⟩ origin outer true []
      reversed).Reads _ :=
    reads_token first (List.cons_ne_nil _ _) stale_nil 0 opening.deeper (fetch_entry opening) (Nat.lt_succ_self _)
  simpa using dash.reaches (read.reads opens inside)

theorem afterColon_gap (indent column : Nat) (tree : Tree) (rest : List Char) :
    endsLineOrGap ((afterColon indent column tree ++ rest).headD '\x00') = true := by
  cases tree with
  | list items => cases items <;> rfl
  | map entries => cases entries <;> rfl
  | _ => rfl

theorem keyLine_short {key : String} (short : isShortKey (.text key) = true)
    (kept : KeptKey indent key.toList (keyStyle key)) :
    KeyLine (indent + 2) key.toList (valueStyle key == .plain) (shortKey indent (.text key)) ∧ key.toList.length ≤ 128 := by
  have parts : (!isMultiline key.toList && decide (key.length + 5 < 128)) = true := short
  simp only [Bool.and_eq_true, Bool.not_eq_true', decide_eq_true_eq] at parts
  obtain ⟨flat, fits⟩ := parts
  have unbroken : key.toList.contains '\n' = false := by
    rw [← Bool.not_eq_true, List.contains_iff_mem]
    intro feed
    have broken := (List.any_eq_false.mp flat) _ feed
    exact broken rfl
  have style : valueStyle key = keyStyle key := by
    rw [valueStyle, unbroken]
    rfl
  rw [style, String.length_toList]
  exact ⟨keyLine_of_kept (suits_keyStyle key) flat kept, by omega⟩

theorem entryLines_short {key value : Tree} (short : isShortKey key = true) : entryLines indent (key, value) =
    spaces indent ++ shortKey indent key ++ ':' :: afterColon indent (indent + (shortKey indent key).length + 1) value := by
  cases value <;> exact if_pos short

/-- What is written on the line of the value of a long key. -/
theorem entryLines_long {key value : Tree} (long : isShortKey key = false) : ∃ colon, (colon = ':' :: ' ' :: glued (indent + 2) value ∨
      value = .null ∧ colon = [':', '\n']) ∧
    entryLines indent (key, value) = spaces indent ++ ('?' :: ' ' :: (glued (indent + 2) key ++ (spaces indent ++ colon))) := by
  have branch : ¬isShortKey key = true := by simp [long]
  have written : ∀ colon, spaces indent ++ "? ".toList ++ glued (indent + 2) key ++ spaces indent ++ colon =
      spaces indent ++ ('?' :: ' ' :: (glued (indent + 2) key ++ (spaces indent ++ colon))) := by
    simp
  cases value with
  | null => exact ⟨_, .inr ⟨rfl, rfl⟩, (if_neg branch).trans (written _)⟩
  | _ => exact ⟨_, .inl rfl, (if_neg branch).trans (written _)⟩

/-- An entry whose key is short, on the line of its value or before it. -/
theorem ReadsAfter.entry {key : String} {value : Tree} (short : isShortKey (.text key) = true)
    (kept : KeptKey indent key.toList (keyStyle key))
    (read : ReadsAfter indent (indent + (shortKey indent (.text key)).length + 1) value) :
    ReadsLine .blockMapping indent (entryLines indent (.text key, value)) (tokensOf (.text key, value)) := by
  obtain ⟨written, bounded⟩ := keyLine_short short kept
  rw [entryLines_short short]
  refine ⟨((clean_spaces indent).append written.clean).append (read.clean.cons rfl), _, List.append_assoc _ _ _, ?_⟩
  intro next behind opens inside
  rw [List.append_assoc, List.cons_append]
  refine ⟨written.opens _, ?_⟩
  intro index line origin outer outer' reversed reversed' opening
  have first : (stand ⟨shortKey indent (.text key) ++ ':' :: (afterColon indent (indent + (shortKey indent (.text key)).length + 1) value ++
      (spaces behind ++ next)), index, line, indent⟩ origin outer true [] reversed).Reads _ :=
    reads_key written bounded (afterColon_gap _ _ _ _) opening
  rw [String.ofList_toList] at first
  simpa [tokensOf, scalarToken, scalarText, scalarStyle] using first.reaches (read.reads opens inside)

/-- An entry whose key is long: the key behind a question mark, the value behind a colon on a line of its own. -/
theorem ReadsGlued.entry {key value : Tree} (long : isShortKey key = false) (readKey : ReadsGlued indent key) (read : ReadsGlued indent value)
    (scalar : treeTokens key = [scalarToken key]) :
    ReadsLine .blockMapping indent (entryLines indent (key, value)) (tokensOf (key, value)) := by
  obtain ⟨colon, value_cases, written⟩ : ∃ colon, (colon = ':' :: ' ' :: glued (indent + 2) value ∨ _) ∧ entryLines indent (key, value) = _ :=
    entryLines_long long
  have colon_clean : Clean colon := by
    rcases value_cases with rfl | ⟨-, rfl⟩
    · exact (read.clean.cons rfl).cons rfl
    · exact (clean_nil.cons rfl).cons rfl
  rw [written]
  refine ⟨(clean_spaces indent).append (((readKey.clean.append ((clean_spaces indent).append colon_clean)).cons rfl).cons rfl), _, rfl, ?_⟩
  intro next behind opens inside
  have mark : Opens ('?' :: ' ' :: (glued (indent + 2) key ++ (spaces indent ++ (colon ++ (spaces behind ++ next))))) := opens_cons (by decide)
  have colon_opens : Opens (colon ++ (spaces behind ++ next)) := by
    rcases value_cases with rfl | ⟨-, rfl⟩ <;> exact opens_cons (by decide)
  simp only [List.cons_append, List.append_assoc]
  refine ⟨mark, ?_⟩
  intro index line origin outer outer' reversed reversed' opening
  have first : (stand ⟨'?' :: ' ' :: (glued (indent + 2) key ++ (spaces indent ++ (colon ++ (spaces behind ++ next)))), index, line, indent⟩ origin
      outer true [] reversed).Reads _ :=
    reads_token mark (List.cons_ne_nil _ _) stale_nil 0 opening.deeper (fetch_key opening) (Nat.lt_succ_self _)
  refine (first.reaches (readKey.reads colon_opens (Nat.le_refl indent))).then ?_
  intro index line
  have scalar_tokens : (tokensOf (key, value)).reverse ++ reversed' =
      (treeTokens value).reverse ++ .value :: ((treeTokens key).reverse ++ .key :: reversed') := by
    simp [tokensOf, scalar]
  rw [scalar_tokens]
  rcases value_cases with rfl | ⟨rfl, rfl⟩
  · have second : (stand ⟨':' :: ' ' :: (glued (indent + 2) value ++ (spaces behind ++ next)), index, line, indent⟩ indent outer' true []
        ((treeTokens key).reverse ++ .key :: reversed')).Reads _ :=
      reads_token colon_opens (List.cons_ne_nil _ _) stale_nil 0 (Int.le_refl _) (fetch_value rfl) (Nat.lt_succ_self _)
    exact second.reaches (read.reads opens inside)
  · have second : (stand ⟨':' :: '\n' :: (spaces behind ++ next), index, line, indent⟩ indent outer' true []
        ((treeTokens key).reverse ++ .key :: reversed')).Reads _ :=
      reads_token colon_opens (List.cons_ne_nil _ _) stale_nil 0 (Int.le_refl _) (fetch_value rfl) (Nat.lt_succ_self _)
    exact second.reaches (reaches_line opens stale_nil 0 behind)

/-- A block behind a key starts on the next line. -/
theorem ReadsLine.after {opener : Token} {lines : List Char} {tokens : List Token} {place : Nat} (here : ReadsLine opener place lines tokens)
    (written : afterColon indent column tree = '\n' :: lines) (same : treeTokens tree = opener :: (tokens ++ [.blockEnd]))
    (deeper : indent < place) : ReadsAfter indent column tree := by
  refine ⟨by rw [written]; exact here.clean.cons rfl, ?_⟩
  intro next behind index line outer allowed reversed opens outside
  obtain ⟨body, rfl, opens', read⟩ := here.block opens outside deeper
  rw [written, same, List.cons_append, List.append_assoc]
  have first : (stand ⟨spaces 0 ++ '\n' :: (spaces place ++ (body ++ (spaces behind ++ next))), index, line, column⟩ indent outer allowed []
      reversed).Reads _ := reads_line opens' stale_nil 0 place
  exact first.reaches read

/-- A block behind a dash or a question mark starts on its line. -/
theorem ReadsLine.glued {opener : Token} {lines : List Char} {tokens : List Token} (further : Nat)
    (here : ReadsLine opener (indent + 2 + further) lines tokens) (written : glued (indent + 2) tree = lines.drop (indent + 2))
    (same : treeTokens tree = opener :: (tokens ++ [.blockEnd])) : ReadsGlued indent tree := by
  refine ⟨by rw [written]; exact fun c member => here.clean c (List.mem_of_mem_drop member), ?_⟩
  intro next behind index line outer reversed opens outside
  obtain ⟨body, rfl, opens', read⟩ := here.block opens outside (by omega)
  have dropped : (spaces (indent + 2 + further) ++ body).drop (indent + 2) = spaces further ++ body := by
    rw [spaces_add, List.append_assoc, List.drop_left' (length_spaces _)]
  have first : (stand ⟨spaces (further + 1) ++ (body ++ (spaces behind ++ next)), index, line, indent + 1⟩ indent outer true []
      reversed).Reads _ := reads_spaces opens' stale_nil (further + 1)
  have place : indent + 1 + (further + 1) = indent + 2 + further := by omega
  rw [place] at first
  rw [written, same, dropped, List.append_assoc]
  exact first.reaches read

mutual

theorem readsAfter (indent column : Nat) : (tree : Tree) → Plain tree → keptAfter indent column tree = true → indent ≤ column →
    ReadsAfter indent column tree
  | .null, _, _, _ => readsAfter_null
  | .bool value, plain, kept, deeper => readsAfter_scalar rfl plain kept deeper
  | .int value, plain, kept, deeper => readsAfter_scalar rfl plain kept deeper
  | .float value, plain, kept, deeper => readsAfter_scalar rfl plain kept deeper
  | .text value, plain, kept, deeper => readsAfter_scalar rfl plain kept deeper
  | .stamp _, plain, _, _ | .bytes _, plain, _, _ | .set _, plain, _, _ => plain.elim
  | .list [], _, _, deeper => readsAfter_empty (.inl rfl) deeper
  | .list (item :: rest), plain, kept, deeper => by
    have kept : keptGlued (indent + 4) item = true ∧ keptItems indent rest = true := Bool.and_eq_true_iff.mp kept
    have first := (readsGlued (indent + 2) item plain.1 kept.1).item
    have lines := first.append (readsItems indent rest plain.2 kept.2)
    exact lines.after rfl rfl (by omega)
  | .map [], _, _, deeper => readsAfter_empty (.inr rfl) deeper
  | .map (entry :: rest), plain, kept, deeper => by
    have kept : keptEntry (indent + 2) entry = true ∧ keptEntries (indent + 2) rest = true := Bool.and_eq_true_iff.mp kept
    have first := readsEntry (indent + 2) entry plain.2.1 kept.1
    have lines := first.append (readsEntries (indent + 2) rest plain.2.2 kept.2)
    exact lines.after rfl rfl (by omega)

theorem readsGlued (indent : Nat) : (tree : Tree) → Plain tree → keptGlued (indent + 2) tree = true → ReadsGlued indent tree
  | .null, _, _ => readsGlued_null
  | .bool value, plain, kept => readsGlued_scalar rfl plain kept
  | .int value, plain, kept => readsGlued_scalar rfl plain kept
  | .float value, plain, kept => readsGlued_scalar rfl plain kept
  | .text value, plain, kept => readsGlued_scalar rfl plain kept
  | .stamp _, plain, _ | .bytes _, plain, _ | .set _, plain, _ => plain.elim
  | .list [], _, _ => readsGlued_empty (.inl rfl)
  | .list (item :: rest), plain, kept => by
    have kept : keptGlued (indent + 6) item = true ∧ keptItems (indent + 2) rest = true := Bool.and_eq_true_iff.mp kept
    have first := (readsGlued (indent + 4) item plain.1 kept.1).item
    have lines := first.append (readsItems (indent + 2) rest plain.2 kept.2)
    exact lines.glued 2 rfl rfl
  | .map [], _, _ => readsGlued_empty (.inr rfl)
  | .map (entry :: rest), plain, kept => by
    have kept : keptEntry (indent + 2) entry = true ∧ keptEntries (indent + 2) rest = true := Bool.and_eq_true_iff.mp kept
    have first := readsEntry (indent + 2) entry plain.2.1 kept.1
    have lines := first.append (readsEntries (indent + 2) rest plain.2.2 kept.2)
    exact lines.glued 0 rfl rfl

theorem readsItems (indent : Nat) : (items : List Tree) → PlainItems items → keptItems indent items = true →
    ReadsLines (indent + 2) (sequenceLines indent items) (itemTokens items)
  | [], _, _ => readsLines_nil (indent + 2)
  | item :: rest, plain, kept => by
    have kept : keptGlued (indent + 4) item = true ∧ keptItems indent rest = true := Bool.and_eq_true_iff.mp kept
    have first := (readsGlued (indent + 2) item plain.1 kept.1).item
    exact (first.append (readsItems indent rest plain.2 kept.2)).lines

theorem readsEntries (indent : Nat) : (entries : List (Tree × Tree)) → PlainEntries entries → keptEntries indent entries = true →
    ReadsLines indent (mappingLines indent entries) (entryTokens entries)
  | [], _, _ => readsLines_nil indent
  | entry :: rest, plain, kept => by
    have kept : keptEntry indent entry = true ∧ keptEntries indent rest = true := Bool.and_eq_true_iff.mp kept
    have first := readsEntry indent entry plain.1 kept.1
    exact (first.append (readsEntries indent rest plain.2 kept.2)).lines

theorem readsEntry (indent : Nat) : (entry : Tree × Tree) → PlainEntry entry → keptEntry indent entry = true →
    ReadsLine .blockMapping indent (entryLines indent entry) (tokensOf entry)
  | (.text key, value), plain, kept => by
    cases size : isShortKey (.text key) with
    | true =>
      have taken : keptEntry indent (.text key, value) = _ := if_pos size
      obtain ⟨keptKey, kept⟩ := Bool.and_eq_true_iff.mp (taken.symm.trans kept)
      exact (readsAfter indent _ value plain kept (by omega)).entry size (of_decide_eq_true keptKey)
    | false =>
      have taken : keptEntry indent (.text key, value) = _ := if_neg (Bool.eq_false_iff.mp size)
      obtain ⟨keptKey, kept⟩ := Bool.and_eq_true_iff.mp (taken.symm.trans kept)
      have readKey : ReadsGlued indent (.text key) := readsGlued_scalar rfl trivial keptKey
      exact readKey.entry size (readsGlued indent value plain kept) rfl

end

end

end Scan

end WorkflowCompiler.Yaml
