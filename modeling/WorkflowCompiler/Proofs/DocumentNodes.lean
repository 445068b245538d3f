import WorkflowCompiler.Proofs.DocumentTokens
import WorkflowCompiler.Yaml.Load

/-! The data of a written document: the tokens of a tree are put together to its nodes, and these stand for the tree. -/

namespace WorkflowCompiler.Yaml

mutual

/-- The node that a tree is written as. -/
def nodeOf : Tree → Node
  | .list items => .sequence (nodesOf items)
  | .map entries => .mapping (pairsOf entries)
  | .null => .empty
  | scalar => .scalar (scalarText scalar) (scalarStyle valueStyle scalar == .plain)

def nodesOf : List Tree → List Node
  | [] => []
  | item :: rest => nodeOf item :: nodesOf rest

def pairsOf : List (Tree × Tree) → List (Node × Node)
  | [] => []
  | entry :: rest => pairOf entry :: pairsOf rest

def pairOf : Tree × Tree → Node × Node
  | (key, value) => (nodeOf key, nodeOf value)

end

namespace Node

/-- The tokens before which nothing is written stand for an empty node. -/
def separators : List Token := [.entry, .key, .value, .blockEnd]

section
variable {rest : List Token} {tree : Tree} {fuel : Nat} {indentless : Bool}

theorem isOneOf_items (items : List Tree) : isOneOf [.entry, .blockEnd] (itemTokens items ++ .blockEnd :: rest) = true := by
  cases items <;> rfl

theorem isOneOf_entries (entries : List (Tree × Tree)) :
    isOneOf [.key, .value, .blockEnd] (entryTokens entries ++ .blockEnd :: rest) = true := by
  cases entries with
  | nil => rfl
  | cons entry entries => rw [entryTokens, tokensOf]; rfl

/-- No token that a node starts with is one before which nothing is written. -/
theorem isOneOf_tree (written : tree ≠ .null) {enders : List Token} (separate : ∀ token ∈ enders, token ∈ separators) :
    isOneOf enders (treeTokens tree ++ rest) = false := by
  have other : ∀ token, token ∉ separators → enders.contains token = false := by
    intro token different
    rw [← Bool.not_eq_true, List.contains_iff_mem]
    exact fun member => different (separate token member)
  cases tree with
  | null => exact absurd rfl written
  | list items => cases items <;> exact other _ (by decide)
  | map entries => cases entries <;> exact other _ (by decide)
  | _ => exact other _ (by simp [separators, scalarToken])

theorem read_scalar (scalar : isScalar tree = true) (enough : 2 ≤ fuel) :
    read fuel true indentless (treeTokens tree ++ rest) = some (nodeOf tree, rest) := by
  obtain ⟨more, rfl⟩ : ∃ more, fuel = more + 2 := ⟨fuel - 2, by omega⟩
  cases tree <;> first | rfl | cases scalar

/-- Where nothing is written the node is empty. -/
theorem readUnless_of_read {enders : List Token} (separate : ∀ token ∈ enders, token ∈ separators) (ends : isOneOf enders rest = true)
    (enough : 1 ≤ fuel)
    (read : tree ≠ .null → read (fuel - 1) true indentless (treeTokens tree ++ rest) = some (nodeOf tree, rest)) :
    readUnless fuel enders true indentless (treeTokens tree ++ rest) = some (nodeOf tree, rest) := by
  obtain ⟨more, rfl⟩ : ∃ more, fuel = more + 1 := ⟨fuel - 1, by omega⟩
  by_cases written : tree = .null
  · subst written
    rw [readUnless, show treeTokens .null ++ rest = rest from rfl, ends]
    rfl
  · rw [readUnless, isOneOf_tree written separate]
    exact read written

end

section
variable {tokens rest : List Token} {fuel : Nat} {indentless : Bool}

/-- Where no anchor and no tag is in front of a block, the block is the node. -/
theorem read_bare {token : Token} (bare : token = .blockSequence ∨ token = .blockMapping) :
    Node.read (fuel + 1) true indentless (token :: tokens) = readContent fuel true indentless (token :: tokens) := by
  have plain : ∀ node, Properties.apply {} node = node := fun _ => rfl
  rcases bare with rfl | rfl <;> simp [Node.read, Properties.read, Properties.areNone, plain]

theorem read_items {items : List Node} (read : readBlockItems fuel (tokens ++ .blockEnd :: rest) = some (items, rest)) :
    Node.read (fuel + 2) true indentless (.blockSequence :: (tokens ++ [.blockEnd]) ++ rest) = some (.sequence items, rest) := by
  have same : .blockSequence :: (tokens ++ [.blockEnd]) ++ rest = .blockSequence :: (tokens ++ .blockEnd :: rest) := by simp
  rw [same, read_bare (.inl rfl), readContent, if_pos rfl, read]
  rfl

theorem read_entries {entries : List (Node × Node)}
    (read : readBlockEntries fuel (tokens ++ .blockEnd :: rest) = some (entries, rest)) :
    Node.read (fuel + 2) true indentless (.blockMapping :: (tokens ++ [.blockEnd]) ++ rest) = some (.mapping entries, rest) := by
  have same : .blockMapping :: (tokens ++ [.blockEnd]) ++ rest = .blockMapping :: (tokens ++ .blockEnd :: rest) := by simp
  rw [same, read_bare (.inr rfl), readContent, if_pos rfl, read]
  rfl

end

mutual

theorem read_tree {fuel : Nat} {indentless : Bool} {rest : List Token} : (tree : Tree) → Plain tree → tree ≠ .null →
    3 * (treeTokens tree).length ≤ fuel → read fuel true indentless (treeTokens tree ++ rest) = some (nodeOf tree, rest)
  | .null, _, written, _ => absurd rfl written
  | .bool value, _, _, enough => read_scalar rfl (Nat.le_of_succ_le enough)
  | .int value, _, _, enough => read_scalar rfl (Nat.le_of_succ_le enough)
  | .float value, _, _, enough => read_scalar rfl (Nat.le_of_succ_le enough)
  | .text value, _, _, enough => read_scalar rfl (Nat.le_of_succ_le enough)
  | .stamp _, plain, _, _ | .bytes _, plain, _, _ | .set _, plain, _, _ => plain.elim
  | .list [], _, _, enough => by
    obtain ⟨more, rfl⟩ : ∃ more, fuel = more + 3 := ⟨fuel - 3, by simp [treeTokens] at enough; omega⟩
    rfl
  | .list (item :: items), plain, _, enough => by
    have length : 3 * ((itemTokens (item :: items)).length + 2) ≤ fuel := by
      simpa [treeTokens] using enough
    obtain ⟨more, rfl⟩ : ∃ more, fuel = more + 2 := ⟨fuel - 2, by omega⟩
    exact read_items (readBlockItems_items (item :: items) plain (by omega))
  | .map [], _, _, enough => by
    obtain ⟨more, rfl⟩ : ∃ more, fuel = more + 3 := ⟨fuel - 3, by simp [treeTokens] at enough; omega⟩
    rfl
  | .map (entry :: entries), plain, _, enough => by
    have length : 3 * ((entryTokens (entry :: entries)).length + 2) ≤ fuel := by
      simpa [treeTokens] using enough
    obtain ⟨more, rfl⟩ : ∃ more, fuel = more + 2 := ⟨fuel - 2, by omega⟩
    exact read_entries (readBlockEntries_entries (entry :: entries) plain.2 (by omega))

theorem readBlockItems_items {fuel : Nat} {rest : List Token} : (items : List Tree) → PlainItems items →
    3 * (itemTokens items).length + 1 ≤ fuel → readBlockItems fuel (itemTokens items ++ .blockEnd :: rest) = some (nodesOf items, rest)
  | [], _, enough => by
    obtain ⟨more, rfl⟩ : ∃ more, fuel = more + 1 := ⟨fuel - 1, by omega⟩
    rfl
  | item :: items, plain, enough => by
    have length : 3 * ((treeTokens item).length + (itemTokens items).length + 1) + 1 ≤ fuel := by
      simpa [itemTokens] using enough
    obtain ⟨more, rfl⟩ : ∃ more, fuel = more + 1 := ⟨fuel - 1, by omega⟩
    have first : readUnless more [.entry, .blockEnd] true false (treeTokens item ++ (itemTokens items ++ .blockEnd :: rest)) = _ :=
      readUnless_of_read (by decide) (isOneOf_items items) (by omega) fun written => read_tree item plain.1 written (by omega)
    have more : readBlockItems more (itemTokens items ++ .blockEnd :: rest) = _ := readBlockItems_items items plain.2 (by omega)
    rw [itemTokens, List.cons_append, List.append_assoc, readBlockItems, first]
    simp [more, nodesOf]

theorem readBlockEntries_entries {fuel : Nat} {rest : List Token} : (entries : List (Tree × Tree)) → PlainEntries entries →
    3 * (entryTokens entries).length + 1 ≤ fuel →
      readBlockEntries fuel (entryTokens entries ++ .blockEnd :: rest) = some (pairsOf entries, rest)
  | [], _, enough => by
    obtain ⟨more, rfl⟩ : ∃ more, fuel = more + 1 := ⟨fuel - 1, by omega⟩
    rfl
  | (.text key, value) :: entries, plain, enough => by
    have length : 3 * ((treeTokens value).length + (entryTokens entries).length + 3) + 1 ≤ fuel := by
      simp only [entryTokens, tokensOf, List.length_append, List.length_cons] at enough
      omega
    obtain ⟨more, rfl⟩ : ∃ more, fuel = more + 2 := ⟨fuel - 2, by omega⟩
    have first : readUnless (more + 1) [.key, .value, .blockEnd] true true
        (treeTokens (.text key) ++ .value :: (treeTokens value ++ (entryTokens entries ++ .blockEnd :: rest))) = _ :=
      readUnless_of_read (by decide) rfl (by omega) fun _ => read_scalar rfl (by omega)
    have second : readUnless more [.key, .value, .blockEnd] true true (treeTokens value ++ (entryTokens entries ++ .blockEnd :: rest)) = _ :=
      readUnless_of_read (by decide) (isOneOf_entries entries) (by omega) fun written => read_tree value plain.1 written (by omega)
    have third : readBlockEntries (more + 1) (entryTokens entries ++ .blockEnd :: rest) = _ := readBlockEntries_entries entries plain.2 (by omega)
    have same : entryTokens ((.text key, value) :: entries) ++ .blockEnd :: rest =
        .key :: (treeTokens (.text key) ++ .value :: (treeTokens value ++ (entryTokens entries ++ .blockEnd :: rest))) := by
      simp [entryTokens, tokensOf, treeTokens]
    rw [same, readBlockEntries, first]
    simp [readBlockValue, second, third, pairsOf, pairOf]

end

end Node

section
variable {reading : Reading}

theorem kindOf_plain {text : String} (plain : (valueStyle text == .plain) = true) : kindOf text = .text := by
  have style : keyStyle text = .plain := by
    rw [beq_iff_eq, valueStyle] at plain
    split at plain
    next => cases plain
    next => exact plain
  simp only [keyStyle] at style
  split at style
  next bare =>
    rw [Bool.and_eq_true, decide_eq_true_eq] at bare
    exact bare.1
  next => split at style <;> first | cases style | (split at style <;> cases style)

theorem scalarTree_text (text : String) : scalarTree .current text (valueStyle text == .plain) = .ok (.text text) := by
  cases style : valueStyle text == .plain with
  | false => rfl
  | true =>
    have kind : kindIn .current text = .text := kindOf_plain style
    simp [scalarTree, kind]

/-- A scalar stands for the data that it is written for. -/
theorem scalarTree_scalar {tree : Tree} (plain : Plain tree) (scalar : isScalar tree = true) :
    scalarTree .current (scalarText tree) (scalarStyle valueStyle tree == .plain) = .ok tree := by
  cases tree with
  | bool value => cases value <;> rfl
  | int value =>
    have kind : kindIn .current (toString value) = .int := kindOf_int value
    have style : (scalarStyle valueStyle (.int value) == .plain) = true := rfl
    rw [style, scalarTree, scalarText, kind, intValue_int]
    rfl
  | float value =>
    have kind : kindIn .current (floatText value) = .float := kindOf_float plain
    have style : (scalarStyle valueStyle (.float value) == .plain) = true := rfl
    rw [style, scalarTree, scalarText, kind, floatValue_float plain]
    rfl
  | text value => exact scalarTree_text value
  | stamp => cases plain
  | _ => cases scalar

theorem part_scalar {tree : Tree} (plain : Plain tree) (scalar : isScalar tree = true) :
    Node.part .current reading (nodeOf tree) = .ok (.done tree, reading) := by
  have node : nodeOf tree = .scalar (scalarText tree) (scalarStyle valueStyle tree == .plain) := by
    cases tree <;> first | rfl | cases scalar
  rw [node, Node.part, scalarTree_scalar plain scalar]
  rfl

theorem exists_text {entries : List (Tree × Tree)} (plain : PlainEntries entries) : ∀ key ∈ entries.map Prod.fst, ∃ name, key = .text name := by
  induction entries with
  | nil => exact fun key member => nomatch member
  | cons entry entries ih =>
    obtain ⟨key, value⟩ := entry
    refine List.forall_mem_cons.mpr ⟨?_, ih plain.2⟩
    cases key with
    | text name => exact ⟨name, rfl⟩
    | _ => exact absurd plain.1 (by simp [PlainEntry])

theorem sameKey_text {key other : Tree} (text : ∃ name, key = .text name) (text' : ∃ name, other = .text name) (different : key ≠ other) :
    Tree.sameKey key other = false := by
  obtain ⟨name, rfl⟩ := text
  obtain ⟨name', rfl⟩ := text'
  rw [Tree.sameKey, beq_eq_false_iff_ne]
  rintro rfl
  exact different rfl

theorem distinct_of_nodup {keys : List Tree} (text : ∀ key ∈ keys, ∃ name, key = .text name) (different : keys.Nodup) :
    distinct keys = true := by
  induction keys with
  | nil => rfl
  | cons key keys ih =>
    obtain ⟨here, later⟩ := List.forall_mem_cons.mp text
    obtain ⟨absent, different⟩ := List.nodup_cons.mp different
    have none : keys.any (Tree.sameKey key) = false := by
      rw [List.any_eq_false]
      intro other member
      have apart := sameKey_text here (later other member) fun same => absent (same ▸ member)
      simp [apart]
    rw [distinct, none, ih later different]
    rfl

theorem insert_new {key value : Tree} {found : List (Tree × Tree)} (new : ∀ other ∈ found.map Prod.fst, Tree.sameKey key other = false) :
    Tree.insert key value found = found ++ [(key, value)] := by
  induction found with
  | nil => rfl
  | cons entry found ih =>
    obtain ⟨here, later⟩ := List.forall_mem_cons.mp new
    simp [Tree.insert, here, ih later]

/-- Entries with different keys keep their order. -/
theorem insert_all {entries found : List (Tree × Tree)} (text : ∀ key ∈ (found ++ entries).map Prod.fst, ∃ name, key = .text name)
    (different : ((found ++ entries).map Prod.fst).Nodup) :
    entries.foldl (fun found (key, value) => Tree.insert key value found) found = found ++ entries := by
  induction entries generalizing found with
  | nil => rw [List.append_nil]; rfl
  | cons entry entries ih =>
    obtain ⟨key, value⟩ := entry
    have new : ∀ other ∈ found.map Prod.fst, Tree.sameKey key other = false := by
      intro other member
      apply sameKey_text (text key (by simp)) (text other (by simp_all))
      rintro rfl
      simp only [List.map_append, List.map_cons] at different
      exact (List.nodup_append.mp different).2.2 _ member _ List.mem_cons_self rfl
    have shift : found ++ (key, value) :: entries = found ++ [(key, value)] ++ entries := by simp
    rw [shift] at text different ⊢
    rw [← insert_new new] at text different ⊢
    exact ih text different

/-- An entry is not merged and has a name of its own. -/
theorem entry_text {key : String} {value : Tree} {part : Part} (read : Node.part .current reading (nodeOf value) = .ok (part, reading))
    (tree : part.tree = .ok value) :
    Node.entry .current reading (pairOf (.text key, value)) = .ok (none, [(.text key, value)], reading) := by
  have own : isMergeKey (nodeOf (.text key)) = false ∧ isDefaultKey (nodeOf (.text key)) = false := by
    have node : nodeOf (.text key) = .scalar key (valueStyle key == .plain) := rfl
    rw [node]
    cases style : valueStyle key == .plain with
    | false => exact ⟨rfl, rfl⟩
    | true => simp [isMergeKey, isDefaultKey, kindOf_plain style]
  have name : Node.part .current reading (nodeOf (.text key)) = .ok (.done (.text key), reading) := part_scalar trivial rfl
  rw [pairOf, Node.entry, own.1, own.2, name]
  simp [bind, Except.bind, Part.tree, keyFault?, isCollection, read, tree, pure, Except.pure]

mutual

/-- A tree is the data of its nodes. -/
theorem part_tree : (tree : Tree) → Plain tree → ∃ part, Node.part .current reading (nodeOf tree) = .ok (part, reading) ∧ part.tree = .ok tree
  | .null, _ => ⟨_, rfl, rfl⟩
  | .bool _, plain => ⟨_, part_scalar plain rfl, rfl⟩
  | .int _, plain => ⟨_, part_scalar plain rfl, rfl⟩
  | .float _, plain => ⟨_, part_scalar plain rfl, rfl⟩
  | .text _, plain => ⟨_, part_scalar plain rfl, rfl⟩
  | .list items, plain => by
    obtain ⟨parts, read, trees⟩ := parts_items items plain
    refine ⟨.items parts, ?_, ?_⟩
    · rw [nodeOf, Node.part, read]
      rfl
    · rw [Part.tree, trees]
      rfl
  | .map entries, plain => by
    have text := exists_text plain.2
    have read : Node.entries .current reading none [] (pairsOf entries) = .ok (none, [] ++ entries, reading) :=
      entries_entries entries plain.2
    refine ⟨.mapping entries false, ?_, ?_⟩
    · rw [nodeOf, Node.part, read, List.nil_append]
      simp [distinct_of_nodup text plain.1]
    · have whole : unique entries = [] ++ entries := insert_all text plain.1
      rw [Part.tree, whole]
      rfl

theorem parts_items : (items : List Tree) → PlainItems items →
    ∃ parts, Node.parts .current reading (nodesOf items) = .ok (parts, reading) ∧ Part.trees parts = .ok items
  | [], _ => ⟨[], rfl, rfl⟩
  | item :: items, plain => by
    obtain ⟨part, read, tree⟩ := part_tree item plain.1
    obtain ⟨parts, reads, trees⟩ := parts_items items plain.2
    refine ⟨part :: parts, ?_, ?_⟩
    · rw [nodesOf, Node.parts, read]
      simp [bind, Except.bind, reads, pure, Except.pure]
    · rw [Part.trees, tree, trees]
      rfl

theorem entries_entries {own : List (Tree × Tree)} : (entries : List (Tree × Tree)) → PlainEntries entries →
    Node.entries .current reading none own (pairsOf entries) = .ok (none, own ++ entries, reading)
  | [], _ => by rw [List.append_nil]; rfl
  | (.text key, value) :: entries, plain => by
    obtain ⟨part, read, tree⟩ := part_tree value plain.1
    have entry : Node.entry .current reading (pairOf (.text key, value)) = .ok (none, [(.text key, value)], reading) :=
      entry_text read tree
    rw [pairsOf, Node.entries, entry]
    simp [bind, Except.bind, entries_entries entries plain.2]

end

end

end WorkflowCompiler.Yaml
