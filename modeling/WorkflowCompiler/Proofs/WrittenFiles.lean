import WorkflowCompiler.Proofs.DocumentNodes
import WorkflowCompiler.Publish.Files

/-! Workflow files are read back. The comment in front of a document is skipped, the document is read as the tokens of its mapping,
and these stand for the mapping. -/

namespace WorkflowCompiler

namespace Yaml
open Proofs (Stops takeWhile_append_of_stops)

namespace Scan
section
variable {next text : List Char} {index line column behind : Nat} {indent : Int} {outer : List Int} {allowed : Bool}
  {starts : List KeyStart} {reversed : List Token}

/-- A line that holds nothing but a comment, if that. -/
def isSilent (line : List Char) : Bool :=
  (line.head?.getD '#' == '#') && line.all fun c => isInline c && !endsLine c && isClean c

theorem isSilent_cases {line : List Char} (silent : isSilent line = true) :
    (line = [] ∨ ∃ rest, line = '#' :: rest) ∧ ∀ c ∈ line, isInline c = true ∧ endsLine c = false ∧ isClean c = true := by
  simp only [isSilent, Bool.and_eq_true, List.all_eq_true, Bool.not_eq_true', beq_iff_eq] at silent
  refine ⟨?_, fun c member => ?_⟩
  · cases line with
    | nil => exact .inl rfl
    | cons c rest =>
      obtain rfl : c = '#' := silent.1
      exact .inr ⟨rest, rfl⟩
  · have all := silent.2 c member
    exact ⟨all.1.1, all.1.2, all.2⟩

/-- A comment is skipped with the end of its line. -/
theorem toNextToken_comment (silent : isSilent text = true) (fuel : Nat) :
    (stand ⟨text ++ '\n' :: next, index, line, 0⟩ indent outer allowed starts reversed).toNextToken (fuel + 1) =
      (stand ⟨next, index + text.length + 1, line + 1, 0⟩ indent outer true starts reversed).toNextToken fuel := by
  obtain ⟨shape, all⟩ := isSilent_cases silent
  have feed : isAnyBreak '\n' = true := rfl
  have none : Stops (fun c => c == ' ' || (false && c == '\t')) (text ++ '\n' :: next) := by
    intro c member
    rcases shape with rfl | ⟨rest, rfl⟩
    · cases member
      rfl
    · cases member
      rfl
  have skipped : (if Cursor.peek ⟨text ++ '\n' :: next, index, line, 0⟩ == '#'
      then Cursor.skipWhile (fun c => !endsLine c) ⟨text ++ '\n' :: next, index, line, 0⟩ else ⟨text ++ '\n' :: next, index, line, 0⟩) =
      ⟨'\n' :: next, index + text.length, line, text.length⟩ := by
    rcases shape with rfl | ⟨rest, rfl⟩
    · rfl
    · have comment : Cursor.peek ⟨'#' :: rest ++ '\n' :: next, index, line, 0⟩ == '#' := rfl
      have inside : ∀ c ∈ '#' :: rest, (!endsLine c) = true := fun c member => by rw [(all c member).2.1]; rfl
      have stops : Stops (fun c => !endsLine c) ('\n' :: next) := by
        intro c member
        cases member
        rfl
      rw [if_pos comment, Cursor.skipWhile, (takeWhile_append_of_stops inside stops).1, Cursor.skip_inline fun c member => (all c member).1,
        Nat.zero_add]
  rw [stand, toNextToken]
  simp only [inFlow, List.isEmpty_nil, Bool.not_true, Cursor.skipWhile_nothing none, skipped, Cursor.peek_cons, feed, if_true,
    scanBreak_feed, Bool.not_false, Bool.or_true]
  rfl

theorem toNextToken_comments (opens : Opens next) {lines : List (List Char)} (silent : ∀ line ∈ lines, isSilent line = true) {fuel : Nat}
    (enough : lines.length < fuel) :
    ∃ index' line', (stand ⟨lines.flatMap (· ++ ['\n']) ++ next, index, line, 0⟩ indent outer true starts reversed).toNextToken fuel =
      stand ⟨next, index', line', 0⟩ indent outer true starts reversed := by
  induction lines generalizing index line fuel with
  | nil =>
    obtain ⟨more, rfl⟩ : ∃ more, fuel = more + 1 := ⟨fuel - 1, by simp at enough; omega⟩
    exact ⟨_, _, toNextToken_opens opens 0 more⟩
  | cons text lines ih =>
    obtain ⟨here, later⟩ := List.forall_mem_cons.mp silent
    obtain ⟨more, rfl⟩ : ∃ more, fuel = more + 1 := ⟨fuel - 1, by simp at enough; omega⟩
    obtain ⟨index', line', moved⟩ : ∃ index' line', (stand ⟨lines.flatMap (· ++ ['\n']) ++ next, index + text.length + 1, line + 1, 0⟩ indent outer
        true starts reversed).toNextToken more = _ := ih later (by simpa using enough)
    refine ⟨index', line', ?_⟩
    rw [List.flatMap_cons, List.append_assoc, List.append_assoc, List.singleton_append, toNextToken_comment here, moved]

/-- The comment in front of a document is skipped. -/
theorem reads_comments (opens : Opens next) {lines : List (List Char)} (silent : ∀ line ∈ lines, isSilent line = true) :
    (stand ⟨lines.flatMap (· ++ ['\n']) ++ next, 0, 0, 0⟩ indent outer true [] reversed).Reaches next 0 indent outer reversed := by
  have each : ∀ lines : List (List Char), lines.length ≤ (lines.flatMap (· ++ ['\n'])).length := by
    intro lines
    induction lines with
    | nil => exact Nat.le_refl 0
    | cons text lines ih =>
      simp only [List.flatMap_cons, List.length_append, List.length_cons, List.length_nil]
      omega
  have enough : lines.length < (lines.flatMap (· ++ ['\n']) ++ next).length + 1 := by
    have fewer := each lines
    rw [List.length_append]
    omega
  obtain ⟨index, line, moved⟩ : ∃ index line, (stand ⟨lines.flatMap (· ++ ['\n']) ++ next, 0, 0, 0⟩ indent outer true [] reversed).settle = _ :=
    toNextToken_comments opens silent enough
  refine ⟨index, line, reads_of_ready ?_ (by simp [stand])⟩
  rw [ready, moved, dropStale_stale stale_nil, ready_here opens stale_nil]
  rfl

end

/-- A marker that says where the document ends closes the mapping at its root. -/
theorem reaches_marker {reversed : List Token} {index line : Nat} :
    (stand ⟨['.', '.', '.', '\n'], index, line, 0⟩ 0 [-1] true [] reversed).Reaches [] 0 (-1) []
      (.documentEnd :: .blockEnd :: reversed) := by
  have opens : Opens ['.', '.', '.', '\n'] := opens_cons (by decide)
  have fetched : (stand ⟨['.', '.', '.', '\n'], index, line, 0⟩ 0 [-1] true [] reversed).fetch =
      some (stand ⟨['\n'], index + 3, line, 3⟩ (-1) [] false [] (.documentEnd :: .blockEnd :: reversed)) := rfl
  have marked := reads_token opens (List.cons_ne_nil _ _) stale_nil 0 (by decide) fetched (by simp [stand])
  exact marked.reaches (reaches_line opens_nil stale_nil 0 0)

/-- The tokens are those found up to the end, the mapping at the root being closed there. -/
theorem finish_of_reaches {scan : Scan} {indent : Int} {outer : List Int} {reversed : List Token}
    (read : scan.Reaches [] 0 indent outer reversed) :
    (indent = 0 ∧ outer = [-1] → scan.finish (scan.cursor.rest.length + 2) = some (Token.blockEnd :: reversed).reverse) ∧
      (indent = -1 ∧ outer = [] → scan.finish (scan.cursor.rest.length + 2) = some reversed.reverse) := by
  obtain ⟨index, line, cost, shorter, same⟩ := read
  have shorter : cost ≤ scan.cursor.rest.length := by simpa [stand] using shorter
  have fuel : scan.cursor.rest.length + 2 = scan.cursor.rest.length - cost + 1 + 1 + cost := by omega
  rw [fuel, same]
  constructor
  · rintro ⟨rfl, rfl⟩
    rfl
  · rintro ⟨rfl, rfl⟩
    rfl

end Scan

/-- The marker behind a document that may end open, and its token. -/
def marker (tree : Tree) : List Char := if endsOpen tree then ['.', '.', '.', '\n'] else []

def markerToken (tree : Tree) : List Token := if endsOpen tree then [.documentEnd] else []

section
variable {entries : List (Tree × Tree)}

theorem document_map (entries : List (Tree × Tree)) : (document (.map entries)).toList = rootLines (.map entries) ++ marker (.map entries) := by
  rw [document, String.toList_ofList]
  rfl

/-- What a mapping at the root of a document is read as, the comment in front of it being skipped. -/
theorem finish_document (plain : Plain (.map entries)) (kept : keptEntries 0 entries = true) :
    Clean (rootLines (.map entries)) ∧ Opens (rootLines (.map entries) ++ marker (.map entries)) ∧
      ∀ scan : Scan, scan.Reaches (rootLines (.map entries) ++ marker (.map entries)) 0 (-1) [] [] →
        scan.finish (scan.cursor.rest.length + 2) = some (treeTokens (.map entries) ++ markerToken (.map entries)) := by
  cases entries with
  | nil =>
    refine ⟨((clean_nil.cons rfl).cons rfl).cons rfl, opens_cons (by decide), fun scan read => ?_⟩
    have whole : scan.Reaches [] 0 (-1) [] [.flowMappingEnd, .flowMapping] :=
      read.then (Scan.reaches_brackets .curly opens_nil 0 0 (by decide))
    exact (Scan.finish_of_reaches whole).2 ⟨rfl, rfl⟩
  | cons entry rest =>
    obtain ⟨keptEntry, keptRest⟩ := Bool.and_eq_true_iff.mp kept
    obtain ⟨clean, body, lines, read⟩ := (Scan.readsEntry 0 entry plain.2.1 keptEntry).append (Scan.readsEntries 0 rest plain.2.2 keptRest)
    have root : rootLines (.map (entry :: rest)) = body := lines
    rw [lines] at clean
    have tokens : treeTokens (.map (entry :: rest)) = .blockMapping :: (tokensOf entry ++ entryTokens rest ++ [.blockEnd]) := rfl
    rw [root, marker, markerToken]
    cases openEnd : endsOpen (.map (entry :: rest)) with
    | false =>
      obtain ⟨opens, read⟩ := read opens_nil (Nat.le_refl 0)
      refine ⟨clean, opens, fun scan before => ?_⟩
      have whole : scan.Reaches [] 0 0 [-1] _ := before.then (read (.fresh (by decide)))
      rw [(Scan.finish_of_reaches whole).1 ⟨rfl, rfl⟩]
      simp [tokens]
    | true =>
      have mark : Opens ['.', '.', '.', '\n'] := opens_cons (by decide)
      obtain ⟨opens, read⟩ := read mark (Nat.le_refl 0)
      refine ⟨clean, opens, fun scan before => ?_⟩
      have whole : scan.Reaches [] 0 (-1) [] _ := (before.then (read (.fresh (by decide)))).then Scan.reaches_marker
      rw [(Scan.finish_of_reaches whole).2 ⟨rfl, rfl⟩]
      simp [tokens]

theorem plainBreaks_clean {text : List Char} (clean : Clean text) : Text.plainBreaks text = text := by
  induction text with
  | nil => rfl
  | cons c text ih =>
    obtain ⟨here, later⟩ := List.forall_mem_cons.mp clean
    have back : c ≠ '\r' := by
      rintro rfl
      cases here
    rw [Text.plainBreaks, ih later]
    · exact fun rest same => absurd same back
    · exact fun same => absurd same back

theorem intercalate_lines {text : List Char} {lines : List (List Char)} :
    ['\n'].intercalate (text :: lines) ++ ['\n'] = (text :: lines).flatMap (· ++ ['\n']) := by
  induction lines generalizing text with
  | nil => simp [List.intercalate]
  | cons next lines ih =>
    rw [List.intercalate_cons_cons, List.append_assoc, ih]
    rfl

theorem clean_comments {lines : List (List Char)} (silent : ∀ line ∈ lines, Scan.isSilent line = true) : Clean (lines.flatMap (· ++ ['\n'])) := by
  intro c member
  obtain ⟨line, inside, member⟩ := List.mem_flatMap.mp member
  rcases List.mem_append.mp member with text | feed
  · exact ((Scan.isSilent_cases (silent line inside)).2 c text).2.2
  · rw [List.mem_singleton.mp feed]
    rfl

/-- The tokens of a document with a comment in front of it. -/
theorem tokens?_commented {text : String} {line : List Char} {lines : List (List Char)} (silent : ∀ each ∈ line :: lines, Scan.isSilent each = true)
    (written : text.toList = (line :: lines).flatMap (· ++ ['\n']) ++ (document (.map entries)).toList)
    (plain : Plain (.map entries)) (kept : keptEntries 0 entries = true) :
    tokens? text = some (treeTokens (.map entries) ++ markerToken (.map entries)) := by
  obtain ⟨clean, opens, finish⟩ := finish_document plain kept
  have marked : Clean (marker (.map entries)) := by
    rw [marker]
    split
    next => exact (((clean_nil.cons rfl).cons rfl).cons rfl).cons rfl
    next => exact clean_nil
  rw [document_map] at written
  have whole : Clean text.toList := by
    rw [written]
    exact (clean_comments silent).append (clean.append marked)
  have readable : text.toList.all isReadable = true := by
    rw [List.all_eq_true]
    intro c member
    have clean := whole c member
    rw [isClean, Bool.and_eq_true] at clean
    exact clean.1
  have mark : (Cursor.peek ⟨text.toList, 0, 0, 0⟩ == '\uFEFF') = false := by
    rw [written]
    rcases (Scan.isSilent_cases (silent line List.mem_cons_self)).1 with rfl | ⟨rest, rfl⟩ <;> rfl
  rw [tokens?, plainBreaks_clean whole, readable]
  simp only [Bool.not_true, Bool.false_eq_true, if_false, mark]
  have read : (Scan.stand ⟨(line :: lines).flatMap (· ++ ['\n']) ++ _, 0, 0, 0⟩ (-1) [] true [] []).Reaches _ 0 (-1) [] [] :=
    Scan.reads_comments opens silent
  rw [← written] at read
  exact finish _ read

def isTag : Token → Bool
  | .tag _ _ => true
  | _ => false

mutual

/-- Nothing is tagged in a document that is written for plain data. -/
theorem untagged_tree : (tree : Tree) → ∀ token ∈ treeTokens tree, isTag token = false
  | .null => fun token member => nomatch member
  | .bool _ | .int _ | .float _ | .text _ | .stamp _ | .bytes _ | .set _ => fun _ member => List.mem_singleton.mp member ▸ rfl
  | .list [] | .map [] => by decide
  | .list (item :: items) => by
    have inside := untagged_items (item :: items)
    simp only [treeTokens, List.isEmpty_cons, Bool.false_eq_true, if_false, List.forall_mem_cons, List.forall_mem_append]
    exact ⟨rfl, inside, rfl, fun _ member => nomatch member⟩
  | .map (entry :: entries) => by
    have inside := untagged_entries (entry :: entries)
    simp only [treeTokens, List.isEmpty_cons, Bool.false_eq_true, if_false, List.forall_mem_cons, List.forall_mem_append]
    exact ⟨rfl, inside, rfl, fun _ member => nomatch member⟩

theorem untagged_items : (items : List Tree) → ∀ token ∈ itemTokens items, isTag token = false
  | [] => fun token member => nomatch member
  | item :: items => by
    simp only [itemTokens, List.forall_mem_cons, List.forall_mem_append]
    exact ⟨rfl, untagged_tree item, untagged_items items⟩

theorem untagged_entries : (entries : List (Tree × Tree)) → ∀ token ∈ entryTokens entries, isTag token = false
  | [] => fun token member => nomatch member
  | (key, value) :: entries => by
    simp only [entryTokens, tokensOf, List.cons_append, List.forall_mem_cons, List.forall_mem_append]
    exact ⟨rfl, rfl, rfl, untagged_tree value, untagged_entries entries⟩

end

theorem mapM_resolveTag {handles : List (String × String)} {tokens : List Token} (untagged : ∀ token ∈ tokens, isTag token = false) :
    tokens.mapM (Node.resolveTag handles) = some tokens := by
  induction tokens with
  | nil => rfl
  | cons token tokens ih =>
    obtain ⟨here, later⟩ := List.forall_mem_cons.mp untagged
    have same : Node.resolveTag handles token = some token := by
      cases token <;> first | rfl | cases here
    simp [same, ih later]

/-- A document without a head is one node, which may be followed by markers. -/
theorem readDocument_opener {first : Token} {rest : List Token} (opener : first = .flowMapping ∨ first = .blockMapping)
    (untagged : ∀ token ∈ first :: rest, isTag token = false) :
    Node.readDocument (first :: rest) = (Node.read (4 * (first :: rest).length + 4) true false (first :: rest)).bind fun (node, rest) =>
      if (rest.dropWhile (· == .documentEnd)).isEmpty then some (some node) else none := by
  have resolved : (first :: rest).mapM (Node.resolveTag []) = some (first :: rest) := mapM_resolveTag untagged
  rcases opener with rfl | rfl
  all_goals
    change (List.mapM (Node.resolveTag []) (_ :: rest)).bind _ = _
    rw [resolved]
    rfl

/-- The nodes of a document that holds a mapping. -/
theorem readDocument_map (plain : Plain (.map entries)) :
    Node.readDocument (treeTokens (.map entries) ++ markerToken (.map entries)) = some (some (nodeOf (.map entries))) := by
  have ended : ((markerToken (.map entries)).dropWhile (· == .documentEnd)).isEmpty = true := by
    rw [markerToken]
    split <;> rfl
  have read : ∀ fuel, 3 * (treeTokens (.map entries)).length ≤ fuel →
      Node.read fuel true false (treeTokens (.map entries) ++ markerToken (.map entries)) = some (nodeOf (.map entries), markerToken (.map entries)) :=
    fun fuel enough => Node.read_tree (.map entries) plain (by simp) enough
  have untagged : ∀ token ∈ treeTokens (.map entries) ++ markerToken (.map entries), isTag token = false := by
    rw [List.forall_mem_append, markerToken]
    refine ⟨untagged_tree (.map entries), ?_⟩
    split <;> decide
  obtain ⟨first, rest, tokens, opener⟩ : ∃ first rest, treeTokens (.map entries) = first :: rest ∧ (first = .flowMapping ∨ first = .blockMapping) := by
    cases entries with
    | nil => exact ⟨_, _, rfl, .inl rfl⟩
    | cons entry entries => exact ⟨_, _, rfl, .inr rfl⟩
  rw [tokens, List.cons_append] at read untagged ⊢
  rw [readDocument_opener opener untagged, read _ (by simp only [List.length_cons, List.length_append]; omega), Option.bind_some]
  exact if_pos ended

theorem versionOf_map (entries : List (Tree × Tree)) (ending : List Token) : versionOf (treeTokens (.map entries) ++ ending) = .current := by
  cases entries <;> rfl

end

/-- A mapping is read back from its document, also behind a comment. -/
theorem load_commented {entries : List (Tree × Tree)} {text : String} {line : List Char} {lines : List (List Char)}
    (silent : ∀ each ∈ line :: lines, Scan.isSilent each = true)
    (written : text.toList = (line :: lines).flatMap (· ++ ['\n']) ++ (document (.map entries)).toList)
    (plain : Plain (.map entries)) (kept : keptEntries 0 entries = true) : load text = .ok (.map entries) := by
  obtain ⟨part, read, tree⟩ : ∃ part, Node.part .current {} (nodeOf (.map entries)) = .ok (part, {}) ∧ _ := part_tree (.map entries) plain
  rw [load, tokens?_commented silent written plain kept]
  simp only [readDocument_map plain, versionOf_map, read, bind, Except.bind, tree]
  rfl

end Yaml

namespace Publish
open Yaml

theorem header_lines : ∃ line lines, (∀ each ∈ line :: lines, Scan.isSilent each = true) ∧
    (header ++ "\n").toList = (line :: lines).flatMap (· ++ ['\n']) := by
  obtain ⟨text, texts, same, silent⟩ : ∃ text texts, header = "\n".intercalate (text :: texts) ∧
      ∀ each ∈ text :: texts, Scan.isSilent each.toList = true := ⟨_, _, rfl, by decide +kernel⟩
  refine ⟨text.toList, texts.map String.toList, ?_, ?_⟩
  · rw [← List.map_cons]
    exact List.forall_mem_map.mpr silent
  · rw [String.toList_append, same, String.toList_intercalate]
    exact intercalate_lines

/-- The file of a workflow is read back. -/
theorem fileText_loads {entries : List (Tree × Tree)} (plain : Plain (.map entries)) (kept : keptEntries 0 entries = true) :
    load (fileText (.map entries)) = .ok (.map entries) := by
  obtain ⟨line, lines, silent, written⟩ := header_lines
  refine load_commented silent ?_ plain kept
  rw [fileText, String.toList_append, written]

/-- A workflow with a script of two lines and numbers among its settings. -/
def scriptedWorkflow : List (Tree × Tree) :=
  [(.text "name", .text "CI"), (.text "on", .map [(.text "push", .null)]),
    (.text "steps", .list [.map [(.text "run", .text "echo a\necho b"), (.text "with", .map [(.text "n", .int (-1)), (.text "flag", .bool true)]),
      (.text "delay", .float (.finite false (3 * 2 ^ 51) (-52)))]])]

theorem fileText_loads_script : Plain (.map scriptedWorkflow) ∧ keptEntries 0 scriptedWorkflow = true ∧
    load (fileText (.map scriptedWorkflow)) = .ok (.map scriptedWorkflow) := by
  have plain : Plain (.map scriptedWorkflow) := by
    simp [scriptedWorkflow, Plain, PlainEntries, PlainEntry, PlainItems, Binary64.Finite, Binary64.leastExponent, Binary64.greatestExponent]
  have kept : keptEntries 0 scriptedWorkflow = true := by decide
  exact ⟨plain, kept, fileText_loads plain kept⟩

/-- A script that colours its output: a literal block cannot hold the escape character in front of a colour. -/
def colouredScript : List (Tree × Tree) := [(.text "run", .text "echo \x1B[1m\necho done")]

theorem fileText_unreadable : Plain (.map colouredScript) ∧ load (fileText (.map colouredScript)) ≠ .ok (.map colouredScript) := by
  have plain : Plain (.map colouredScript) := by
    simp [colouredScript, Plain, PlainEntries, PlainEntry]
  have unreadable : tokens? (fileText (.map colouredScript)) = none := by
    rw [tokens?, fileText, header, String.toList_append, String.toList_append, String.toList_intercalate, document, String.toList_ofList]
    decide +kernel
  refine ⟨plain, ?_⟩
  intro read
  rw [load, unreadable] at read
  cases read

end Publish

end WorkflowCompiler
