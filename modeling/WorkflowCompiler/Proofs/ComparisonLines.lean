import WorkflowCompiler.Proofs.Comparison

/-! The comparison text line by line. A line that starts a file cannot be told from one that a file
holds, but titles can be counted: where the texts are the same there is room for no further start. -/

namespace WorkflowCompiler.Publish

section blocks

variable {α : Type} {begins titles : α → Bool}

/-- The lines of files, each with the line that it starts with. -/
def flattened (blocks : List (α × List α)) : List α := blocks.flatMap fun block => block.1 :: block.2

theorem countP_flattened (counts : α → Bool) (blocks : List (α × List α)) :
    (flattened blocks).countP counts =
      blocks.countP (fun block => counts block.1) + (blocks.map fun block => block.2.countP counts).sum := by
  induction blocks with
  | nil => rfl
  | cons block blocks ih =>
    rw [flattened, List.flatMap_cons, List.countP_append, ← flattened, ih, List.countP_cons, List.countP_cons, List.map_cons,
      List.sum_cons]
    omega

/-- Lines that start nothing end where the next block starts. -/
theorem body_of_flattened {body : List α} {blocks : List (α × List α)} (clean : ∀ line ∈ body, begins line = false)
    (heads : ∀ block ∈ blocks, begins block.1 = true) :
    (body ++ flattened blocks).takeWhile (!begins ·) = body ∧
      (body ++ flattened blocks).dropWhile (!begins ·) = flattened blocks := by
  have rest : (flattened blocks).takeWhile (!begins ·) = [] ∧
      (flattened blocks).dropWhile (!begins ·) = flattened blocks := by
    cases blocks with
    | nil => exact ⟨rfl, rfl⟩
    | cons block blocks =>
      have first := heads block List.mem_cons_self
      simp [flattened, first]
  have inside : ∀ line ∈ body, (!begins line) = true := fun line member => by simp [clean line member]
  rw [List.takeWhile_append_of_pos inside, List.dropWhile_append_of_pos inside, rest.1, rest.2]
  exact ⟨List.append_nil body, rfl⟩

/-- Where every block starts is known from the lines, so the lines are those of one list of blocks. -/
theorem flattened_inj {first second : List (α × List α)}
    (heads : ∀ block ∈ first ++ second, begins block.1 = true)
    (clean : ∀ block ∈ first ++ second, ∀ line ∈ block.2, begins line = false)
    (same : flattened first = flattened second) : first = second := by
  induction first generalizing second with
  | nil =>
    cases second with
    | nil => rfl
    | cons block blocks => cases same
  | cons block blocks ih =>
    cases second with
    | nil => cases same
    | cons other others =>
      obtain ⟨head, body⟩ := block
      obtain ⟨otherHead, otherBody⟩ := other
      simp only [flattened, List.flatMap_cons, List.cons_append, List.cons.injEq] at same
      obtain ⟨rfl, bodies⟩ := same
      have left := @body_of_flattened _ begins body blocks (clean (head, body) List.mem_cons_self)
        fun block member => heads block (by simp [member])
      have right := @body_of_flattened _ begins otherBody others (clean (head, otherBody) (by simp))
        fun block member => heads block (by simp [member])
      rw [← flattened, ← flattened] at bodies
      rw [bodies] at left
      have sameBody : body = otherBody := left.1.symm.trans right.1
      have sameRest : flattened blocks = flattened others := left.2.symm.trans right.2
      rw [sameBody, ih (fun block member => heads block ?_) (fun block member => clean block ?_) sameRest]
      · rcases List.mem_append.mp member with inside | inside <;> simp [inside]
      · rcases List.mem_append.mp member with inside | inside <;> simp [inside]

theorem countP_length {blocks : List (α × List α)} {counts : α → Bool} (all : ∀ block ∈ blocks, counts block.1 = true) :
    blocks.countP (fun block => counts block.1) = blocks.length :=
  List.countP_eq_length.mpr all

theorem countP_zero {blocks : List (α × List α)} {counts : α → Bool} (none : ∀ block ∈ blocks, counts block.1 = false) :
    blocks.countP (fun block => counts block.1) = 0 :=
  List.countP_eq_zero.mpr fun block member => by simp [none block member]

/-- Files that have a title each and no line that starts a file are told from files that have at
most one title each, whatever else these hold. -/
theorem blocks_eq {expected actual : List (α × List α)}
    (heads : ∀ block ∈ expected ++ actual, begins block.1 = true ∧ titles block.1 = false)
    (clean : ∀ block ∈ expected, ∀ line ∈ block.2, begins line = false)
    (titled : ∀ block ∈ expected, 1 ≤ block.2.countP titles) (single : ∀ block ∈ actual, block.2.countP titles ≤ 1)
    (same : flattened expected = flattened actual) : expected = actual := by
  have left : ∀ block ∈ expected, begins block.1 = true ∧ titles block.1 = false :=
    fun block member => heads block (List.mem_append_left _ member)
  have right : ∀ block ∈ actual, begins block.1 = true ∧ titles block.1 = false :=
    fun block member => heads block (List.mem_append_right _ member)
  have starts := congrArg (List.countP begins) same
  rw [countP_flattened, countP_flattened, countP_length fun block member => (left block member).1,
    countP_length fun block member => (right block member).1] at starts
  have headings := congrArg (List.countP titles) same
  rw [countP_flattened, countP_flattened, countP_zero fun block member => (left block member).2,
    countP_zero fun block member => (right block member).2] at headings
  have noStarts : (expected.map fun block => block.2.countP begins).sum = 0 := by
    rw [List.sum_eq_zero_iff_forall_eq_nat]
    intro count member
    obtain ⟨block, inside, rfl⟩ := List.mem_map.mp member
    exact List.countP_eq_zero.mpr fun line there => by simp [clean block inside line there]
  have atLeast : expected.length ≤ (expected.map fun block => block.2.countP titles).sum := by
    have least := List.card_nsmul_le_sum (expected.map fun block => block.2.countP titles) 1
      (List.forall_mem_map.mpr titled)
    simpa using least
  have atMost : (actual.map fun block => block.2.countP titles).sum ≤ actual.length := by
    have most := List.sum_le_card_nsmul (actual.map fun block => block.2.countP titles) 1
      (List.forall_mem_map.mpr single)
    simpa using most
  have none : (actual.map fun block => block.2.countP begins).sum = 0 := by omega
  refine flattened_inj (fun block member => (heads block member).1) ?_ same
  intro block member line inside
  rcases List.mem_append.mp member with expecting | found
  · exact clean block expecting line inside
  · have zero := List.sum_eq_zero_iff_forall_eq_nat.mp none _ (List.mem_map_of_mem found)
    simpa using List.countP_eq_zero.mp zero line inside

end blocks

/-- The lines of a text, the last of them being what follows its last line feed. -/
def linesOf (text : String) : List (List Char) := text.toList.splitOn '\n'

theorem linesOf_inj {first second : String} (same : linesOf first = linesOf second) : first = second := by
  have chars := congrArg ['\n'].intercalate same
  rw [linesOf, linesOf, List.intercalate_splitOn, List.intercalate_splitOn] at chars
  exact String.toList_inj.mp chars

theorem linesOf_cons {line : String} (single : '\n' ∉ line.toList) (text : String) :
    linesOf (line ++ "\n" ++ text) = line.toList :: linesOf text := by
  have shape : (line ++ "\n" ++ text).toList = line.toList ++ '\n' :: text.toList := by simp
  rw [linesOf, shape, List.splitOn_append_cons_self_of_not_mem single]
  rfl

/-- Between two texts that are a blank line apart. -/
theorem linesOf_apart (first second : String) :
    linesOf (first ++ "\n\n" ++ second) = linesOf first ++ [[]] ++ linesOf second := by
  have shape : (first ++ "\n\n" ++ second).toList = first.toList ++ '\n' :: ([] ++ '\n' :: second.toList) := by simp
  rw [linesOf, shape, List.splitOn_append_cons_self, List.splitOn_append_cons_self_of_not_mem (by simp)]
  simp [linesOf]

theorem linesOf_intercalate (text : String) (texts : List String) :
    linesOf ("\n\n".intercalate (text :: texts)) ++ [[]] = (text :: texts).flatMap fun text => linesOf text ++ [[]] := by
  induction texts generalizing text with
  | nil => simp
  | cons other texts ih =>
    rw [String.intercalate_cons_cons, linesOf_apart, List.append_assoc, ih other]
    rfl

/-- Whether a line could be the first of a file. -/
def isFileLine (line : List Char) : Bool := "File:".toList.isPrefixOf line

/-- Whether a line could give the name of a workflow. -/
def isTitleLine (line : List Char) : Bool := "name:".toList.isPrefixOf line

def fileLine (name : String) : List Char := ("File: " ++ name ++ fileExtension).toList

/-- The lines of a file, with the blank line that keeps it apart from the next. -/
def block (file : String × Tree) : List Char × List (List Char) := (fileLine file.1, linesOf (Yaml.document file.2) ++ [[]])

theorem isFileLine_fileLine (name : String) : isFileLine (fileLine name) = true := by
  simp [isFileLine, fileLine]

theorem isTitleLine_fileLine (name : String) : isTitleLine (fileLine name) = false := by
  have shape : fileLine name = 'F' :: ("ile: " ++ name ++ fileExtension).toList := by simp [fileLine]
  rw [isTitleLine, shape]
  rfl

theorem block_inj {file other : String × Tree} (same : block file = block other) :
    file.1 = other.1 ∧ Yaml.document file.2 = Yaml.document other.2 := by
  obtain ⟨heads, bodies⟩ := Prod.mk.inj same
  constructor
  · have chars : file.1.toList = other.1.toList := by simpa [fileLine] using heads
    exact String.toList_inj.mp chars
  · exact linesOf_inj (List.append_cancel_right bodies)

section

variable {files actual ordered : List (String × Tree)}

theorem linesOf_text {file : String × Tree} (single : '\n' ∉ file.1.toList) :
    linesOf (Listed.ofFile file).text = fileLine file.1 :: linesOf (Yaml.document file.2) := by
  apply linesOf_cons
  simpa [Listed.ofFile, fileExtension] using single

theorem linesOf_comparison (filled : ordered ≠ []) (single : ∀ file ∈ ordered, '\n' ∉ file.1.toList) :
    linesOf ("\n\n".intercalate (ordered.map fun file => (Listed.ofFile file).text)) ++ [[]] =
      flattened (ordered.map block) := by
  obtain ⟨first, rest, rfl⟩ := List.exists_cons_of_ne_nil filled
  have lines : linesOf ("\n\n".intercalate ((first :: rest).map fun file => (Listed.ofFile file).text)) ++ [[]] =
      ((first :: rest).map fun file => (Listed.ofFile file).text).flatMap fun text => linesOf text ++ [[]] :=
    linesOf_intercalate _ _
  rw [lines, flattened, List.flatMap_map, List.flatMap_map]
  apply List.flatMap_congr
  intro file member
  rw [linesOf_text (single file member)]
  rfl

theorem comparison_ordered (files : List (String × Tree)) :
    ∃ ordered : List (String × Tree), ordered.Perm files ∧
      comparison (files.map Listed.ofFile) = "\n\n".intercalate (ordered.map fun file => (Listed.ofFile file).text) := by
  obtain ⟨ordered, perm, sorted⟩ := exists_perm_of_map (List.mergeSort_perm (files.map Listed.ofFile) Listed.precedes)
  refine ⟨ordered, perm, ?_⟩
  rw [comparison, sorted, List.map_map]
  rfl

theorem intercalate_texts_eq_empty :
    "\n\n".intercalate (ordered.map fun file => (Listed.ofFile file).text) = "" ↔ ordered = [] := by
  constructor
  · intro empty
    cases ordered with
    | nil => rfl
    | cons file rest => exact absurd empty (intercalate_ne_empty (by simp [Listed.text]))
  · rintro rfl
    rfl

/-- What is taken for granted of the texts of trees: that they differ if the trees do, and which
lines start with `name:` or `File:`. -/
structure Faithful (trees : List Tree) : Prop where
  distinct : ∀ first ∈ trees, ∀ second ∈ trees, Yaml.document first = Yaml.document second → first = second
  single : ∀ entries, .map entries ∈ trees → (linesOf (Yaml.document (.map entries))).countP isTitleLine ≤ 1
  titled : ∀ value entries, .map ((.text "name", value) :: entries) ∈ trees →
    ∃ line more, linesOf (Yaml.document (.map ((.text "name", value) :: entries))) = line :: more ∧ isTitleLine line = true
  headed : ∀ entries, .map entries ∈ trees → ∀ line ∈ linesOf (Yaml.document (.map entries)), isFileLine line = true →
    ∃ value, (.text "File", value) ∈ entries

/-- A mapping that has its name first and nothing under `File`. -/
def Titled (tree : Tree) : Prop :=
  ∃ value entries, tree = .map ((.text "name", value) :: entries) ∧ ∀ other, (.text "File", other) ∉ entries

section

variable {trees : List Tree} {file : String × Tree}

theorem Faithful.noFileLine (faithful : Faithful trees) (member : file.2 ∈ trees) (titled : Titled file.2) :
    ∀ line ∈ (block file).2, isFileLine line = false := by
  obtain ⟨value, entries, shape, without⟩ := titled
  intro line inside
  rcases List.mem_append.mp inside with written | blank
  · by_contra starts
    rw [shape] at member written
    obtain ⟨other, held⟩ := faithful.headed _ member line written (Bool.not_eq_false _ ▸ starts)
    rcases List.mem_cons.mp held with first | later
    · simp at first
    · exact without other later
  · rw [List.mem_singleton.mp blank]
    rfl

theorem Faithful.title (faithful : Faithful trees) (member : file.2 ∈ trees) (titled : Titled file.2) :
    1 ≤ (block file).2.countP isTitleLine := by
  obtain ⟨value, entries, shape, -⟩ := titled
  rw [shape] at member
  obtain ⟨line, more, lines, title⟩ := faithful.titled value entries member
  rw [block, shape, lines, List.cons_append, List.countP_cons_of_pos title]
  omega

theorem Faithful.noSecondTitle (faithful : Faithful trees) (member : file.2 ∈ trees) {entries : List (Tree × Tree)}
    (shape : file.2 = .map entries) : (block file).2.countP isTitleLine ≤ 1 := by
  have most := faithful.single entries (by rwa [← shape])
  rw [block, List.countP_append, shape]
  exact most

end

theorem eq_of_map_eq {α β : Type} {make : α → β} {first second : List α}
    (apart : ∀ item ∈ first, ∀ other ∈ second, make item = make other → item = other)
    (same : first.map make = second.map make) : first = second := by
  induction first generalizing second with
  | nil => exact (List.map_eq_nil_iff.mp same.symm).symm
  | cons item first ih =>
    cases second with
    | nil => cases same
    | cons other second =>
      obtain ⟨head, tail⟩ := List.cons.inj same
      rw [apart item List.mem_cons_self other List.mem_cons_self head,
        ih (fun item member other there => apart item (List.mem_cons_of_mem _ member) other (List.mem_cons_of_mem _ there)) tail]

/-- Files that compare like those of workflows are the same files. -/
theorem comparison_inj (faithful : Faithful ((files ++ actual).map Prod.snd)) (titled : ∀ file ∈ files, Titled file.2)
    (mappings : ∀ file ∈ actual, ∃ entries, file.2 = .map entries)
    (single : ∀ file ∈ files ++ actual, '\n' ∉ file.1.toList)
    (same : comparison (actual.map Listed.ofFile) = comparison (files.map Listed.ofFile)) : actual.Perm files := by
  obtain ⟨expected, permFiles, left⟩ := comparison_ordered files
  obtain ⟨found, permActual, right⟩ := comparison_ordered actual
  rw [left, right] at same
  have inFiles : ∀ file ∈ expected, file ∈ files := fun file member => permFiles.mem_iff.mp member
  have inActual : ∀ file ∈ found, file ∈ actual := fun file member => permActual.mem_iff.mp member
  have inTrees : ∀ file ∈ expected ++ found, file.2 ∈ (files ++ actual).map Prod.snd := by
    intro file member
    apply List.mem_map_of_mem
    rcases List.mem_append.mp member with inside | inside
    · exact List.mem_append_left _ (inFiles file inside)
    · exact List.mem_append_right _ (inActual file inside)
  have equal : expected = found := by
    by_cases empty : expected = []
    · rw [intercalate_texts_eq_empty.mpr empty, intercalate_texts_eq_empty] at same
      rw [empty, same]
    have filled : found ≠ [] := by
      intro none
      exact empty (intercalate_texts_eq_empty.mp (same.symm.trans (intercalate_texts_eq_empty.mpr none)))
    have lines := congrArg (fun text => linesOf text ++ [[]]) same
    rw [linesOf_comparison empty fun file member => single file (List.mem_append_left _ (inFiles file member)),
      linesOf_comparison filled fun file member => single file (List.mem_append_right _ (inActual file member))] at lines
    have blocks : expected.map block = found.map block := by
      refine @blocks_eq _ isFileLine isTitleLine _ _ ?_ ?_ ?_ ?_ lines.symm
      · rw [← List.map_append, List.forall_mem_map]
        exact fun file _ => ⟨isFileLine_fileLine file.1, isTitleLine_fileLine file.1⟩
      · exact List.forall_mem_map.mpr fun file member =>
          faithful.noFileLine (inTrees file (List.mem_append_left _ member)) (titled file (inFiles file member))
      · exact List.forall_mem_map.mpr fun file member =>
          faithful.title (inTrees file (List.mem_append_left _ member)) (titled file (inFiles file member))
      · refine List.forall_mem_map.mpr fun file member => ?_
        obtain ⟨entries, shape⟩ := mappings file (inActual file member)
        exact faithful.noSecondTitle (inTrees file (List.mem_append_right _ member)) shape
    refine eq_of_map_eq (fun file member other there alike => ?_) blocks
    obtain ⟨names, documents⟩ := block_inj alike
    exact Prod.ext names (faithful.distinct _ (inTrees file (List.mem_append_left _ member)) _
      (inTrees other (List.mem_append_right _ there)) documents)
  rw [equal] at permFiles
  exact permActual.symm.trans permFiles

end

end WorkflowCompiler.Publish
