import WorkflowCompiler.Proofs.Comparison
import WorkflowCompiler.Proofs.LoadedFiles
import WorkflowCompiler.Proofs.WorkflowFaults

/-! What a check depends on. Both sides are laid out by name, and names are distinct on either, so
that neither the order of the workflows nor the way in which the files are written shows: only what
the workflows render to and what the files are read as. -/

namespace WorkflowCompiler

section

variable {make : α → Except Failure β} {fault failure : Failure} {items others : List α} {results : List β}

theorem mapM_error (failed : items.mapM make = .error failure) : ∃ item ∈ items, make item = .error failure := by
  induction items with
  | nil => cases failed
  | cons item rest ih =>
    rw [List.mapM_cons] at failed
    rcases error_of_bind failed with here | ⟨result, -, failed⟩
    · exact ⟨item, List.mem_cons_self, here⟩
    · rcases error_of_bind failed with later | ⟨results, -, done⟩
      · obtain ⟨other, member, there⟩ := ih later
        exact ⟨other, List.mem_cons_of_mem _ member, there⟩
      · cases done

theorem mapM_perm_ok (same : items.Perm others) (made : items.mapM make = .ok results) :
    ∃ more, others.mapM make = .ok more ∧ results.Perm more := by
  obtain ⟨more, paired, perm⟩ := List.perm_comp_forall₂ same.symm (forall₂_of_mapM made)
  exact ⟨more, mapM_ok paired, perm.symm⟩

/-- One list in two orders comes to the same results in two orders, or fails in the one way there
is to fail. -/
theorem mapM_perm (same : items.Perm others)
    (single : ∀ item ∈ items, ∀ failure, make item = .error failure → failure = fault) :
    (∃ results more, items.mapM make = .ok results ∧ others.mapM make = .ok more ∧ results.Perm more) ∨
      (items.mapM make = .error fault ∧ others.mapM make = .error fault) := by
  cases made : items.mapM make with
  | ok results =>
    obtain ⟨more, remade, perm⟩ := mapM_perm_ok same made
    exact .inl ⟨results, more, rfl, remade, perm⟩
  | error failure =>
    obtain ⟨item, member, fails⟩ := mapM_error made
    refine .inr ⟨by rw [single item member failure fails], ?_⟩
    cases remade : others.mapM make with
    | ok more =>
      obtain ⟨results, again, -⟩ := mapM_perm_ok same.symm remade
      rw [made] at again
      cases again
    | error failure =>
      obtain ⟨item, member, fails⟩ := mapM_error remade
      rw [single item (same.mem_iff.mpr member) failure fails]

end

namespace Publish
open Disk Store

section reading

variable {disk other : Disk} {current place : Place} {root : Path}

theorem Loads.unique {files others : List (String × Except Failure Tree)} (loads : Loads disk current root files)
    (loadsOther : Loads other current root others)
    (same : ∀ name outcome, (name, outcome) ∈ files ↔ (name, outcome) ∈ others) : files = others := by
  have irreflexive : Std.Irrefl fun first second : String × Except Failure Tree => first.1 < second.1 :=
    ⟨fun file => String.lt_irrefl file.1⟩
  have antisymmetric : Std.Antisymm fun first second : String × Except Failure Tree => first.1 < second.1 :=
    ⟨fun _ _ before after => absurd (String.lt_trans before after) (String.lt_irrefl _)⟩
  exact loads.sorted.eq_of_mem_iff loadsOther.sorted fun file => same file.1 file.2

/-- Two disks hold the same under a path, as far as a check can see: the same names with what comes of loading their files. A path
that is too long to be looked up is so on both. -/
structure SameContents (disk other : Disk) (current : Place) (root : Path) : Prop where
  refused : disk.status current root = .error .nameTooLong ↔ other.status current root = .error .nameTooLong
  files : ∀ name outcome, LoadsAs disk current root name outcome ↔ LoadsAs other current root name outcome

theorem readFiles_same (sound : disk.Sound) (soundOther : other.Sound) (same : SameContents disk other current root) :
    readFiles disk current root = readFiles other current root := by
  cases noNul : holdsNul root with
  | true => simp only [readFiles, noNul, if_true]
  | false =>
    by_cases refused : disk.status current root = .error .nameTooLong
    · simp only [readFiles, noNul, Bool.false_eq_true, if_false, isAt, refused, same.refused.mp refused]
      rfl
    · obtain ⟨files, loads, read⟩ := readFiles_loads sound noNul refused
      obtain ⟨others, loadsOther, readOther⟩ := readFiles_loads soundOther noNul (mt same.refused.mpr refused)
      have alike : files = others := loads.unique loadsOther fun name outcome => by
        rw [loads.members, loadsOther.members, same.files]
      rw [read, readOther, alike]

/-- A short path whose parts fit is never too long. -/
theorem sameContents_of_fits (short : Short root) (fits : Fits root.parts)
    (files : ∀ name outcome, LoadsAs disk current root name outcome ↔ LoadsAs other current root name outcome) :
    SameContents disk other current root where
  refused := by
    have asked (disk : Disk) : disk.status current root ≠ .error .nameTooLong := by
      intro refused
      obtain ⟨there, known⟩ : ∃ there, disk.isAt current root isDirectory = .ok there := isAt_fits short fits isDirectory
      rw [isAt, refused] at known
      cases known
    exact iff_of_false (asked disk) (asked other)
  files := files

end reading

section listing

variable {store otherStore : Store} {identities others : List Nat} {entries more : List (Value × WorkflowRecord)}

/-- What a workflow renders to, with its file name. -/
def rendering (store : Store) (identity : Nat) : Value × Except Failure WorkflowRecord :=
  ((store.workflow identity).fileName, store.renderWorkflow identity)

/-- Workflows that can all be rendered, and whose file names are texts, no two of them the same. -/
structure Publishable (renderings : List (Value × Except Failure WorkflowRecord)) : Prop where
  named : ∀ rendered ∈ renderings, rendered.1.label?.isSome
  distinct : (renderings.map fun rendered => rendered.1.chars?).Nodup
  valid : ∀ rendered ∈ renderings, ∃ record, rendered.2 = .ok record

theorem Publishable.perm {renderings others : List (Value × Except Failure WorkflowRecord)} (publishable : Publishable renderings)
    (same : others.Perm renderings) : Publishable others where
  named := fun rendered member => publishable.named rendered (same.mem_iff.mp member)
  distinct := (same.map _).nodup_iff.mpr publishable.distinct
  valid := fun rendered member => publishable.valid rendered (same.mem_iff.mp member)

/-- A record under the name of its file, as it is compared. -/
def listed (entry : Value × WorkflowRecord) : Except Failure Listed :=
  match entry.1.label? with
  | some label => (⟨label.chars, label.word, ·⟩) <$> entry.2.tree
  | none => .error (.ofCause .mistyped)

theorem listed_error {entry : Value × WorkflowRecord} {failure : Failure} (named : entry.1.label?.isSome)
    (failed : listed entry = .error failure) : failure = .ofCause .unreadable := by
  obtain ⟨label, known⟩ := Option.isSome_iff_exists.mp named
  rw [listed, known] at failed
  dsimp only at failed
  cases whole : entry.2.tree with
  | ok tree =>
    rw [whole] at failed
    cases failed
  | error fault =>
    rw [whole] at failed
    cases failed
    rw [WorkflowRecord.tree] at whole
    split at whole
    · cases whole
    · cases whole
      rfl

theorem expected_listed (store : Store) (named : ∀ entry ∈ entries, entry.1.label?.isSome) :
    expected store entries = entries.mapM listed := by
  refine mapM_congr fun entry member => ?_
  obtain ⟨name, record⟩ := entry
  obtain ⟨label, known⟩ := Option.isSome_iff_exists.mp (named _ member)
  have same : name = .ofLabel label := eq_ofLabel known
  subst same
  simp only [listed, chars?_ofLabel, wording_ofLabel, label?_ofLabel]
  cases record.tree <;> rfl

theorem keys_listed {results : List Listed} (made : entries.mapM listed = .ok results) :
    results.map (fun file => some file.key) = entries.map fun entry => entry.1.chars? := by
  have paired := forall₂_of_mapM made
  clear made
  induction paired with
  | nil => rfl
  | @cons entry file _ _ one _ ih =>
    rw [listed] at one
    split at one
    · next label known =>
      obtain ⟨tree, -, rfl⟩ := ok_of_map one
      rw [List.map_cons, List.map_cons, ih, Value.chars?, known]
      rfl
    · cases one

/-- The same records compare alike in whatever order they come, or cannot be written in either. -/
theorem expected_perm (same : entries.Perm more) (named : ∀ entry ∈ entries, entry.1.label?.isSome)
    (distinct : (entries.map fun entry => entry.1.chars?).Nodup) :
    (∃ files others, expected store entries = .ok files ∧ expected otherStore more = .ok others ∧
      comparison files = comparison others) ∨
    (expected store entries = .error (.ofCause .unreadable) ∧ expected otherStore more = .error (.ofCause .unreadable)) := by
  have namedMore : ∀ entry ∈ more, entry.1.label?.isSome := fun entry member => named entry (same.mem_iff.mpr member)
  rw [expected_listed store named, expected_listed otherStore namedMore]
  rcases mapM_perm same fun entry member failure failed => listed_error (named entry member) failed with
    ⟨files, others, made, remade, perm⟩ | failed
  · refine .inl ⟨files, others, made, remade, comparison_listed perm ?_⟩
    rw [← keys_listed made] at distinct
    exact List.Nodup.of_map some (by simpa [Function.comp_def] using distinct)
  · exact .inr failed

/-- Valid workflows under distinct file names have records, each what its workflow renders to. -/
theorem collectRecords_rendering {owners : Owners} {earlier : List Nat} (tracks : Tracks store owners earlier)
    (named : ∀ identity ∈ identities, (store.workflow identity).fileName.label?.isSome)
    (distinct : ((earlier ++ identities).map fun identity => (store.workflow identity).fileName.chars?).Nodup)
    (valid : ∀ identity ∈ identities, ∃ record, store.renderWorkflow identity = .ok record) :
    ∃ entries, collectRecords store owners (identities.map .workflow) = .ok (entries, []) ∧
      entries.map (fun entry => (entry.1, .ok entry.2)) = identities.map (rendering store) := by
  induction identities generalizing owners earlier with
  | nil => exact ⟨[], rfl, rfl⟩
  | cons identity rest ih =>
    obtain ⟨label, known⟩ := Option.isSome_iff_exists.mp (named identity List.mem_cons_self)
    have filed := eq_ofLabel known
    have isKey : (store.workflow identity).fileName.isKey = true := by rw [filed, isKey_ofLabel]
    have free : earlier.find? (fun other => (store.workflow other).fileName.chars? == some label.chars) = none := by
      refine List.find?_eq_none.mpr fun other member same => ?_
      rw [List.map_append, List.nodup_append] at distinct
      refine distinct.2.2 _ (List.mem_map_of_mem member) _ (List.mem_map_of_mem List.mem_cons_self) ?_
      rw [filed, chars?_ofLabel]
      exact beq_iff_eq.mp same
    have owned := tracks label
    rw [free, ← filed, Option.map_none] at owned
    obtain ⟨record, rendered⟩ := valid identity List.mem_cons_self
    obtain ⟨entries, collected, whole⟩ := ih (tracks.free filed) (fun other member => named other (List.mem_cons_of_mem _ member))
      (by rwa [List.append_assoc]) fun other member => valid other (List.mem_cons_of_mem _ member)
    refine ⟨((store.workflow identity).fileName, record) :: entries, ?_, ?_⟩
    · rw [List.map_cons, collectRecords_free isKey owned, rendered]
      dsimp only
      rw [collected]
      rfl
    · rw [List.map_cons, List.map_cons, whole, rendering, rendered]

theorem records_rendering (publishable : Publishable (identities.map (rendering store))) :
    ∃ entries, records store (identities.map .workflow) = .ok entries ∧
      entries.map (fun entry => (entry.1, .ok entry.2)) = identities.map (rendering store) := by
  have distinct : ((([] : List Nat) ++ identities).map fun identity => (store.workflow identity).fileName.chars?).Nodup := by
    simpa [Function.comp_def, rendering] using publishable.distinct
  obtain ⟨entries, collected, whole⟩ := collectRecords_rendering tracks_nil
    (fun identity member => publishable.named _ (List.mem_map_of_mem member)) distinct
    fun identity member => publishable.valid _ (List.mem_map_of_mem member)
  exact ⟨entries, by rw [records, collected]; rfl, whole⟩

/-- Lists of workflows that render to the same records are checked alike against directories that
read alike. -/
theorem check_same (publishable : Publishable (identities.map (rendering store)))
    (same : (others.map (rendering otherStore)).Perm (identities.map (rendering store))) {current : Place} {disk other : Disk}
    {root : Path} (read : readFiles other current root = readFiles disk current root) :
    check otherStore current other (others.map .workflow) root = check store current disk (identities.map .workflow) root := by
  obtain ⟨entries, collected, whole⟩ := records_rendering publishable
  obtain ⟨more, collectedMore, wholeMore⟩ := records_rendering (publishable.perm same)
  have injective : Function.Injective fun entry : Value × WorkflowRecord => (entry.1, (.ok entry.2 : Except Failure WorkflowRecord)) := by
    rintro ⟨name, record⟩ ⟨otherName, otherRecord⟩ alike
    obtain ⟨sameName, sameRecord⟩ := Prod.mk.inj alike
    exact Prod.ext sameName (Except.ok.inj sameRecord)
  have perm : entries.Perm more := by
    rw [← whole, ← wholeMore, List.map_perm_map_iff injective] at same
    exact same.symm
  have named : ∀ entry ∈ entries, entry.1.label?.isSome := by
    intro entry member
    refine publishable.named (entry.1, .ok entry.2) ?_
    rw [← whole]
    exact List.mem_map_of_mem (f := fun entry : Value × WorkflowRecord => (entry.1, Except.ok entry.2)) member
  have distinct : (entries.map fun entry => entry.1.chars?).Nodup := by
    have apart := publishable.distinct
    rw [← whole] at apart
    simpa [Function.comp_def] using apart
  rw [check, check, collected, collectedMore, read]
  show (expected otherStore more >>= fun files => _) = (expected store entries >>= fun files => _)
  rcases @expected_perm store otherStore entries more perm named distinct with ⟨files, listed, told, toldMore, alike⟩ | ⟨failed, failedMore⟩
  · rw [told, toldMore]
    show (readFiles disk current root >>= fun actual => pure (Diff.difference {} _ (comparison listed))) =
      (readFiles disk current root >>= fun actual => pure (Diff.difference {} _ (comparison files)))
    rw [alike]
  · rw [failed, failedMore]

/-- What a check answers depends on no more than what the workflows render to and what the files
of the directory are loaded as: in whatever order the workflows come, and however the files are
written, it is the same. -/
theorem check_order (publishable : Publishable (identities.map (rendering store))) (current : Place) (disk : Disk) (root : Path) :
    (∀ others : List Nat, others.Perm identities →
      check store current disk (others.map .workflow) root = check store current disk (identities.map .workflow) root) ∧
    ∀ (otherStore : Store) (others : List Nat) (other : Disk), (others.map (rendering otherStore)).Perm (identities.map (rendering store)) →
      disk.Sound → other.Sound → SameContents other disk current root →
      check otherStore current other (others.map .workflow) root = check store current disk (identities.map .workflow) root := by
  refine ⟨fun others same => ?_, fun otherStore others other same sound soundOther contents => ?_⟩
  · exact check_same publishable (same.map _) rfl
  · exact check_same publishable same (readFiles_same soundOther sound contents)

end listing

/-- A directory with a file of one workflow. -/
def filed (text : String) : Disk := ⟨[(["out"], .directory), (["out", "ci.yml"], .file text)]⟩

theorem filed_sound (text : String) : (filed text).Sound := by
  refine sound_of_entries (by simp [filed]) (by simp [filed]) ?_
  intro place there
  have one : place = ["out"] ∨ place = ["out", "ci.yml"] := by simpa [filed] using there
  rcases one with rfl | rfl
  · rfl
  · rfl

theorem loadsAs_filed {text name : String} {outcome : Except Failure Tree} :
    LoadsAs (filed text) [] ⟨.relative, ["out"]⟩ name outcome ↔ name = "ci.yml" ∧ outcome = Content.loaded text := by
  have out : (filed text).locate [] ⟨.relative, ["out"]⟩ = .ok ["out"] := rfl
  have short : Short (Path.child ⟨.relative, ["out"]⟩ "ci.yml") := by decide
  constructor
  · intro loads
    obtain ⟨-, place, located, there⟩ := loads.found
    rw [out] at located
    cases located
    have listed := mem_of_find (by simp) there
    have named : name = "ci.yml" := by simpa [filed] using listed
    subst named
    cases loads with
    | refused _ _ _ _ long => exact absurd short long
    | file file =>
      obtain ⟨-, place, located, found, -⟩ := file
      rw [out] at located
      cases located
      cases found
      exact ⟨rfl, rfl⟩
  · rintro ⟨rfl, rfl⟩
    exact .file ⟨rfl, ["out"], out, rfl, "ci", .inl ⟨by decide, rfl⟩⟩ short

theorem sameContents_filed {first second : String} (same : Yaml.load first = Yaml.load second) :
    SameContents (filed first) (filed second) [] ⟨.relative, ["out"]⟩ := by
  refine sameContents_of_fits (by decide) (by decide) fun name outcome => ?_
  rw [loadsAs_filed, loadsAs_filed, Content.loaded, Content.loaded, same]

/-- The name in a file that holds nothing else. -/
def nameAlone? : Tree → Option String
  | .map [(.text "name", .text name)] => some name
  | _ => none

theorem nameAlone?_eq_some {tree : Tree} {name : String} (alone : nameAlone? tree = some name) :
    tree = Tree.record [("name", .text name)] := by
  unfold nameAlone? at alone
  split at alone
  · cases alone
    rfl
  · cases alone

theorem load_of_nameAlone {text name : String} (alone : (Yaml.load text).toOption.bind nameAlone? = some name) :
    Yaml.load text = .ok (Tree.record [("name", .text name)]) := by
  obtain ⟨tree, loaded, named⟩ := Option.bind_eq_some_iff.mp alone
  rw [nameAlone?_eq_some named] at loaded
  cases read : Yaml.load text with
  | error fault =>
    rw [read] at loaded
    cases loaded
  | ok other =>
    rw [read] at loaded
    rw [Option.some.inj loaded]

theorem load_restyled : Yaml.load "# by hand\n\"name\":   'CI'   # short\n" = .ok (Tree.record [("name", .text "CI")]) := by
  have alone : (Yaml.load "# by hand\n\"name\":   'CI'   # short\n").toOption.bind nameAlone? = some "CI" := by decide +kernel
  exact load_of_nameAlone alone

def ordered : Store :=
  { workflows := [{ name := .text "CI", fileName := .text "ci" }, { name := .text "Lint", fileName := .text "lint" }] }

theorem check_order_restyled :
    Publishable ([0, 1].map (rendering ordered)) ∧
    check ordered [] (filed "# by hand\n\"name\":   'CI'   # short\n") [.workflow 1, .workflow 0] ⟨.relative, ["out"]⟩ =
      check ordered [] (filed (fileText (Tree.record [("name", .text "CI")]))) [.workflow 0, .workflow 1] ⟨.relative, ["out"]⟩ := by
  have publishable : Publishable ([0, 1].map (rendering ordered)) := by
    refine ⟨by decide, by decide, ?_⟩
    intro rendered member
    have one : rendered = rendering ordered 0 ∨ rendered = rendering ordered 1 := by simpa using member
    rcases one with rfl | rfl
    · exact ⟨_, rfl⟩
    · exact ⟨_, rfl⟩
  have styled : Yaml.load "# by hand\n\"name\":   'CI'   # short\n" = Yaml.load (fileText (Tree.record [("name", .text "CI")])) := by
    rw [load_restyled, load_ci]
  exact ⟨publishable, (check_order publishable [] (filed (fileText (Tree.record [("name", .text "CI")]))) ⟨.relative, ["out"]⟩).2
    ordered [1, 0] _ (List.Perm.swap _ _ _) (filed_sound _) (filed_sound _) (sameContents_filed styled)⟩

end Publish

end WorkflowCompiler
