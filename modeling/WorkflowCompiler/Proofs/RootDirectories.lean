import WorkflowCompiler.Proofs.FileAddresses

/-! The directory of workflow files. It is found from any argument and setting without NUL and without a host:
as it is if it is absolute, else resolved below the current directory. What has been found resolves to itself. Where nothing is
given, the version control is asked, and a failure to run it is the failure to find the directory. -/

namespace WorkflowCompiler

namespace Address

theorem eq_zero_of_hexDigit? {c : Char} (found : hexDigit? c = some 0) : c = '0' := by
  unfold hexDigit? at found
  split at found
  next digit =>
    have nothing : c.toNat - '0'.toNat = 0 := Option.some.inj found
    simp only [Char.isDigit, Bool.and_eq_true, decide_eq_true_eq] at digit
    have least : '0'.toNat ≤ c.toNat := digit.1
    exact Char.toNat_inj.mp (by omega)
  · split at found
    · simp at found
    · split at found
      · simp at found
      · cases found

/-- Without NUL and without an escape for it, a text is read without NUL. -/
theorem nul_not_mem_unescapeFrom {text : List Char} (clean : '\x00' ∉ text) (unescaped : ¬ ['%', '0', '0'] <:+: text)
    {before : List Nat} (filled : 0 ∉ before) : '\x00' ∉ unescapeFrom before text := by
  have read {bytes : List Nat} (filled : 0 ∉ bytes) : '\x00' ∉ Text.decodeUtf8 bytes.reverse :=
    Text.nul_not_mem_decodeFrom (by simpa using filled) none trivial
  have code {c : Char} (other : c ≠ '\x00') : 0 ≠ c.toNat := fun same => other (Char.toNat_inj.mp same.symm)
  have shorter (lead : List Char) {rest : List Char} (unescaped : ¬ ['%', '0', '0'] <:+: lead ++ rest) : ¬ ['%', '0', '0'] <:+: rest :=
    fun inside => unescaped (inside.trans (List.suffix_append lead rest).isInfix)
  fun_induction unescapeFrom before text with
  | case1 before => exact read filled
  | case2 before high low rest upper lower foundUpper foundLower ih =>
    refine ih (fun member => clean (by simp [member])) (shorter ['%', high, low] unescaped) fun member => ?_
    rcases List.mem_cons.mp member with nothing | old
    · obtain rfl : upper = 0 := by omega
      obtain rfl : lower = 0 := by omega
      obtain rfl := eq_zero_of_hexDigit? foundUpper
      obtain rfl := eq_zero_of_hexDigit? foundLower
      exact unescaped (List.prefix_append ['%', '0', '0'] rest).isInfix
    · exact filled old
  | case3 before high low rest _ ih =>
    refine ih (fun member => clean (by simp [member])) (shorter ['%'] unescaped) fun member => ?_
    rcases List.mem_cons.mp member with nothing | old
    · cases nothing
    · exact filled old
  | case4 before c rest _ single ih =>
    obtain ⟨other, clean⟩ := List.ne_and_not_mem_of_not_mem_cons clean
    refine ih clean (shorter [c] unescaped) fun member => ?_
    rcases List.mem_cons.mp member with nothing | old
    · exact code other.symm nothing
    · exact filled old
  | case5 before c rest _ several ih =>
    obtain ⟨other, clean⟩ := List.ne_and_not_mem_of_not_mem_cons clean
    have later := ih clean (shorter [c] unescaped) (List.not_mem_nil)
    simp [read filled, later, other]

/-- A text between whose first sign and next one there is nothing has no host. -/
theorem splitHost_hostless {location : List Char} (hostless : ['/', '/'] <+: location → ['/', '/', '/'] <+: location) :
    ∃ rest, splitHost location = ([], rest) ∧ rest <:+ location := by
  unfold splitHost
  split
  next rest =>
    obtain ⟨later, same⟩ := hostless (List.prefix_append ['/', '/'] rest)
    have shape : rest = '/' :: later := by simpa using same.symm
    subst shape
    exact ⟨'/' :: later, rfl, ⟨['/', '/'], rfl⟩⟩
  · exact ⟨location, rfl, List.suffix_rfl⟩

end Address

/-- The text has no NUL; an address has none as an escape either, and no host. Tabs and line breaks do not
count in an address. -/
def Resolvable (text : String) : Prop :=
  '\x00' ∉ text.toList ∧ (Address.isFileAddress text →
    ¬ ['%', '0', '0'] <:+: Address.location text ∧ (['/', '/'] <+: Address.location text → ['/', '/', '/'] <+: Address.location text))

/-- The address names a path without NUL. -/
theorem Resolvable.pathText {text : String} (resolvable : Resolvable text) (address : Address.isFileAddress text) :
    ∃ named, Address.pathText text = .ok named ∧ '\x00' ∉ named.toList := by
  obtain ⟨clean, inAddress⟩ := resolvable
  obtain ⟨unescaped, hostless⟩ := inAddress address
  obtain ⟨rest, split, behind⟩ := Address.splitHost_hostless hostless
  let path := rest.takeWhile fun c => !(c == '#' || c == '?')
  have inside : path <:+: Address.location text := (List.takeWhile_prefix _).isInfix.trans behind.isInfix
  refine ⟨String.ofList (Address.unescape path), ?_, ?_⟩
  · simp only [Address.pathText, split]
    rfl
  · rw [String.toList_ofList]
    refine Address.nul_not_mem_unescapeFrom (fun member => clean ?_) (fun escaped => unescaped (escaped.trans inside)) List.not_mem_nil
    exact List.drop_subset _ _ (List.mem_of_mem_filter (inside.subset member))

theorem holdsNul_ofText {text : String} (clean : '\x00' ∉ text.toList) : Disk.holdsNul (Path.ofText text) = false := by
  rw [Disk.holdsNul, List.any_eq_false]
  intro part member holds
  exact clean ((Path.mem_parts_ofText member).2 _ (List.contains_iff_mem.mp holds)).1

/-- What is given for the directory of workflow files. -/
inductive RootArgument
  | none
  | path (path : Path)
  | text (text : String)

/-- A path as it is made from a text, without NUL; any text that can be resolved. -/
def RootArgument.Resolvable : RootArgument → Prop
  | .none => True
  | .path given => given.Normal ∧ Disk.holdsNul given = false
  | .text given => WorkflowCompiler.Resolvable given

namespace Surroundings

/-- The current directory is one, the setting can be resolved, and what the version control prints is an
absolute path. -/
structure Orderly (surroundings : Surroundings) : Prop where
  current : surroundings.currentPath.Normal
  setting : ∀ setting ∈ surroundings.rootSetting, Resolvable setting
  repository : ∀ text, surroundings.repository = .printed text → text.toList.head? = some '/'

variable {surroundings : Surroundings}

theorem trim_slash (rest : List Char) : ∃ more, Text.trim ('/' :: rest) = '/' :: more := by
  have visible : ['/'].dropWhile Text.isBlank = ['/'] := by decide
  have start : ('/' :: rest).dropWhile Text.isBlank = '/' :: rest := List.dropWhile_cons_of_neg (by decide)
  refine ⟨(rest.reverse.dropWhile Text.isBlank).reverse, ?_⟩
  rw [Text.trim, start, List.reverse_cons, List.dropWhile_append, visible]
  split
  next nothing => simp [List.isEmpty_iff.mp nothing]
  · simp

/-- There is a base unless the version control could not be run, and it is an absolute path. -/
theorem base_orderly (orderly : surroundings.Orderly) :
    (∃ failure, surroundings.repository = .failed failure ∧ surroundings.base = .error failure) ∨
      ∃ base, surroundings.base = .ok base ∧ base.isAbsolute ∧ base.Normal := by
  unfold base repositoryPath?
  cases answer : surroundings.repository with
  | failed failure => exact .inl ⟨failure, rfl, rfl⟩
  | none => exact .inr ⟨_, rfl, rfl, orderly.current⟩
  | printed text =>
    refine .inr ⟨_, rfl, ?_, Path.normal_ofText _⟩
    have slash := orderly.repository text answer
    cases chars : text.toList with
    | nil => simp [chars] at slash
    | cons c rest =>
      obtain rfl : c = '/' := by simpa [chars] using slash
      obtain ⟨more, trimmed⟩ := trim_slash (Text.plainBreaks rest)
      have plain : Text.plainBreaks ('/' :: rest) = '/' :: Text.plainBreaks rest := by simp [Text.plainBreaks]
      simp only [Option.getD_some, plain, trimmed, Path.isAbsolute, Path.ofText, String.toList_ofList]
      unfold Path.rootOf
      split <;> simp_all

end Surroundings

namespace Publish

/-- Resolves what is given, as it is given. -/
def resolveArgument (surroundings : Surroundings) : RootArgument → Except Failure Path
  | .none => resolveRoot surroundings none
  | .path given => resolvePath surroundings given
  | .text given => resolveRoot surroundings (some given)

/-- The path that a text names. -/
def pathNamed (text : String) : Except Failure Path :=
  if Address.isFileAddress text then Path.ofText <$> Address.pathText text else .ok (Path.ofText text)

/-- The path that is meant: where none is given that of the setting, and without a setting the usual one. -/
def pathMeant (surroundings : Surroundings) : RootArgument → Except Failure Path
  | .none =>
    match rootSetting? surroundings with
    | some setting => pathNamed setting
    | none => surroundings.base.map (·.join workflowsPlace)
  | .path given => .ok given
  | .text given => pathNamed given

/-- Nothing is given, and the version control, which is asked then, cannot be run. -/
structure AsksInVain (surroundings : Surroundings) (argument : RootArgument) (failure : Failure) : Prop where
  argument : argument = .none
  setting : rootSetting? surroundings = none
  failed : surroundings.repository = .failed failure

section

variable {surroundings : Surroundings}

theorem AsksInVain.fails {argument : RootArgument} {failure : Failure} (vain : AsksInVain surroundings argument failure) :
    resolveArgument surroundings argument = .error failure := by
  obtain ⟨rfl, unset, failed⟩ := vain
  simp only [resolveArgument, resolveRoot, unset, Surroundings.base, Surroundings.repositoryPath?, failed]
  rfl

theorem pathNamed_resolvable {text : String} (resolvable : Resolvable text) :
    ∃ path, pathNamed text = .ok path ∧ resolveText surroundings text = resolvePath surroundings path ∧
      path.Normal ∧ Disk.holdsNul path = false := by
  unfold pathNamed resolveText
  split
  next address =>
    obtain ⟨named, read, clean⟩ := resolvable.pathText address
    exact ⟨Path.ofText named, by rw [read]; rfl, by rw [read]; rfl, Path.normal_ofText named, holdsNul_ofText clean⟩
  · exact ⟨Path.ofText text, rfl, rfl, Path.normal_ofText text, holdsNul_ofText resolvable.1⟩

/-- Whatever is given, a path is meant, and that path is resolved. -/
theorem pathMeant_resolvable (orderly : surroundings.Orderly) {argument : RootArgument} (resolvable : argument.Resolvable)
    (answered : ∀ failure, ¬ AsksInVain surroundings argument failure) :
    ∃ path, pathMeant surroundings argument = .ok path ∧ path.Normal ∧
      resolveArgument surroundings argument = resolvePath surroundings path ∧
      (path.isAbsolute = false → Disk.holdsNul path = false) := by
  cases argument with
  | path given => exact ⟨given, rfl, resolvable.1, rfl, fun _ => resolvable.2⟩
  | text given =>
    obtain ⟨path, named, same, normal, clean⟩ := pathNamed_resolvable resolvable
    exact ⟨path, named, normal, same, fun _ => clean⟩
  | none =>
    unfold pathMeant resolveArgument resolveRoot
    cases inForce : rootSetting? surroundings with
    | some setting =>
      have set : setting ∈ surroundings.rootSetting := (Option.filter_eq_some_iff.mp inForce).1
      obtain ⟨path, named, same, normal, clean⟩ := pathNamed_resolvable (orderly.setting setting set)
      exact ⟨path, named, normal, same, fun _ => clean⟩
    | none =>
      rcases Surroundings.base_orderly orderly with ⟨failure, failed, -⟩ | ⟨base, found, absolute, normal⟩
      · exact absurd ⟨rfl, inForce, failed⟩ (answered failure)
      · have joined : (base.join workflowsPlace).isAbsolute := Path.isAbsolute_join absolute
        refine ⟨base.join workflowsPlace, by rw [found]; rfl, Path.normal_join normal (Path.normal_ofText _), ?_, ?_⟩
        · rw [resolvePath, if_pos joined]
          simp only [found]
          rfl
        · simp [joined]

theorem resolvePath_absolute {path : Path} (absolute : path.isAbsolute) : resolvePath surroundings path = .ok path := by
  rw [resolvePath, if_pos absolute]

/-- An absolute path is found again from its text. -/
theorem resolveText_text {path : Path} (normal : path.Normal) (absolute : path.isAbsolute) :
    resolveText surroundings path.text = .ok path := by
  rw [resolveText, Address.isFileAddress_text absolute, if_neg (by simp), Path.ofText_text normal, resolvePath_absolute absolute]

/-- What is given resolves to an absolute path, which resolves to itself: the path that is meant if it is
absolute, else the one in the current directory, without any component that stays or leads up. Only a version control that
cannot be run, if it has to be asked, keeps the directory from being found. -/
theorem resolveArgument_settles (orderly : surroundings.Orderly) {argument : RootArgument} (resolvable : argument.Resolvable) :
    (∀ failure, AsksInVain surroundings argument failure → resolveArgument surroundings argument = .error failure) ∧
    ((∀ failure, ¬ AsksInVain surroundings argument failure) →
      ∃ meant resolved, pathMeant surroundings argument = .ok meant ∧ resolveArgument surroundings argument = .ok resolved ∧
        resolved.isAbsolute ∧
        resolveArgument surroundings (.path resolved) = .ok resolved ∧
        resolveArgument surroundings (.text resolved.text) = .ok resolved ∧
        (meant.isAbsolute → resolved = meant) ∧
        (meant.isAbsolute = false → resolved = (surroundings.currentPath.join meant).resolved ∧
          ∀ part ∈ resolved.parts, part ≠ "." ∧ part ≠ "..")) := by
  refine ⟨fun failure vain => vain.fails, fun answered => ?_⟩
  obtain ⟨meant, isMeant, normal, same, clean⟩ := pathMeant_resolvable orderly resolvable answered
  have settled {resolved : Path} (normal : resolved.Normal) (absolute : resolved.isAbsolute) :
      resolveArgument surroundings (.path resolved) = .ok resolved ∧
      resolveArgument surroundings (.text resolved.text) = .ok resolved :=
    ⟨resolvePath_absolute absolute, resolveText_text normal absolute⟩
  cases absolute : meant.isAbsolute with
  | true =>
    obtain ⟨asPath, asText⟩ := settled normal absolute
    exact ⟨meant, meant, isMeant, same.trans (resolvePath_absolute absolute), absolute, asPath, asText, fun _ => rfl, by simp [absolute]⟩
  | false =>
    have joined : (surroundings.currentPath.join meant).isAbsolute := Path.isAbsolute_join rfl
    have normalResolved := Path.normal_resolved (Path.normal_join orderly.current normal)
    have found : resolvePath surroundings meant = .ok (surroundings.currentPath.join meant).resolved := by
      rw [resolvePath, absolute, clean absolute]
      rfl
    obtain ⟨asPath, asText⟩ := settled normalResolved joined
    refine ⟨meant, _, isMeant, same.trans found, joined, asPath, asText, by simp [absolute], fun _ => ⟨rfl, fun part member => ⟨?_, ?_⟩⟩⟩
    · rintro rfl
      exact absurd (normalResolved _ member).1 (by decide)
    · rintro rfl
      exact Path.not_mem_parts_resolved _ member

end

/-- A setting that names a place below the current directory, in a repository. -/
def settingBelow : Surroundings :=
  { current := ["work", "repo"], rootSetting := some "file:a%20b/../c", repository := .printed "/work\n" }

theorem resolveArgument_settles_setting :
    settingBelow.Orderly ∧ RootArgument.none.Resolvable ∧
    resolveArgument settingBelow .none = .ok ⟨.single, ["work", "repo", "c"]⟩ ∧
    resolveArgument settingBelow (.text (Path.text ⟨.single, ["work", "repo", "c"]⟩)) = .ok ⟨.single, ["work", "repo", "c"]⟩ := by
  have orderly : settingBelow.Orderly := {
    current := by decide
    setting := by
      rintro _ ⟨⟩
      exact ⟨by decide, fun _ => ⟨by decide, by decide⟩⟩
    repository := by
      rintro _ ⟨⟩
      decide }
  have resolvable : RootArgument.none.Resolvable := trivial
  have answered : ∀ failure, ¬ AsksInVain settingBelow .none failure := fun failure vain => nomatch vain.failed
  obtain ⟨meant, resolved, isMeant, found, -, -, again, -, below⟩ := (resolveArgument_settles orderly resolvable).2 answered
  have named : pathMeant settingBelow .none = .ok ⟨.relative, ["a b", "..", "c"]⟩ := by
    cbv
  cases Except.ok.inj (named.symm.trans isMeant)
  obtain ⟨rfl, -⟩ := below rfl
  exact ⟨orderly, resolvable, found, again⟩

/-- The broken line joins to an escape for NUL, and to a host whose bracket is not closed, though neither stands
in the address as it is given. And what the version control prints may be no text. -/
theorem resolveRoot_broken_lines :
    ('\x00' ∉ "file:%0\n0".toList ∧ ¬ ['%', '0', '0'] <:+: "file:%0\n0".toList ∧
      ¬ ['/', '/'] <+: "file:%0\n0".toList.drop 5 ∧
      resolveRoot { current := ["work"] } (some "file:%0\n0") = .error (.ofCause .nulInPath) ∧
      Cause.nulInPath.message = "embedded null byte") ∧
    ('\x00' ∉ "file:/\n/[x".toList ∧ ¬ ['%', '0', '0'] <:+: "file:/\n/[x".toList ∧
      ¬ ['/', '/'] <+: "file:/\n/[x".toList.drop 5 ∧
      resolveRoot { current := ["work"] } (some "file:/\n/[x") = .error (.ofCause .unbalancedHost)) ∧
    resolveRoot { current := ["work"], repository := .failed (.ofCause .undecodable) } none = .error (.ofCause .undecodable) :=
  ⟨⟨by decide, by decide, by decide, by cbv, rfl⟩,
    ⟨by decide, by decide, by decide, by cbv⟩, rfl⟩

end Publish

end WorkflowCompiler
