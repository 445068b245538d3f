import WorkflowCompiler.Proofs.SoundCalls
import WorkflowCompiler.Proofs.SpelledMethods

/-! Programs and their spelled copies. What a recipe, a call or a statement reads as text is
collected along its run. As long as it shows no member, the two runs keep to workspaces of which one
spells out the other. -/

namespace WorkflowCompiler

def Statement.spelled : Statement → Statement
  | .assign name recipe => .assign name recipe.spelled
  | .call name method arguments => .call name method (Recipe.spelledAll arguments)
  | .examine recipe => .examine recipe.spelled
  | .render name arguments => .render name (Recipe.spelledAll arguments)
  | .validate name arguments => .validate name (Recipe.spelledAll arguments)
  | statement => statement

namespace Build

open Value (spelled spelledNamed spelledPairs)

section builtins

mutual

/-- Plain data holds no members. -/
theorem ofTree_spelled (tree : Tree) : (ofTree tree).spelled = ofTree tree := by
  cases tree with
  | list items => simp [ofTree, ofItems_spelled items]
  | map entries => simp [ofTree, ofEntries_spelled entries]
  | _ => rfl

theorem ofItems_spelled (items : List Tree) : (ofTree.ofItems items).map spelled = ofTree.ofItems items := by
  cases items with
  | nil => rfl
  | cons item rest => rw [ofTree.ofItems, List.map_cons, ofTree_spelled item, ofItems_spelled rest]

theorem ofEntries_spelled (entries : List (Tree × Tree)) : spelledPairs (ofTree.ofEntries entries) = ofTree.ofEntries entries := by
  cases entries with
  | nil => rfl
  | cons entry rest =>
    obtain ⟨key, item⟩ := entry
    rw [ofTree.ofEntries, spelledPairs, List.map_cons, Prod.map_apply, ofTree_spelled key, ofTree_spelled item, ← spelledPairs,
      ofEntries_spelled rest]

end

variable {workspace : Workspace}

theorem text_alike {made copy : Build String} (alike : Alike Eq made copy workspace) :
    Alike (spelled · = ·) (do return .text (← made)) (do return .text (← copy)) workspace := by
  refine alike.next fun text _ _ => ?_
  exact .pure rfl

theorem pathText_alike (value : Value) : Alike (spelled · = ·) (pathText value) (pathText value.spelled) workspace := by
  cases value with
  | path segments => exact .pure (by rw [dotted_spelled]; rfl)
  | pathLike identity segments =>
    refine (Alike.ofExcept (Value.iterate_spelled segments)).next fun items _ _ => ?_
    have chars : (items.map spelled).mapM Value.chars? = items.mapM Value.chars? := by
      rw [List.mapM_map]
      exact congrArg items.mapM (funext Value.chars?_spelled)
    rw [chars]
    cases items.mapM Value.chars? with
    | some parts => exact .pure rfl
    | none => exact .fail rfl
  | _ => exact .fail rfl

/-- What a function on values reads as text. -/
def builtinReads (store : Store) (function : Builtin) (arguments : List Value) : List Value :=
  match function, arguments with
  | .wording, [value] => [value]
  | .shown, [value] => [value]
  | .interpolation, [value] => [value]
  | .commandText, [value] => [value]
  | .plain, [value] => value.keys ++ store.keys
  | _, _ => []

theorem truth_alike (value : Value) :
    Alike (spelled · = ·) (do return .bool (← ofExcept value.truth)) (do return .bool (← ofExcept value.spelled.truth)) workspace := by
  rw [Value.truth_spelled]
  refine (Alike.ofExcept (.refl value.truth)).next fun truth _ _ => ?_
  exact .pure rfl

theorem settledShown_alike {value : Value} (settled : value.settled) :
    Alike Eq (ask (·.shown value)) (ask (·.shown value.spelled)) workspace :=
  .ask ((workspace.store.shown_spelled value).mono fun _ _ same => same settled)

theorem applyBuiltin_alike (function : Builtin) (arguments : List Value) (steady : Steady (builtinReads workspace.store function arguments)) :
    Alike (spelled · = ·) (applyBuiltin function arguments) (applyBuiltin function (arguments.map spelled)) workspace := by
  cases function with
  | literal =>
    match arguments with
    | [value] => exact literal_alike value
    | [] | _ :: _ :: _ => exact .fail rfl
  | expression =>
    match arguments with
    | [value] =>
      refine (literal_alike value).next fun literal _ _ => ?_
      exact compose_alike false [literal]
    | [] | _ :: _ :: _ => exact .fail rfl
  | wrap =>
    match arguments with
    | [value] => exact text_alike (interpolated_alike value)
    | [] | _ :: _ :: _ => exact .fail rfl
  | binary =>
    match arguments with
    | [left, operator, right] => exact binaryNamed_alike left right operator
    | [] | [_] | [_, _] | _ :: _ :: _ :: _ :: _ => exact .fail rfl
  | compare operator =>
    match arguments with
    | [left, right] => exact binary_alike left right operator
    | [] | [_] | _ :: _ :: _ :: _ => exact .fail rfl
  | negate =>
    match arguments with
    | [value] => exact negation_alike value
    | [] | _ :: _ :: _ => exact .fail rfl
  | group =>
    match arguments with
    | [value] => exact group_alike value
    | [] | _ :: _ :: _ => exact .fail rfl
  | runnerCall name => exact runnerCall_alike name arguments
  | joinTexts =>
    match arguments with
    | [] => exact .fail rfl
    | [values] => exact runnerCall_alike "join" [values]
    | [values, separator] =>
      cases separator with
      | null => exact runnerCall_alike "join" [values]
      | _ => exact runnerCall_alike "join" [values, _]
    | _ :: second :: _ :: _ => cases second <;> exact .fail rfl
  | concat =>
    match arguments with
    | first :: second :: rest => exact text_alike (concatenation_alike (first :: second :: rest))
    | [] | [_] => exact .fail rfl
  | status name =>
    match arguments with
    | [] => exact compose_alike false [.text (name ++ "()")]
    | _ :: _ => exact .fail rfl
  | create => exact compose_alike false arguments
  | isExpression =>
    match arguments with
    | [value] => exact .pure (by rw [isExpression_spelled]; rfl)
    | [] | _ :: _ :: _ => exact .fail rfl
  | conjoin =>
    match arguments with
    | [left, right] => exact conjoin_alike left right
    | [] | [_] | _ :: _ :: _ :: _ => exact .fail rfl
  | disjoin =>
    match arguments with
    | [left, right] => exact disjoin_alike left right
    | [] | [_] | _ :: _ :: _ :: _ => exact .fail rfl
  | invert =>
    match arguments with
    | [value] => exact invert_alike value
    | [] | _ :: _ :: _ => exact .fail rfl
  | truth =>
    match arguments with
    | [value] => exact truth_alike value
    | [] | _ :: _ :: _ => exact .fail rfl
  | wording =>
    match arguments with
    | [value] => exact text_alike (wording_alike (steady value List.mem_cons_self))
    | [] | _ :: _ :: _ => exact .fail rfl
  | shown =>
    match arguments with
    | [value] => exact text_alike (settledShown_alike (steady value List.mem_cons_self))
    | [] | _ :: _ :: _ => exact .fail rfl
  | isPath =>
    match arguments with
    | [value] => exact .pure (by rw [Value.isPath_spelled]; rfl)
    | [] | _ :: _ :: _ => exact .fail rfl
  | pathText =>
    match arguments with
    | [value] => exact pathText_alike value
    | [] | _ :: _ :: _ => exact .fail rfl
  | plain =>
    match arguments with
    | [value] =>
      obtain ⟨onValue, onStore⟩ := steady_append.mp steady
      refine (Alike.ask (Store.plain_spelled onStore value onValue)).next fun tree _ _ => ?_
      exact .pure (ofTree_spelled tree)
    | [] | _ :: _ :: _ => exact .fail rfl
  | commandText =>
    match arguments with
    | [value] => exact text_alike (lineText_alike value (steady value List.mem_cons_self))
    | [] | _ :: _ :: _ => exact .fail rfl
  | asList =>
    match arguments with
    | [value] => exact .pure (by simp [spelled])
    | [] | _ :: _ :: _ => exact .fail rfl
  | isEmpty =>
    match arguments with
    | [value] => exact .pure (by rw [Value.isEmpty_spelled]; rfl)
    | [] | _ :: _ :: _ => exact .fail rfl
  | interpolation =>
    match arguments with
    | [value] =>
      refine (wording_alike (steady value List.mem_cons_self)).next fun text _ _ => ?_
      exact .pure rfl
    | [] | _ :: _ :: _ => exact .fail rfl
  | equals =>
    match arguments with
    | [left, right] => exact .pure (by rw [Value.equals_spelled]; rfl)
    | [] | [_] | _ :: _ :: _ :: _ => exact .fail rfl
  | sameHash =>
    match arguments with
    | [left, right] =>
      refine (Alike.ofExcept (Value.sameHash_spelled left right)).next fun same _ _ => ?_
      exact .pure rfl
    | [] | [_] | _ :: _ :: _ :: _ => exact .fail rfl

/-- What a failure that is a value reads as text. -/
def failureReads (message : Value) (children : List Value) : List Value :=
  message :: children.filter fun
    | .failure _ _ => false
    | _ => true

theorem makeFailure_alike (category : Category) (message : Value) (children : List Value) (collects : Bool)
    (steady : Steady (failureReads message children)) :
    Alike (spelled · = ·) (makeFailure category message children collects)
      (makeFailure category message.spelled (children.map spelled) collects) workspace := by
  obtain ⟨onMessage, onChildren⟩ := List.forall_mem_cons.mp steady
  refine (wording_alike onMessage).next fun message between _ => ?_
  refine (Alike.mapM_eq fun child member workspace => ?_).bind ?_
  · cases child with
    | failure identity failure => exact .pure rfl
    | _ =>
      refine (wording_alike (onChildren _ (List.mem_filter.mpr ⟨member, rfl⟩))).next fun text _ _ => ?_
      exact .pure rfl
  · rintro failures _ _ - rfl
    refine Alike.newIdentity.next fun identity _ _ => ?_
    exact .pure rfl

end builtins

section recipes

/-- What a step of building reads, and what is read after it. -/
def andThen (reads : Workspace → List Value) (build : Build α) (next : α → Workspace → List Value) (workspace : Workspace) : List Value :=
  reads workspace ++ afterwards build workspace next

theorem Alike.andThen {change : α → β} {after : γ → δ → Prop} {reads : Workspace → List Value} {build : Build α} {copy : Build β}
    {next : α → Workspace → List Value} {rest : α → Build γ} {other : β → Build δ} {workspace : Workspace}
    (steady : Steady (andThen reads build next workspace)) (first : Steady (reads workspace) → Alike (change · = ·) build copy workspace)
    (later : ∀ value between, Steady (next value between) → Alike after (rest value) (other (change value)) between) :
    Alike after (build >>= rest) (copy >>= other) workspace := by
  obtain ⟨onFirst, onRest⟩ := steady_append.mp steady
  exact (first onFirst).next fun value between ran => later value between (steady_afterwards onRest ran)

section

variable (call : Call) (reads : Nat → Ambient → Workspace → List Value) (ambient : Ambient)

mutual

/-- What a recipe reads as text. -/
def recipeReads : Recipe → Workspace → List Value
  | .list items => recipesReads items
  | .tuple items => recipesReads items
  | .map entries => entriesReads entries
  | .path segments => recipesReads segments
  | .pathLike segments => recipeReads segments
  | .append path segments => andThen (recipeReads path) (evaluate call ambient path) fun _ => recipesReads segments
  | .attributes object _ => recipeReads object
  | .contextPath root segments => fun workspace => afterwards (contextRoot ambient root) workspace fun _ => recipesReads segments
  | .contextName helper arguments segments =>
    andThen (recipesReads arguments) (evaluateAll call ambient arguments) fun values workspace =>
      afterwards (contextReference ambient helper values) workspace fun _ => recipesReads segments
  | .apply function arguments =>
    andThen (recipesReads arguments) (evaluateAll call ambient arguments) fun values workspace =>
      builtinReads workspace.store function values
  | .command kind arguments named =>
    andThen (recipesReads arguments) (evaluateAll call ambient arguments) fun values =>
      andThen (namedReads named) (evaluateNamed call ambient named) fun given _ => commandReads kind values given
  | .preset kind arguments named operations =>
    andThen (recipesReads arguments) (evaluateAll call ambient arguments) fun values =>
      andThen (namedReads named) (evaluateNamed call ambient named) fun given workspace =>
        afterwards (kind.toStep values given) workspace fun made between =>
          afterwards (newStep made) between fun step => operationsReads (.step step) operations
  | .event _ arguments named =>
    andThen (recipesReads arguments) (evaluateAll call ambient arguments) fun _ => namedReads named
  | .step known operations => fun workspace => afterwards (newStep { known }) workspace fun step => operationsReads (.step step) operations
  | .job operations => fun workspace => afterwards (newJob {}) workspace fun job => operationsReads (.job job) operations
  | .workflow name fileName operations =>
    andThen (recipeReads name) (evaluate call ambient name) fun name =>
      andThen (recipeReads fileName) (evaluate call ambient fileName) fun fileName workspace =>
        afterwards (makeWorkflow name fileName) workspace fun workflow => operationsReads (.workflow workflow) operations
  | .failure _ message children _ =>
    andThen (recipeReads message) (evaluate call ambient message) fun message =>
      andThen (recipesReads children) (evaluateAll call ambient children) fun children _ => failureReads message children
  | .value _ => fun _ => []
  | .foreign _ => fun _ => []
  | .builder _ _ => fun _ => []
  | .callback _ => fun _ => []
  | .register _ => fun _ => []

def recipesReads : List Recipe → Workspace → List Value
  | [] => fun _ => []
  | recipe :: rest => andThen (recipeReads recipe) (evaluate call ambient recipe) fun _ => recipesReads rest

def entriesReads : List (Recipe × Recipe) → Workspace → List Value
  | [] => fun _ => []
  | entry :: rest => andThen (entryReads entry) (evaluateEntry call ambient entry) fun _ => entriesReads rest

def entryReads : Recipe × Recipe → Workspace → List Value
  | (key, item) => andThen (recipeReads key) (evaluate call ambient key) fun _ => recipeReads item

def namedReads : List (String × Recipe) → Workspace → List Value
  | [] => fun _ => []
  | argument :: rest => andThen (argumentReads argument) (evaluateArgument call ambient argument) fun _ => namedReads rest

def argumentReads : String × Recipe → Workspace → List Value
  | (_, recipe) => recipeReads recipe

def operationsReads (value : Value) : List (String × List Recipe) → Workspace → List Value
  | [] => fun _ => []
  | operation :: rest =>
    andThen (operationReads value operation) (perform call ambient value operation) fun _ => operationsReads value rest

def operationReads (value : Value) : String × List Recipe → Workspace → List Value
  | (method, arguments) =>
    andThen (recipesReads arguments) (evaluateAll call ambient arguments) (methodReads call reads value method)

end

end

variable {call : Call} {reads : Nat → Ambient → Workspace → List Value}

mutual

theorem evaluate_alike (calls : AlikeCalls call reads) (ambient : Ambient) (recipe : Recipe) {workspace : Workspace}
    (steady : Steady (recipeReads call reads ambient recipe workspace)) :
    Alike (spelled · = ·) (evaluate call ambient recipe) (evaluate call ambient.spelled recipe.spelled) workspace := by
  cases recipe with
  | value value => exact .pure rfl
  | foreign typeName =>
    rw [Recipe.spelled, evaluate, evaluate]
    refine Alike.newIdentity.next fun identity _ _ => ?_
    exact .pure rfl
  | list items =>
    rw [Recipe.spelled, evaluate, evaluate]
    refine (evaluateAll_alike calls ambient items steady).next fun values _ _ => ?_
    exact .pure (by simp [spelled])
  | tuple items =>
    rw [Recipe.spelled, evaluate, evaluate]
    refine (evaluateAll_alike calls ambient items steady).next fun values _ _ => ?_
    exact .pure (by simp [spelled])
  | map entries =>
    rw [Recipe.spelled, evaluate, evaluate]
    refine (evaluateEntries_alike calls ambient entries steady).next fun pairs _ _ => ?_
    refine (Alike.ofExcept (Value.ofEntries_spelled spelled pairs)).next fun entries _ _ => ?_
    exact .pure (by simp [spelled])
  | path segments =>
    rw [Recipe.spelled, evaluate, evaluate]
    refine (evaluateAll_alike calls ambient segments steady).next fun values _ _ => ?_
    exact extend_alike [] values
  | pathLike segments =>
    rw [Recipe.spelled, evaluate, evaluate]
    refine (evaluate_alike calls ambient segments steady).next fun value _ _ => ?_
    refine Alike.newIdentity.next fun identity _ _ => ?_
    exact .pure rfl
  | append path segments =>
    rw [Recipe.spelled, evaluate, evaluate]
    refine Alike.andThen steady (evaluate_alike calls ambient path) fun value _ onSegments => ?_
    refine (evaluateAll_alike calls ambient segments onSegments).next fun values _ _ => ?_
    exact appendTo_alike value values
  | attributes object names =>
    rw [Recipe.spelled, evaluate, evaluate]
    refine (evaluate_alike calls ambient object steady).next fun value _ _ => ?_
    exact attributesOf_alike value names
  | contextPath root segments =>
    rw [Recipe.spelled, evaluate, evaluate]
    rw [recipeReads] at steady
    refine (contextRoot_alike ambient root).next fun value _ ran => ?_
    have onSegments := steady_afterwards steady ran
    refine (evaluateAll_alike calls ambient segments onSegments).next fun values _ _ => ?_
    exact index_alike value values
  | contextName helper arguments segments =>
    rw [Recipe.spelled, evaluate, evaluate]
    refine Alike.andThen steady (evaluateAll_alike calls ambient arguments) fun values _ onReference => ?_
    refine (contextReference_alike ambient helper values).next fun value _ ran => ?_
    have onSegments := steady_afterwards onReference ran
    refine (evaluateAll_alike calls ambient segments onSegments).next fun keys _ _ => ?_
    exact index_alike value keys
  | apply function arguments =>
    rw [Recipe.spelled, evaluate, evaluate]
    refine Alike.andThen steady (evaluateAll_alike calls ambient arguments) fun values _ onValues => ?_
    exact applyBuiltin_alike function values onValues
  | command kind arguments named =>
    rw [Recipe.spelled, evaluate, evaluate]
    refine Alike.andThen steady (evaluateAll_alike calls ambient arguments) fun values _ onNamed => ?_
    refine Alike.andThen onNamed (evaluateNamed_alike calls ambient named) fun given _ onCommand => ?_
    exact directive_alike kind values given onCommand
  | preset kind arguments named operations =>
    rw [Recipe.spelled, evaluate, evaluate]
    refine Alike.andThen steady (evaluateAll_alike calls ambient arguments) fun values _ onNamed => ?_
    refine Alike.andThen onNamed (evaluateNamed_alike calls ambient named) fun given _ onStep => ?_
    refine (toStep_alike kind values given).next fun made _ ranMade => ?_
    refine (Alike.newStep made).next fun step _ ranStep => ?_
    have onOperations := steady_afterwards (steady_afterwards onStep ranMade) ranStep
    exact (performAll_alike calls ambient (.step step) operations onOperations).next fun _ _ _ => .pure rfl
  | event factory arguments named =>
    rw [Recipe.spelled, evaluate, evaluate]
    refine Alike.andThen steady (evaluateAll_alike calls ambient arguments) fun values _ onNamed => ?_
    refine (evaluateNamed_alike calls ambient named onNamed).next fun given _ _ => ?_
    exact makeEvent_alike factory values given
  | step known operations =>
    rw [Recipe.spelled, evaluate, evaluate]
    rw [recipeReads] at steady
    refine (Alike.newStep { known }).next fun step _ ran => ?_
    have onOperations := steady_afterwards steady ran
    exact (performAll_alike calls ambient (.step step) operations onOperations).next fun _ _ _ => .pure rfl
  | job operations =>
    rw [Recipe.spelled, evaluate, evaluate]
    rw [recipeReads] at steady
    refine (Alike.newJob {}).next fun job _ ran => ?_
    have onOperations := steady_afterwards steady ran
    exact (performAll_alike calls ambient (.job job) operations onOperations).next fun _ _ _ => .pure rfl
  | workflow name fileName operations =>
    rw [Recipe.spelled, evaluate, evaluate]
    refine Alike.andThen steady (evaluate_alike calls ambient name) fun name _ onFileName => ?_
    refine Alike.andThen onFileName (evaluate_alike calls ambient fileName) fun fileName _ onWorkflow => ?_
    refine (makeWorkflow_alike name fileName).next fun workflow _ ran => ?_
    have onOperations := steady_afterwards onWorkflow ran
    exact (performAll_alike calls ambient (.workflow workflow) operations onOperations).next fun _ _ _ => .pure rfl
  | builder operations result =>
    rw [Recipe.spelled, evaluate, evaluate]
    exact .newFunction (.builder ambient operations result)
  | callback body =>
    rw [Recipe.spelled, evaluate, evaluate]
    exact .newFunction (.callback body)
  | register name =>
    rw [Recipe.spelled, evaluate, evaluate]
    refine Alike.current.bind ?_
    rintro held other _ ran spells
    rw [← spells.registers, Event.lookup_spelled]
    cases held.registers.lookup name with
    | some value => exact .pure rfl
    | none => exact .fail rfl
  | failure category message children collects =>
    rw [Recipe.spelled, evaluate, evaluate]
    refine Alike.andThen steady (evaluate_alike calls ambient message) fun message _ onChildren => ?_
    refine Alike.andThen onChildren (evaluateAll_alike calls ambient children) fun children _ onFailure => ?_
    exact makeFailure_alike category message children collects onFailure

theorem evaluateAll_alike (calls : AlikeCalls call reads) (ambient : Ambient) (recipes : List Recipe) {workspace : Workspace}
    (steady : Steady (recipesReads call reads ambient recipes workspace)) :
    Alike (List.map spelled · = ·) (evaluateAll call ambient recipes) (evaluateAll call ambient.spelled (Recipe.spelledAll recipes))
      workspace := by
  cases recipes with
  | nil => exact .pure rfl
  | cons recipe rest =>
    rw [Recipe.spelledAll, evaluateAll, evaluateAll]
    refine Alike.andThen steady (evaluate_alike calls ambient recipe) fun value _ onRest => ?_
    refine (evaluateAll_alike calls ambient rest onRest).next fun values _ _ => ?_
    exact .pure rfl

theorem evaluateEntries_alike (calls : AlikeCalls call reads) (ambient : Ambient) (entries : List (Recipe × Recipe)) {workspace : Workspace}
    (steady : Steady (entriesReads call reads ambient entries workspace)) :
    Alike (spelledPairs · = ·) (evaluateEntries call ambient entries)
      (evaluateEntries call ambient.spelled (Recipe.spelledEntries entries)) workspace := by
  cases entries with
  | nil => exact .pure rfl
  | cons entry rest =>
    rw [Recipe.spelledEntries, evaluateEntries, evaluateEntries]
    refine Alike.andThen steady (evaluateEntry_alike calls ambient entry) fun pair _ onRest => ?_
    refine (evaluateEntries_alike calls ambient rest onRest).next fun pairs _ _ => ?_
    exact .pure rfl

theorem evaluateEntry_alike (calls : AlikeCalls call reads) (ambient : Ambient) (entry : Recipe × Recipe) {workspace : Workspace}
    (steady : Steady (entryReads call reads ambient entry workspace)) :
    Alike (Prod.map spelled spelled · = ·) (evaluateEntry call ambient entry)
      (evaluateEntry call ambient.spelled (Recipe.spelledEntry entry)) workspace := by
  obtain ⟨key, item⟩ := entry
  rw [Recipe.spelledEntry, evaluateEntry, evaluateEntry]
  refine Alike.andThen steady (evaluate_alike calls ambient key) fun name _ onItem => ?_
  refine (evaluate_alike calls ambient item onItem).next fun value _ _ => ?_
  exact .pure rfl

theorem evaluateNamed_alike (calls : AlikeCalls call reads) (ambient : Ambient) (named : List (String × Recipe)) {workspace : Workspace}
    (steady : Steady (namedReads call reads ambient named workspace)) :
    Alike (spelledNamed · = ·) (evaluateNamed call ambient named)
      (evaluateNamed call ambient.spelled (Recipe.spelledNamed named)) workspace := by
  cases named with
  | nil => exact .pure rfl
  | cons argument rest =>
    rw [Recipe.spelledNamed, evaluateNamed, evaluateNamed]
    refine Alike.andThen steady (evaluateArgument_alike calls ambient argument) fun given _ onRest => ?_
    refine (evaluateNamed_alike calls ambient rest onRest).next fun others _ _ => ?_
    exact .pure rfl

theorem evaluateArgument_alike (calls : AlikeCalls call reads) (ambient : Ambient) (argument : String × Recipe) {workspace : Workspace}
    (steady : Steady (argumentReads call reads ambient argument workspace)) :
    Alike (Prod.map id spelled · = ·) (evaluateArgument call ambient argument)
      (evaluateArgument call ambient.spelled (Recipe.spelledArgument argument)) workspace := by
  obtain ⟨name, recipe⟩ := argument
  rw [Recipe.spelledArgument, evaluateArgument, evaluateArgument]
  refine (evaluate_alike calls ambient recipe steady).next fun value _ _ => ?_
  exact .pure rfl

theorem performAll_alike (calls : AlikeCalls call reads) (ambient : Ambient) (value : Value)
    (operations : List (String × List Recipe)) {workspace : Workspace}
    (steady : Steady (operationsReads call reads ambient value operations workspace)) :
    Alike Eq (performAll call ambient value operations)
      (performAll call ambient.spelled value.spelled (Recipe.spelledOperations operations)) workspace := by
  cases operations with
  | nil => exact .pure rfl
  | cons operation rest =>
    rw [Recipe.spelledOperations, performAll, performAll]
    exact Alike.andThen steady (perform_alike calls ambient value operation) fun _ _ onRest =>
      performAll_alike calls ambient value rest onRest

theorem perform_alike (calls : AlikeCalls call reads) (ambient : Ambient) (value : Value) (operation : String × List Recipe)
    {workspace : Workspace}
    (steady : Steady (operationReads call reads ambient value operation workspace)) :
    Alike Eq (perform call ambient value operation)
      (perform call ambient.spelled value.spelled (Recipe.spelledOperation operation)) workspace := by
  obtain ⟨method, arguments⟩ := operation
  rw [Recipe.spelledOperation, perform, perform]
  refine Alike.andThen steady (evaluateAll_alike calls ambient arguments) fun values _ onMethod => ?_
  exact (callMethod_alike calls value method values onMethod).next fun _ _ _ => .pure rfl

end

/-- What a call reads as text. -/
def callReads : Nat → Nat → Ambient → Workspace → List Value
  | 0, _, _, _ => []
  | depth + 1, function, argument, workspace =>
    match workspace.closures[function]? with
    | some (.callback body) => recipeReads (callWithin depth) (callReads depth) argument body workspace
    | some (.builder ambient operations result) =>
      andThen (operationsReads (callWithin depth) (callReads depth) ambient (ambientValue argument) operations)
        (performAll (callWithin depth) ambient (ambientValue argument) operations)
        (fun _ => match result with
          | none => fun _ => []
          | some result => recipeReads (callWithin depth) (callReads depth) ambient result) workspace
    | none => []

theorem ambientValue_spelled (ambient : Ambient) : ambientValue ambient.spelled = (ambientValue ambient).spelled := by
  cases ambient <;> rfl

theorem callWithin_alike (depth : Nat) : AlikeCalls (callWithin depth) (callReads depth) := by
  induction depth with
  | zero => exact fun _ _ _ _ => .fail rfl
  | succ depth ih =>
    intro function argument workspace steady
    rw [callWithin, callWithin]
    refine Alike.current.bind ?_
    rintro held other _ ran spells
    cases ran
    rw [callReads] at steady
    rw [← spells.closures, List.getElem?_map]
    generalize workspace.closures[function]? = closure at steady ⊢
    cases closure with
    | none => exact .fail rfl
    | some closure =>
      cases closure with
      | callback body => exact evaluate_alike ih argument body steady
      | builder ambient operations result =>
        simp only [Option.map_some, Closure.spelled, ambientValue_spelled]
        refine Alike.andThen steady (performAll_alike ih ambient (ambientValue argument) operations) fun _ _ onResult => ?_
        cases result with
        | none => exact .pure rfl
        | some result => exact evaluate_alike ih ambient result onResult

end recipes

section statements

/-- What a recipe of a session reads as text. -/
def topReads : Recipe → Workspace → List Value := recipeReads (callWithin callDepth) (callReads callDepth) (.names {})

def argumentsReads : List Recipe → Workspace → List Value := recipesReads (callWithin callDepth) (callReads callDepth) (.names {})

def statementReads : Statement → Workspace → List Value
  | .assign _ recipe => topReads recipe
  | .call name method arguments => fun workspace =>
    afterwards (register name) workspace fun value =>
      andThen (argumentsReads arguments) (evaluateArguments arguments)
        (methodReads (callWithin callDepth) (callReads callDepth) value method)
  | .examine recipe => topReads recipe
  | .render name arguments => fun workspace => afterwards (register name) workspace fun _ => argumentsReads arguments
  | .validate name arguments => fun workspace => afterwards (register name) workspace fun _ => argumentsReads arguments
  | .describe _ => fun _ => []
  | .setDebug _ => fun _ => []
  | .debug _ => fun _ => []

variable {workspace : Workspace}

theorem evaluateTop_alike (recipe : Recipe) (steady : Steady (topReads recipe workspace)) :
    Alike (spelled · = ·) (evaluateTop recipe) (evaluateTop recipe.spelled) workspace :=
  evaluate_alike (callWithin_alike callDepth) (.names {}) recipe steady

theorem evaluateArguments_alike (arguments : List Recipe) (steady : Steady (argumentsReads arguments workspace)) :
    Alike (List.map spelled · = ·) (evaluateArguments arguments) (evaluateArguments (Recipe.spelledAll arguments)) workspace :=
  evaluateAll_alike (callWithin_alike callDepth) (.names {}) arguments steady

theorem register_alike (name : String) : Alike (spelled · = ·) (register name) (register name) workspace :=
  evaluateTop_alike (.register name) fun _ member => nomatch member

/-- Run on a workspace and on its spelled copy, the two leave a workspace and its spelled copy. -/
def Leads (build : Build α) (copy : Build β) (workspace : Workspace) : Prop :=
  ∀ other, workspace.Spells other → (build.run workspace).2.Spells (copy.run other).2

theorem leads_reads {build : Build α} {copy : Build β} (reads : Reads build) (reads' : Reads copy) : Leads build copy workspace := by
  intro other spells
  rwa [reads workspace, reads' other]

theorem Alike.leads_next {change : α → β} {build : Build α} {copy : Build β} {next : α → Build γ} {other : β → Build δ}
    (first : Alike (change · = ·) build copy workspace)
    (later : ∀ value between, build.run workspace = (.ok value, between) → Leads (next value) (other (change value)) between) :
    Leads (build >>= next) (copy >>= other) workspace := by
  intro workspace' spells
  obtain ⟨agrees, spells⟩ := first workspace' spells
  rw [run_bind, run_bind]
  rcases onFirst : build.run workspace with ⟨result, between⟩
  rcases onCopy : copy.run workspace' with ⟨result', between'⟩
  rw [onFirst, onCopy] at agrees spells
  cases agrees with
  | error alike => exact spells
  | ok related => exact related ▸ later _ _ onFirst between' spells

theorem execute_leads (statement : Statement) (steady : Steady (statementReads statement workspace)) :
    Leads (execute statement) (execute statement.spelled) workspace := by
  cases statement with
  | assign name recipe =>
    refine (evaluateTop_alike recipe steady).leads_next fun value _ _ => ?_
    refine Alike.leads_next (Alike.modify fun _ spells => ?_) fun _ _ _ => leads_reads (reads_viewOf _) (reads_viewOf _)
    refine ⟨spells.store, spells.closures, ?_, spells.identities, spells.debug⟩
    rw [spelledNamed, List.map_cons, ← spells.registers]
    rfl
  | call name method arguments =>
    rw [statementReads] at steady
    refine (register_alike name).leads_next fun value _ ran => ?_
    have onCall := steady_afterwards steady ran
    obtain ⟨onArguments, onMethod⟩ := steady_append.mp onCall
    refine (evaluateArguments_alike arguments onArguments).leads_next fun values _ ranArguments => ?_
    refine (callMethod_alike (callWithin_alike callDepth) value method values (steady_afterwards onMethod ranArguments)).leads_next fun result _ _ => ?_
    have shows (value result : Value) :
        Reads (if sameObject value result then viewOf value else do return .map [(.text "result", ← viewOf result)]) := by
      split
      · exact reads_viewOf value
      · exact reads_bind (reads_viewOf result) fun _ => reads_pure _
    exact leads_reads (shows _ _) (shows _ _)
  | examine recipe =>
    refine (evaluateTop_alike recipe steady).leads_next fun _ _ _ => leads_reads (reads_viewOf _) (reads_viewOf _)
  | render name arguments =>
    rw [statementReads] at steady
    refine (register_alike name).leads_next fun value _ ran => ?_
    have onArguments := steady_afterwards steady ran
    exact (evaluateArguments_alike arguments onArguments).leads_next fun _ _ _ =>
      leads_reads (reads_renderAlone _ _) (reads_renderAlone _ _)
  | validate name arguments =>
    rw [statementReads] at steady
    refine (register_alike name).leads_next fun value _ ran => ?_
    have onArguments := steady_afterwards steady ran
    exact (evaluateArguments_alike arguments onArguments).leads_next fun _ _ _ =>
      leads_reads (reads_validateAlone _ _) (reads_validateAlone _ _)
  | describe name =>
    have shows (value : Value) : Reads (do return View.text (← ask (·.shown value))) := reads_bind (reads_ask _) fun _ => reads_pure _
    exact (register_alike name).leads_next fun _ _ _ => leads_reads (shows _) (shows _)
  | setDebug enabled =>
    exact fun other spells => ⟨spells.store, spells.closures, spells.registers, spells.identities, rfl⟩
  | debug text =>
    have printed : Alike Eq (debugLine (return text)) (debugLine (return text)) workspace := .debugLine (.pure trivial)
    exact printed.leads_next fun _ _ _ => leads_reads (reads_pure _) (reads_pure _)

end statements

end Build

end WorkflowCompiler
