import WorkflowCompiler.Builder.Methods
import WorkflowCompiler.Builder.Directive
import WorkflowCompiler.Builder.Preset
import WorkflowCompiler.Builder.EventMaker

/-! Evaluation of recipes. Arguments are made from left to right before a call, and the first
failure ends the value. Calls of functions nest only so deep. -/

namespace WorkflowCompiler.Build

/-- A tree as a value. Dates and sets, which only documents have, are of types that values do not
have. -/
def ofTree : Tree → Value
  | .null => .null
  | .bool value => .bool value
  | .int value => .int value
  | .float value => .float value
  | .text value => .text value
  | .stamp _ => .foreign 0 "datetime"
  | .bytes values => .bytes values
  | .set _ => .foreign 0 "set"
  | .list items => .list (ofItems items)
  | .map entries => .map (ofEntries entries)
where
  ofItems : List Tree → List Value
    | [] => []
    | item :: rest => ofTree item :: ofItems rest
  ofEntries : List (Tree × Tree) → List (Value × Value)
    | [] => []
    | (key, value) :: rest => (ofTree key, ofTree value) :: ofEntries rest

/-- The dotted text of anything with segments. -/
def pathText (value : Value) : Build Value := do
  match value with
  | .path segments => return .text (dotted segments)
  | .pathLike _ segments =>
    match (← ofExcept segments.iterate).mapM Value.chars? with
    | some parts => return .text (".".intercalate parts)
    | none => fail .mistyped
  | other => fail (.noAttribute other.typeName "segments")

def applyBuiltin (function : Builtin) (arguments : List Value) : Build Value := do
  match function, arguments with
  | .literal, [value] => literal value
  | .expression, [value] => compose false [← literal value]
  | .wrap, [value] => return .text (← interpolated value)
  | .binary, [left, operator, right] => binaryNamed left operator right
  | .compare operator, [left, right] => binary left operator right
  | .negate, [value] => negation value
  | .group, [value] => group value
  | .runnerCall name, arguments => runnerCall name arguments
  | .joinTexts, [values] => runnerCall "join" [values]
  | .joinTexts, [values, .null] => runnerCall "join" [values]
  | .joinTexts, [values, separator] => runnerCall "join" [values, separator]
  | .concat, first :: second :: rest => return .text (← concatenation (first :: second :: rest))
  | .status name, [] => compose false [.text (name ++ "()")]
  | .create, values => compose false values
  | .isExpression, [value] => return .bool (isExpression value)
  | .conjoin, [left, right] => conjoin left right
  | .disjoin, [left, right] => disjoin left right
  | .invert, [value] => invert value
  | .truth, [value] => return .bool (← ofExcept value.truth)
  | .wording, [value] => return .text (← ask (·.wording value))
  | .shown, [value] => return .text (← ask (·.shown value))
  | .isPath, [value] => return .bool value.isPath
  | .pathText, [value] => pathText value
  | .plain, [value] => return ofTree (← ask (·.plain value))
  | .commandText, [value] => return .text (← lineText value)
  | .asList, [value] => return .list value.asList
  | .isEmpty, [value] => return .bool value.isEmpty
  | .interpolation, [value] => return .text (interpolation (← ask (·.wording value)))
  | .equals, [left, right] => return .bool (Value.equals left right)
  | .sameHash, [left, right] => return .bool (← ofExcept (Value.sameHash left right))
  | _, _ => fail .mistyped

def makeFailure (category : Category) (message : Value) (children : List Value) (collects : Bool) :
    Build Value := do
  let message ← ask (·.wording message)
  let children ← children.mapM fun
    | .failure _ failure => pure failure
    | other => do pure (.ofCause (.stated .value (← ask (·.wording other))))
  let cause := Cause.stated category message
  return .failure (← newIdentity) (if collects then .collect cause children else .mk cause children)

mutual

def evaluate (call : Call) (ambient : Ambient) : Recipe → Build Value
  | .value value => return value
  | .foreign typeName => do return .foreign (← newIdentity) typeName
  | .list items => do return .list (← evaluateAll call ambient items)
  | .tuple items => do return .tuple (← evaluateAll call ambient items)
  | .map entries => do
    return .map (← ofExcept (Value.ofEntries (← evaluateEntries call ambient entries)))
  | .path segments => do extend [] (← evaluateAll call ambient segments)
  | .pathLike segments => do
    let segments ← evaluate call ambient segments
    return .pathLike (← newIdentity) segments
  | .append path segments => do
    let path ← evaluate call ambient path
    appendTo path (← evaluateAll call ambient segments)
  | .attributes object names => do attributesOf (← evaluate call ambient object) names
  | .contextPath root segments => do
    let root ← contextRoot ambient root
    index root (← evaluateAll call ambient segments)
  | .contextName helper arguments segments => do
    let arguments ← evaluateAll call ambient arguments
    let reference ← contextReference ambient helper arguments
    index reference (← evaluateAll call ambient segments)
  | .apply function arguments => do applyBuiltin function (← evaluateAll call ambient arguments)
  | .command kind arguments named => do
    let arguments ← evaluateAll call ambient arguments
    directive kind arguments (← evaluateNamed call ambient named)
  | .preset kind arguments named operations => do
    let arguments ← evaluateAll call ambient arguments
    let step ← newStep (← kind.toStep arguments (← evaluateNamed call ambient named))
    performAll call ambient (.step step) operations
    return .step step
  | .event factory arguments named => do
    let arguments ← evaluateAll call ambient arguments
    makeEvent factory arguments (← evaluateNamed call ambient named)
  | .step known operations => do
    let step ← newStep { known }
    performAll call ambient (.step step) operations
    return .step step
  | .job operations => do
    let job ← newJob {}
    performAll call ambient (.job job) operations
    return .job job
  | .workflow name fileName operations => do
    let name ← evaluate call ambient name
    let workflow ← makeWorkflow name (← evaluate call ambient fileName)
    performAll call ambient (.workflow workflow) operations
    return .workflow workflow
  | .builder operations result => newFunction (.builder ambient operations result)
  | .callback body => newFunction (.callback body)
  | .register name => do
    match (← get).registers.lookup name with
    | some value => return value
    | none => fail (.noSuchKey (Text.quote name))
  | .failure category message children collects => do
    let message ← evaluate call ambient message
    makeFailure category message (← evaluateAll call ambient children) collects

def evaluateAll (call : Call) (ambient : Ambient) : List Recipe → Build (List Value)
  | [] => return []
  | recipe :: rest => do
    let value ← evaluate call ambient recipe
    return value :: (← evaluateAll call ambient rest)

def evaluateEntries (call : Call) (ambient : Ambient) :
    List (Recipe × Recipe) → Build (List (Value × Value))
  | [] => return []
  | entry :: rest => do
    let entry ← evaluateEntry call ambient entry
    return entry :: (← evaluateEntries call ambient rest)

def evaluateEntry (call : Call) (ambient : Ambient) : Recipe × Recipe → Build (Value × Value)
  | (key, value) => do
    let key ← evaluate call ambient key
    return (key, ← evaluate call ambient value)

def evaluateNamed (call : Call) (ambient : Ambient) :
    List (String × Recipe) → Build (List (String × Value))
  | [] => return []
  | argument :: rest => do
    let argument ← evaluateArgument call ambient argument
    return argument :: (← evaluateNamed call ambient rest)

def evaluateArgument (call : Call) (ambient : Ambient) : String × Recipe → Build (String × Value)
  | (name, recipe) => do return (name, ← evaluate call ambient recipe)

/-- Performs operations on an object, one after the other. -/
def performAll (call : Call) (ambient : Ambient) (value : Value) :
    List (String × List Recipe) → Build Unit
  | [] => return ()
  | operation :: rest => do
    perform call ambient value operation
    performAll call ambient value rest

def perform (call : Call) (ambient : Ambient) (value : Value) :
    String × List Recipe → Build Unit
  | (method, arguments) => do
    discard (callMethod call value method (← evaluateAll call ambient arguments))

end

/-- The value that a function is called with, as a value. -/
def ambientValue : Ambient → Value
  | .names _ => .foreign 0 "Context"
  | .object value => value

/-- Calls a function, with calls inside it nested less than `depth` deep. -/
def callWithin : Nat → Call
  | 0, _, _ => fail .endless
  | depth + 1, function, argument => do
    match (← get).closures[function]? with
    | some (.callback body) => evaluate (callWithin depth) argument body
    | some (.builder ambient operations result) =>
      performAll (callWithin depth) ambient (ambientValue argument) operations
      match result with
      | none => return ambientValue argument
      | some result => evaluate (callWithin depth) ambient result
    | none => fail .mistyped

def callDepth : Nat := 300

def evaluateIn (ambient : Ambient) (recipe : Recipe) : Build Value :=
  evaluate (callWithin callDepth) ambient recipe

def evaluateTop (recipe : Recipe) : Build Value := evaluateIn (.names {}) recipe

end WorkflowCompiler.Build
