import WorkflowCompiler.Builder.Workspace

/-! References into the runner's data: chains of segments, and the helpers that check a name
against those declared so far. -/

namespace WorkflowCompiler.Build

/-- A segment is a text or counts as one, and is not empty. -/
def segment (value : Value) : Build Label :=
  match value.label? with
  | some label =>
    if label.chars.isEmpty then do fail (.emptySegment (← ask (·.shown value))) else return label
  | none => do fail (.emptySegment (← ask (·.shown value)))

def extend (segments : List Label) (more : List Value) : Build Value := do
  return .path (segments ++ (← more.mapM segment))

def appendTo (value : Value) (more : List Value) : Build Value :=
  match value with
  | .path segments => extend segments more
  | other => fail (.noAttribute other.typeName "append")

/-- Indexes a value by one segment after the other. -/
def index (value : Value) : List Value → Build Value
  | [] => return value
  | key :: rest => do
    match value with
    | .path segments => index (← extend segments [key]) rest
    | _ => fail .mistyped

/-- The attribute of a value: of a path the path with one more segment, save for the names that
a path has for itself and hidden names. -/
def attributeOf (value : Value) (name : String) : Build Value :=
  match value with
  | .path segments =>
    if name == "segments" then return .tuple (segments.map Value.ofLabel)
    else if name == "append" || name == "to_json" then return .foreign 0 "method"
    else if name.startsWith "_" then
      if name == "_segments" then return .tuple (segments.map Value.ofLabel)
      else fail (.hiddenAttribute name)
    else extend segments [.text name]
  | other => fail (.noAttribute other.typeName name)

def attributesOf (value : Value) : List String → Build Value
  | [] => return value
  | name :: rest => do attributesOf (← attributeOf value name) rest

/-- Refuses a name that is not among those declared, if they are tracked. -/
def requireKnown (kind : String) (name : Value) (declared : Option (List Value)) : Build Unit := do
  if let some declared := declared then
    if !declared.any (Value.equals name) then
      let name ← ask (·.wording name)
      match declared.mapM Value.chars? with
      | some names => fail (.unknownName kind name names)
      | none => fail .mistyped

def texts (names : Option (List String)) : Option (List Value) := names.map (·.map .text)

def root (name : String) : List Label := [.text name]

/-- The reference that a helper makes from its arguments. -/
def reference (known : Known) (helper : String) (arguments : List Value) : Build Value := do
  let requireStep (id : Value) : Build Unit := do
    if known.steps.isSome && !id.isKey then fail .mistyped
    requireKnown "step id" id known.steps
  match helper, arguments with
  | "axis", [name] => do
    requireKnown "matrix axis" name (texts known.axes)
    extend (root "matrix") [name]
  | "need_output", [job, output] => do
    requireKnown "needed job" job (texts known.needs)
    extend (root "needs") [job, .text "outputs", output]
  | "step", [id] => do
    requireStep id
    extend (root "steps") [id]
  | "step_output", [id, output] => do
    requireStep id
    index (← extend (root "steps") [id]) [.text "outputs", output]
  | "service", [name] => do
    requireKnown "service" name (texts known.services)
    extend (root "job") [.text "services", name]
  | "secret", [name] => extend (root "secrets") [name]
  | "input", [name] => extend (root "inputs") [name]
  | "env_var", [name] => extend (root "env") [name]
  | helper, _ =>
    if ["axis", "need_output", "step", "step_output", "service", "secret", "input", "env_var"].contains helper
    then fail .mistyped else fail (.noAttribute "Context" helper)

def contextRoot (ambient : Ambient) (name : String) : Build Value :=
  match ambient with
  | .names _ =>
    if contextRoots.contains name then return .path (root name)
    else fail (.noAttribute "Context" name)
  | .object value => attributeOf value name

def contextReference (ambient : Ambient) (helper : String) (arguments : List Value) : Build Value :=
  match ambient with
  | .names known => reference known helper arguments
  | .object value => fail (.noAttribute value.typeName helper)

end WorkflowCompiler.Build
