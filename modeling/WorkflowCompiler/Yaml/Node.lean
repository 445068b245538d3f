import WorkflowCompiler.Yaml.Token

/-! The nodes of a document: its tokens put together. -/

namespace WorkflowCompiler.Yaml

inductive Node
  | scalar (text : String) (plain : Bool)
  | sequence (items : List Node)
  | mapping (entries : List (Node × Node))
  | anchored (name : String) (node : Node)
  | reference (name : String)
  | tagged (tag : String) (node : Node)
deriving Inhabited, Repr

namespace Node

/-- What stands where nothing is written. -/
def empty : Node := .scalar "" true

/-- A node under a tag. One that is a single exclamation mark tells nothing but that a scalar is
read as if it were plain. -/
def ofTag (tag : String) (node : Node) : Node :=
  if tag != "!" then .tagged tag node
  else match node with
    | .scalar text _ => .scalar text true
    | node => node

/-- What stands in front of a node: its anchor and its tag. -/
structure Properties where
  anchor : Option String := none
  tag : Option String := none

/-- Reads the properties of a node, which come in either order. -/
def Properties.read : List Token → Properties × List Token
  | .anchor name :: .tag _ tag :: rest => (⟨some name, some tag⟩, rest)
  | .tag _ tag :: .anchor name :: rest => (⟨some name, some tag⟩, rest)
  | .anchor name :: rest => (⟨some name, none⟩, rest)
  | .tag _ tag :: rest => (⟨none, some tag⟩, rest)
  | rest => ({}, rest)

def Properties.apply (properties : Properties) (node : Node) : Node :=
  let node := properties.tag.elim node (ofTag · node)
  properties.anchor.elim node (.anchored · node)

def Properties.areNone (properties : Properties) : Bool :=
  properties.anchor.isNone && properties.tag.isNone

def isOneOf (tokens : List Token) : List Token → Bool
  | [] => false
  | token :: _ => tokens.contains token

/-- Whether a node is written here. -/
def opensNode (inBlock indentless : Bool) : List Token → Bool
  | .scalar _ _ :: _ => true
  | .flowSequence :: _ => true
  | .flowMapping :: _ => true
  | .entry :: _ => indentless
  | .blockSequence :: _ => inBlock
  | .blockMapping :: _ => inBlock
  | _ => false

mutual

/-- Reads a node. `inBlock` allows block collections, `indentless` sequences that are not
indented further than their key. -/
def read : Nat → Bool → Bool → List Token → Option (Node × List Token)
  | 0, _, _, _ => none
  | fuel + 1, inBlock, indentless, tokens =>
    match tokens with
    | .reference name :: rest => some (.reference name, rest)
    | tokens =>
      let (properties, rest) := Properties.read tokens
      if properties.areNone || opensNode inBlock indentless rest then do
        let (node, rest) ← readContent fuel inBlock indentless rest
        return (properties.apply node, rest)
      else some (properties.apply empty, rest)

def readContent : Nat → Bool → Bool → List Token → Option (Node × List Token)
  | 0, _, _, _ => none
  | fuel + 1, inBlock, indentless, tokens =>
    match tokens with
    | .scalar text plain :: rest => some (.scalar text plain, rest)
    | .flowSequence :: rest => do
      let (items, rest) ← readFlowItems fuel true rest
      return (.sequence items, rest)
    | .flowMapping :: rest => do
      let (entries, rest) ← readFlowEntries fuel true rest
      return (.mapping entries, rest)
    | .entry :: _ =>
      if indentless then do
        let (items, rest) ← readIndentless fuel tokens
        return (.sequence items, rest)
      else none
    | .blockSequence :: rest =>
      if inBlock then do
        let (items, rest) ← readBlockItems fuel rest
        return (.sequence items, rest)
      else none
    | .blockMapping :: rest =>
      if inBlock then do
        let (entries, rest) ← readBlockEntries fuel rest
        return (.mapping entries, rest)
      else none
    | _ => none

/-- Reads a node, or nothing where one of `enders` follows. -/
def readUnless : Nat → List Token → Bool → Bool → List Token → Option (Node × List Token)
  | 0, _, _, _, _ => none
  | fuel + 1, enders, inBlock, indentless, tokens =>
    if isOneOf enders tokens then some (empty, tokens) else read fuel inBlock indentless tokens

def readBlockItems : Nat → List Token → Option (List Node × List Token)
  | 0, _ => none
  | fuel + 1, tokens =>
    match tokens with
    | .entry :: rest => do
      let (item, rest) ← readUnless fuel [.entry, .blockEnd] true false rest
      let (items, rest) ← readBlockItems fuel rest
      return (item :: items, rest)
    | .blockEnd :: rest => some ([], rest)
    | _ => none

def readIndentless : Nat → List Token → Option (List Node × List Token)
  | 0, _ => none
  | fuel + 1, tokens =>
    match tokens with
    | .entry :: rest => do
      let (item, rest) ← readUnless fuel [.entry, .key, .value, .blockEnd] true false rest
      let (items, rest) ← readIndentless fuel rest
      return (item :: items, rest)
    | rest => some ([], rest)

def readBlockEntries : Nat → List Token → Option (List (Node × Node) × List Token)
  | 0, _ => none
  | fuel + 1, tokens =>
    match tokens with
    | .key :: rest => do
      let (key, rest) ← readUnless fuel [.key, .value, .blockEnd] true true rest
      let (value, rest) ← readBlockValue fuel rest
      let (entries, rest) ← readBlockEntries fuel rest
      return ((key, value) :: entries, rest)
    | .value :: _ => do
      let (value, rest) ← readBlockValue fuel tokens
      let (entries, rest) ← readBlockEntries fuel rest
      return ((empty, value) :: entries, rest)
    | .blockEnd :: rest => some ([], rest)
    | _ => none

def readBlockValue : Nat → List Token → Option (Node × List Token)
  | 0, _ => none
  | fuel + 1, tokens =>
    match tokens with
    | .value :: rest => readUnless fuel [.key, .value, .blockEnd] true true rest
    | rest => some (empty, rest)

/-- Reads the items up to the closing bracket; a pair with a colon is a mapping of its own. -/
def readFlowItems : Nat → Bool → List Token → Option (List Node × List Token)
  | 0, _, _ => none
  | fuel + 1, first, tokens =>
    match tokens with
    | .flowSequenceEnd :: rest => some ([], rest)
    | tokens => do
      let tokens ← if first then some tokens else match tokens with
        | .separator :: rest => some rest
        | _ => none
      match tokens with
      | .flowSequenceEnd :: rest => return ([], rest)
      | .key :: rest =>
        let (key, rest) ← readUnless fuel [.value, .separator, .flowSequenceEnd] false false rest
        let (value, rest) ← readFlowValue fuel .flowSequenceEnd rest
        let (items, rest) ← readFlowItems fuel false rest
        return (.mapping [(key, value)] :: items, rest)
      | tokens =>
        let (item, rest) ← read fuel false false tokens
        let (items, rest) ← readFlowItems fuel false rest
        return (item :: items, rest)

def readFlowEntries : Nat → Bool → List Token → Option (List (Node × Node) × List Token)
  | 0, _, _ => none
  | fuel + 1, first, tokens =>
    match tokens with
    | .flowMappingEnd :: rest => some ([], rest)
    | tokens => do
      let tokens ← if first then some tokens else match tokens with
        | .separator :: rest => some rest
        | _ => none
      match tokens with
      | .flowMappingEnd :: rest => return ([], rest)
      | .key :: rest =>
        let (key, rest) ← readUnless fuel [.value, .separator, .flowMappingEnd] false false rest
        let (value, rest) ← readFlowValue fuel .flowMappingEnd rest
        let (entries, rest) ← readFlowEntries fuel false rest
        return ((key, value) :: entries, rest)
      | .value :: _ =>
        let (value, rest) ← readFlowValue fuel .flowMappingEnd tokens
        let (entries, rest) ← readFlowEntries fuel false rest
        return ((empty, value) :: entries, rest)
      | tokens =>
        let (key, rest) ← read fuel false false tokens
        let (entries, rest) ← readFlowEntries fuel false rest
        return ((key, empty) :: entries, rest)

def readFlowValue : Nat → Token → List Token → Option (Node × List Token)
  | 0, _, _ => none
  | fuel + 1, ender, tokens =>
    match tokens with
    | .value :: rest => readUnless fuel [.separator, ender] false false rest
    | rest => some (empty, rest)

end

def isDirective : Token → Bool
  | .directive _ _ _ => true
  | .handle _ _ => true
  | _ => false

def isVersion : Token → Bool
  | .directive "YAML" _ _ => true
  | _ => false

def isForeignVersion : Token → Bool
  | .directive "YAML" major _ => major != 1
  | _ => false

/-- What the handles of the directives stand for; no handle is given two meanings. -/
def handlesOf : List Token → Option (List (String × String))
  | [] => some []
  | .handle name meaning :: rest => do
    let handles ← handlesOf rest
    if (handles.lookup name).isSome then none else some ((name, meaning) :: handles)
  | _ :: rest => handlesOf rest

/-- The handles that need no directive. -/
def usualHandles : List (String × String) := [("!", "!"), ("!!", "tag:yaml.org,2002:")]

/-- A tag in full, without its handle. -/
def resolveTag (handles : List (String × String)) : Token → Option Token
  | .tag (some handle) suffix => do
    return .tag none ((← (handles ++ usualHandles).lookup handle) ++ suffix)
  | token => some token

/-- Reads the one node of a document, with `none` for a document without any. -/
def readDocument (tokens : List Token) : Option (Option Node) := do
  let tokens := tokens.dropWhile (· == .documentEnd)
  if tokens.isEmpty then return none
  let directives := tokens.takeWhile isDirective
  let tokens := tokens.drop directives.length
  if directives.any isForeignVersion || (directives.filter isVersion).length > 1 then none
  let tokens ← tokens.mapM (resolveTag (← handlesOf directives))
  let tokens ← match tokens with
    | .documentStart :: rest => some rest
    | tokens => if directives.isEmpty then some tokens else none
  let (node, rest) ←
    match tokens with
    | [] => some (empty, [])
    | .documentStart :: _ => none
    | .documentEnd :: _ => some (empty, tokens)
    | tokens => read (4 * tokens.length + 4) true false tokens
  if (rest.dropWhile (· == .documentEnd)).isEmpty then return some node else none

end Node

end WorkflowCompiler.Yaml
