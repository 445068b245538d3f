/-! Tokens of a YAML document. Block structure, which the document shows by indentation, has
tokens of its own. -/

namespace WorkflowCompiler.Yaml

inductive Token
  | directive (name : String) (major minor : Nat)
  /-- What a handle in front of a tag stands for. -/
  | handle (name meaning : String)
  | documentStart
  | documentEnd
  | blockSequence
  | blockMapping
  | blockEnd
  | flowSequence
  | flowSequenceEnd
  | flowMapping
  | flowMappingEnd
  | entry
  | separator
  | key
  | value
  | reference (name : String)
  | anchor (name : String)
  | tag (handle : Option String) (suffix : String)
  | scalar (text : String) (plain : Bool)
deriving DecidableEq, Repr

end WorkflowCompiler.Yaml
