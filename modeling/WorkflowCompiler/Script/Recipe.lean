import WorkflowCompiler.Builder.Known

/-! Recipes: descriptions of values. Evaluating a recipe makes its objects afresh, so that a
recipe can be the body of a function that a builder calls back. -/

namespace WorkflowCompiler

/-- Functions on values. -/
inductive Builtin
  | literal
  | expression
  | wrap
  | binary
  | compare (operator : Operator)
  | negate
  | group
  | runnerCall (name : String)
  | joinTexts
  | concat
  | status (name : String)
  | create
  | isExpression
  | conjoin
  | disjoin
  | invert
  | truth
  | wording
  | shown
  | isPath
  | pathText
  | plain
  | commandText
  | asList
  | isEmpty
  | interpolation
  | equals
  | sameHash
deriving DecidableEq, Repr

namespace Builtin

/-! The functions of the runner that are called under a name of their own, and the checks of how
the steps before went. -/

def contains : Builtin := .runnerCall "contains"

def startsWith : Builtin := .runnerCall "startsWith"

def endsWith : Builtin := .runnerCall "endsWith"

def format : Builtin := .runnerCall "format"

def toJson : Builtin := .runnerCall "toJSON"

def fromJson : Builtin := .runnerCall "fromJSON"

def hashFiles : Builtin := .runnerCall "hashFiles"

def always : Builtin := .status "always"

def success : Builtin := .status "success"

def failure : Builtin := .status "failure"

def cancelled : Builtin := .status "cancelled"

end Builtin

/-- Commands that a step prints to talk to the runner. -/
inductive CommandKind
  | debug
  | notice (kind : String)
  | mask
  | output
  | env
  | group
  | verbatim
deriving DecidableEq, Repr

namespace CommandKind

def setNotice : CommandKind := .notice "notice"

def setWarning : CommandKind := .notice "warning"

def setError : CommandKind := .notice "error"

end CommandKind

/-- Steps for common actions. -/
inductive Preset
  | checkout
  | setupPython
  | setupUv
  | setupRust
  | setupNode
  | cache
  | uploadArtifact
  | downloadArtifact
deriving DecidableEq, Repr

/-- Makers of events and inputs: `on` takes the usual settings first, `event` and `input` take all
of them in the documented order. -/
inductive Factory
  | on (kind : EventKind)
  | event (kind : EventKind)
  | input (kind : InputKind)
deriving DecidableEq, Repr

/-- An operation on an object is the name of a method and recipes for its arguments. -/
inductive Recipe
  | value (value : Value)
  | foreign (typeName : String)
  | list (items : List Recipe)
  | tuple (items : List Recipe)
  | map (entries : List (Recipe × Recipe))
  | path (segments : List Recipe)
  | pathLike (segments : Recipe)
  | append (path : Recipe) (segments : List Recipe)
  | attributes (object : Recipe) (names : List String)
  | contextPath (root : String) (segments : List Recipe)
  | contextName (helper : String) (arguments segments : List Recipe)
  | apply (function : Builtin) (arguments : List Recipe)
  | command (kind : CommandKind) (arguments : List Recipe) (named : List (String × Recipe))
  | preset (kind : Preset) (arguments : List Recipe) (named : List (String × Recipe))
      (operations : List (String × List Recipe))
  | event (factory : Factory) (arguments : List Recipe) (named : List (String × Recipe))
  | step (known : Option Known) (operations : List (String × List Recipe))
  | job (operations : List (String × List Recipe))
  | workflow (name fileName : Recipe) (operations : List (String × List Recipe))
  | builder (operations : List (String × List Recipe)) (result : Option Recipe)
  | callback (body : Recipe)
  | register (name : String)
  | failure (category : Category) (message : Recipe) (children : List Recipe) (collects : Bool)
deriving Inhabited

abbrev Operation := String × List Recipe

end WorkflowCompiler
