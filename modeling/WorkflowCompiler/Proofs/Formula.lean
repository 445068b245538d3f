import WorkflowCompiler.Proofs.RunnerGrammar
import WorkflowCompiler.Builder.Composition

/-! Expressions as their authors compose them, the text that each is meant to have and the term
that the runner is meant to read. Operators put parentheses around operands that a binary operator
made, and nothing else does. -/

namespace WorkflowCompiler.Proofs
open RunnerGrammar (Token Term startsName continuesName)

inductive RunnerFunction
  | contains
  | startsWith
  | endsWith
  | format
  | join
  | toJson
  | fromJson
  | hashFiles
  | always
  | success
  | failure
  | cancelled
deriving DecidableEq, Repr

def RunnerFunction.name : RunnerFunction → String
  | contains => "contains"
  | startsWith => "startsWith"
  | endsWith => "endsWith"
  | format => "format"
  | join => "join"
  | toJson => "toJSON"
  | fromJson => "fromJSON"
  | hashFiles => "hashFiles"
  | always => "always"
  | success => "success"
  | failure => "failure"
  | cancelled => "cancelled"

/-- `combine` and `negated` are the operators written with a sign. -/
inductive Formula
  | null
  | bool (value : Bool)
  | int (value : Int)
  | text (value : String)
  | path (segments : List Label)
  | call (function : RunnerFunction) (arguments : List Formula)
  | compare (operator : Operator) (left right : Formula)
  | group (inner : Formula)
  | combine (operator : Operator) (left right : Formula)
  | negated (inner : Formula)

/-- The arguments that a function takes. A separator of `join` that is null counts as left out. -/
def RunnerFunction.Takes : RunnerFunction → List Formula → Prop
  | contains, arguments => arguments.length = 2
  | startsWith, arguments => arguments.length = 2
  | endsWith, arguments => arguments.length = 2
  | format, arguments => arguments ≠ []
  | join, [_] => True
  | join, [_, separator] => separator ≠ .null
  | join, _ => False
  | toJson, arguments => arguments.length = 1
  | fromJson, arguments => arguments.length = 1
  | hashFiles, arguments => arguments ≠ []
  | always, arguments => arguments = []
  | success, arguments => arguments = []
  | failure, arguments => arguments = []
  | cancelled, arguments => arguments = []

def isName (text : String) : Bool :=
  match text.toList with
  | [] => false
  | first :: rest => startsName first && rest.all continuesName

def keywords : List String := ["null", "true", "false"]

def isComparison : Operator → Bool
  | .and => false
  | .or => false
  | _ => true

namespace Formula

/-- Whether a binary operator made the formula. -/
def isCompound : Formula → Bool
  | compare _ _ _ => true
  | combine _ _ _ => true
  | _ => false

/-- Whether the formula is composed, and not a value of its own. -/
def isComposed : Formula → Bool
  | call _ _ => true
  | group _ => true
  | negated _ => true
  | formula => formula.isCompound

mutual

/-- What can be composed. An operator with a sign needs a composed operand. -/
def WellFormed : Formula → Prop
  | path segments =>
    (∀ segment ∈ segments, isName segment.chars) ∧ ∃ first ∈ segments.head?, first.chars ∉ keywords
  | call function arguments => function.Takes arguments ∧ AllWellFormed arguments
  | compare operator left right =>
    isComparison operator ∧ left.isCompound = false ∧ right.isCompound = false ∧
      left.WellFormed ∧ right.WellFormed
  | group inner => inner.WellFormed
  | combine operator left right =>
    isComparison operator = false ∧ (left.isComposed || right.isComposed) ∧
      left.WellFormed ∧ right.WellFormed
  | negated inner => inner.isComposed ∧ inner.WellFormed
  | _ => True

def AllWellFormed : List Formula → Prop
  | [] => True
  | formula :: rest => formula.WellFormed ∧ AllWellFormed rest

end

mutual

/-- The term that a formula stands for: grouping shows in its shape alone. -/
def meaning : Formula → Term
  | null => .null
  | bool value => .bool value
  | int value => .int value
  | text value => .text value
  | path segments => .reference (segments.map Label.chars)
  | call function arguments => .call function.name (meanings arguments)
  | compare operator left right => .binary operator left.meaning right.meaning
  | group inner => inner.meaning
  | combine operator left right => .binary operator left.meaning right.meaning
  | negated inner => .negation inner.meaning

def meanings : List Formula → List Term
  | [] => []
  | formula :: rest => formula.meaning :: meanings rest

end

/-- Puts what an operand consists of between parentheses if the operand is compound. -/
def enclosed (opening closing : α) (compound : Bool) (parts : List α) : List α :=
  if compound then opening :: parts ++ [closing] else parts

def spaced (operator : Operator) (left right : List Char) : List Char :=
  left ++ ' ' :: operator.text.toList ++ ' ' :: right

mutual

/-- The text of a formula. -/
def chars : Formula → List Char
  | null => "null".toList
  | bool value => (Tree.boolText value).toList
  | int value => (toString value).toList
  | text value => (Build.quotedLiteral value).toList
  | path segments => (dotted segments).toList
  | call function arguments =>
    function.name.toList ++ '(' :: [',', ' '].intercalate (allChars arguments) ++ [')']
  | compare operator left right => spaced operator left.chars right.chars
  | group inner => enclosed '(' ')' true inner.chars
  | combine operator left right =>
    spaced operator (enclosed '(' ')' left.isCompound left.chars)
      (enclosed '(' ')' right.isCompound right.chars)
  | negated inner => '!' :: enclosed '(' ')' inner.isCompound inner.chars

def allChars : List Formula → List (List Char)
  | [] => []
  | formula :: rest => formula.chars :: allChars rest

end

mutual

/-- The tokens of that text. -/
def tokens : Formula → List Token
  | null => [.name "null"]
  | bool value => [.name (Tree.boolText value)]
  | int value => [.int value]
  | text value => [.text value]
  | path segments => [Token.dot].intercalate (segments.map fun segment => [.name segment.chars])
  | call function arguments =>
    .name function.name :: .opening :: [Token.comma].intercalate (allTokens arguments) ++ [.closing]
  | compare operator left right => left.tokens ++ .operator operator :: right.tokens
  | group inner => enclosed .opening .closing true inner.tokens
  | combine operator left right =>
    enclosed .opening .closing left.isCompound left.tokens ++
      .operator operator :: enclosed .opening .closing right.isCompound right.tokens
  | negated inner => .negation :: enclosed .opening .closing inner.isCompound inner.tokens

def allTokens : List Formula → List (List Token)
  | [] => []
  | formula :: rest => formula.tokens :: allTokens rest

end

end Formula

end WorkflowCompiler.Proofs
