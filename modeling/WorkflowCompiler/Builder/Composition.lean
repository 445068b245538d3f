import WorkflowCompiler.Builder.Workspace

/-! Composition of expressions. Values given to an operator or function become literals: texts
in single quotes with each quote doubled, truth values and null in small letters, sequences as
their items with commas between them. The operators written with a sign put parentheses around
compound operands; the plain functions take operands as they are. -/

namespace WorkflowCompiler.Build

def scalarText? : Value → Option String
  | .bool value => some (Tree.boolText value)
  | .int value => some (toString value)
  | .float value => some value.text
  | _ => none

/-- A text as a literal of the expression language. -/
def quotedLiteral (text : String) : String :=
  String.ofList ('\'' :: text.toList.flatMap (fun c => if c == '\'' then ['\'', '\''] else [c]) ++ ['\''])

/-- The fragment that a value is; nothing for null. -/
def fragment? (value : Value) : Except Failure (Option Fragment) :=
  match value with
  | .null => .ok none
  | .expression identity => .ok (some (.nested identity))
  | value =>
    match value.chars?, value.segments?, scalarText? value with
    | some text, _, _ => .ok (some (.text text))
    | _, some segments, _ => .ok (some (.path segments))
    | _, _, some text => .ok (some (.text text))
    | _, _, _ => .error (.ofCause (.notAFragment value.typeName))

/-- Appends fragments one by one. -/
def addFragments (identity : Nat) : List Value → Build Unit
  | [] => return ()
  | value :: rest => do
    if let some fragment ← ofExcept (fragment? value) then
      modifyExpression identity fun expression =>
        { expression with contents := expression.contents ++ [fragment] }
    addFragments identity rest

/-- An expression from fragments. -/
def compose (compound : Bool) (values : List Value) : Build Value := do
  let fragments ← ofExcept (values.mapM fragment?)
  return .expression (← newExpression { contents := fragments.filterMap id, compound })

def commaSeparated (values : List Value) : List Value := values.intersperse (.text ", ")

mutual

/-- The literal for a value. -/
def literal : Value → Build Value
  | .null => return .text "null"
  | .expression identity => return .expression identity
  | .bytes values => do
    compose false (commaSeparated (values.map fun value => .text (toString value)))
  | .list items => do compose false (commaSeparated (← literals items))
  | .tuple items => do compose false (commaSeparated (← literals items))
  | value =>
    match value.segments?, value.chars?, scalarText? value with
    | some _, _, _ => return value
    | _, some text, _ => return .text (quotedLiteral text)
    | _, _, some text => return .text text
    | _, _, _ => fail (.notALiteral value.typeName)

def literals : List Value → Build (List Value)
  | [] => return []
  | value :: rest => do return (← literal value) :: (← literals rest)

end

def binary (left : Value) (operator : Operator) (right : Value) : Build Value := do
  let left ← literal left
  let right ← literal right
  compose true [left, .text " ", .text operator.text, .text " ", right]

/-- A binary operator given by its name. -/
def binaryNamed (left operator right : Value) : Build Value := do
  match operator.chars?.bind Operator.ofText? with
  | some operator => binary left operator right
  | none => fail (.notAnOperator (← ask (·.shown operator)))

def negation (value : Value) : Build Value := do
  compose false [.text "!", ← literal value]

def group (value : Value) : Build Value := do
  compose false [.text "(", ← literal value, .text ")"]

/-- The operand of an operator, in parentheses if it is compound. -/
def operand (value : Value) : Build Value := do
  match value with
  | .expression identity => if ((← store).expression identity).compound then group value else return value
  | value => return value

def runnerCall (name : String) (arguments : List Value) : Build Value := do
  let arguments ← literals arguments
  compose false (.text (name ++ "(") :: commaSeparated arguments ++ [.text ")"])

def isExpression : Value → Bool
  | .expression _ => true
  | _ => false

def conjunction (left right : Value) : Build Value := do
  let left ← operand left
  binary left .and (← operand right)

def disjunction (left right : Value) : Build Value := do
  let left ← operand left
  binary left .or (← operand right)

/-- A binary operation on the two's complement digits of integers. -/
def onDigits (operation : (width : Nat) → BitVec width → BitVec width → BitVec width)
    (left right : Int) : Int :=
  let width := max left.natAbs.log2 right.natAbs.log2 + 2
  (operation width (BitVec.ofInt width left) (BitVec.ofInt width right)).toInt

def digits? : Value → Option Int
  | .bool value => some (if value then 1 else 0)
  | .int value => some value
  | _ => none

/-- Numbers combined digit by digit, two truth values into a truth value. -/
def combineDigits (operation : (width : Nat) → BitVec width → BitVec width → BitVec width)
    (left right : Value) : Build Value :=
  match left, right, digits? left, digits? right with
  | .bool _, .bool _, some left, some right => return .bool (onDigits operation left right != 0)
  | _, _, some left, some right => return .int (onDigits operation left right)
  | _, _, _, _ => fail .mistyped

/-- The `&` operator. -/
def conjoin (left right : Value) : Build Value :=
  if isExpression left || isExpression right then conjunction left right
  else combineDigits (fun _ left right => left &&& right) left right

/-- The `|` operator, which also joins events and mappings. -/
def disjoin (left right : Value) : Build Value :=
  match left, right with
  | .event kind settings, right => ofExcept (Event.join kind settings right)
  | .map left, .map right => return .map (Event.update left right)
  | left, right =>
    if isExpression left || isExpression right then disjunction left right
    else combineDigits (fun _ left right => left ||| right) left right

/-- The `~` operator. -/
def invert (value : Value) : Build Value := do
  match value with
  | .expression _ => negation (← operand value)
  | value =>
    match digits? value with
    | some number => return .int (-number - 1)
    | none => fail .mistyped

/-- An expression as it stands in a plain text. -/
def interpolated (value : Value) : Build String := do
  match ← compose false [value] with
  | .expression identity => return interpolation (← ask (·.expressionText identity))
  | _ => return ""

/-- Texts as they are, all else interpolated on its own. -/
def concatenation : List Value → Build String
  | [] => return ""
  | value :: rest => do
    let text ← match value.chars? with
      | some text => pure text
      | none => interpolated value
    return text ++ (← concatenation rest)

/-- A value inside a line of a script. -/
def lineText (value : Value) : Build String := do
  match value with
  | .expression identity => return interpolation (← ask (·.expressionText identity))
  | .bool value => return Tree.boolText value
  | value =>
    match value.segments? with
    | some segments => return interpolation (dotted segments)
    | none => ask (·.wording value)

end WorkflowCompiler.Build
