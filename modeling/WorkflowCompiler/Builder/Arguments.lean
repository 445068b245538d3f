import WorkflowCompiler.Builder.Workspace

/-! Arguments of the makers: some by position, some by name. An argument that no parameter takes
and one that is given twice are refused. -/

namespace WorkflowCompiler.Build

/-- The arguments under the names of their parameters; `positional` are the parameters that may be
given by position, `named` the others. -/
def bindArguments (positional named : List String) (values : List Value)
    (namedValues : List (String × Value)) : Build (List (String × Value)) := do
  let placed := positional.zip values
  if values.length > positional.length then fail .mistyped
  for (name, _) in namedValues do
    if !(positional ++ named).contains name || placed.any (·.1 == name) then fail .mistyped
  return placed ++ namedValues

def argument? (arguments : List (String × Value)) (name : String) : Option Value :=
  arguments.lookup name

def argument (arguments : List (String × Value)) (name : String) : Build Value :=
  match argument? arguments name with
  | some value => return value
  | none => fail .mistyped

def argumentOr (default : Value) (arguments : List (String × Value)) (name : String) : Value :=
  (argument? arguments name).getD default

end WorkflowCompiler.Build
