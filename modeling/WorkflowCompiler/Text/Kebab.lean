/-! Kebab case. A display name is cut into words: a run of capitals keeps together, except
that its last letter opens the next word when small letters follow; a capital may open a run
of small letters; a run of digits is a word; every other character separates words. Only
ASCII letters and digits count. -/

namespace WorkflowCompiler.Text

/-- How many characters the word at the front of `text` has; zero if none starts there. -/
def wordLength (text : List Char) : Nat :=
  let capitals := (text.takeWhile Char.isUpper).length
  let small := ((text.drop capitals).takeWhile Char.isLower).length
  match capitals, small with
  | 0, 0 => (text.takeWhile Char.isDigit).length
  | 0, small => small
  | 1, small => 1 + small
  | 2, _ => 2
  | more + 1, 0 => more + 1
  | more + 1, _ => more

def words (text : List Char) : List (List Char) :=
  match text with
  | [] => []
  | first :: rest =>
    match wordLength (first :: rest) with
    | 0 => words rest
    | length + 1 => (first :: rest.take length) :: words (rest.drop length)
termination_by text.length

/-- `HTTPServer 2` becomes `http-server-2`. -/
def kebab (name : String) : String :=
  "-".intercalate ((words name.toList).map fun word => String.ofList (word.map Char.toLower))

end WorkflowCompiler.Text
