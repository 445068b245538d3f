import WorkflowCompiler.Diff.Hunk
import WorkflowCompiler.Text.Lines

/-! A difference as people read it: expected lines behind a minus, received lines behind a
plus, at most so many changed lines of one kind in a row. -/

namespace WorkflowCompiler.Diff

structure Options where
  /-- A run of changes of one kind this long ends with a marker in place of its last line. -/
  runLimit : Int := 15
  legend : Bool := true
  /-- Changed lines longer than this are cut. -/
  width : Option Int := none
deriving Repr

inductive Side
  | expected
  | received
deriving DecidableEq, Repr

def Side.sign : Side → String
  | .expected => "-"
  | .received => "+"

/-- What the report shows for a line of a hunk. -/
inductive Entry
  | context (text : String)
  | changed (side : Side) (text : String)
  | cut (side : Side)
  | gap
deriving Repr, DecidableEq

/-- Shortens runs. A run is counted over context and gaps: only a change of the other kind ends
it. `run` tells the kind and length of the current one. -/
def shorten (limit : Int) (run : Option Side × Int) : List Entry → List Entry
  | [] => []
  | .changed side text :: rest =>
    let length := if run.1 = some side then run.2 + 1 else 1
    let rest := shorten limit (some side, length) rest
    if length = limit then .cut side :: rest
    else if length > limit then rest
    else .changed side text :: rest
  | entry :: rest => entry :: shorten limit run rest

def entry : Line → Entry
  | .kept text => .context text
  | .removed text => .changed .expected text
  | .added text => .changed .received text

/-- The lines of all hunks with a gap between them. -/
def entries (hunks : List (List Line)) : List Entry :=
  [Entry.gap].intercalate (hunks.map fun hunk => hunk.map entry)

def countOf (side : Side) (lines : List Entry) : Nat :=
  lines.countP fun
    | .changed other _ => other == side
    | _ => false

/-- Cuts a text to `width` characters, the last of them an ellipsis. -/
def clip (width : Option Int) (text : String) : String :=
  match width with
  | none => text
  | some width =>
    if (text.length : Int) ≤ width then text
    else String.ofList (text.toList.take (width - 1).toNat) ++ "…"

/-- One line of the report; a lone pair of changes is shown without signs. -/
def Entry.text (options : Options) (lonePair : Bool) : Entry → String
  | .context text => "  " ++ text
  | .changed side text =>
    let shown := clip options.width text
    if lonePair then shown else s!"{side.sign} {shown}"
  | .cut side => s!"{side.sign} ..."
  | .gap => "--"

/-- The report on two texts that differ in `changes`. -/
def report (options : Options) (changes : List Entry) : List String :=
  let removed := countOf .expected changes
  let added := countOf .received changes
  let shown := shorten options.runLimit (none, 0) changes
  let lonePair := removed == 1 && added == 1 && shown.length == 2
  let texts := shown.map (Entry.text options lonePair)
  match options.legend, lonePair, texts with
  | false, _, _ => texts
  | true, true, [first, second] => [s!"- Expected   {first}", s!"+ Received   {second}"]
  | true, _, _ => s!"- Expected  - {removed}" :: s!"+ Received  + {added}" :: "" :: texts

/-- The difference of what was received from what was expected; empty if there is none. -/
def difference (options : Options) (received expected : String) : String :=
  if received == expected then ""
  else
    let changes := entries (hunks (edits (Text.lines expected) (Text.lines received)))
    "\n".intercalate ((report options changes).map ("  " ++ ·))

end WorkflowCompiler.Diff
