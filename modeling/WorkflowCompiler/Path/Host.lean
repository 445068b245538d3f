import WorkflowCompiler.Failure

/-! Hosts of `file:` addresses. A host is dropped, but it is looked at: in brackets stands an address
of the sixth version, or of one that is yet to come, and no character in it stands for a sign. -/

namespace WorkflowCompiler.Address

def hexDigit? (c : Char) : Option Nat :=
  if c.isDigit then some (c.toNat - '0'.toNat)
  else if 'a' ≤ c ∧ c ≤ 'f' then some (c.toNat - 'a'.toNat + 10)
  else if 'A' ≤ c ∧ c ≤ 'F' then some (c.toNat - 'A'.toNat + 10)
  else none

def isHexDigit (c : Char) : Bool := (hexDigit? c).isSome

/-- A part of an address of the fourth version: a number below 256 without zeros in front. -/
def isOctet (text : List Char) : Bool :=
  text.all Char.isDigit && (text == ['0'] || text.head?.any (· != '0')) &&
    text.length ≤ 3 && text.foldl (fun value digit => 10 * value + (digit.toNat - '0'.toNat)) 0 ≤ 255

def isFourth (text : List Char) : Bool :=
  let octets := text.splitOn '.'
  octets.length == 4 && octets.all isOctet

/-- A part of an address of the sixth version. -/
def isGroup (text : List Char) : Bool := !text.isEmpty && text.length ≤ 4 && text.all isHexDigit

/-- How many groups there are on one side of those that are left out; none on a side where the
address begins or ends with that. -/
def sideSize? (side : List (List Char)) : Option Nat :=
  if side == [[]] then some 0 else if side.all isGroup then some side.length else none

/-- Groups that are all there, or that leave out a run of zeros once. -/
def areGroups (groups : List (List Char)) : Bool :=
  match groups.tail.dropLast.countP List.isEmpty with
  | 0 => groups.length == 8 && groups.all isGroup
  | 1 =>
    let left := groups.tail.findIdx List.isEmpty + 1
    match sideSize? (groups.take left), sideSize? (groups.drop (left + 1)) with
    | some before, some after => before + after ≤ 7
    | _, _ => false
  | _ => false

/-- An address of the sixth version. One of the fourth may stand for its last two groups, and behind
a percent sign a zone may be named. -/
def isSixth (text : List Char) : Bool :=
  let address := text.takeWhile (· != '%')
  let zone := text.drop address.length
  let groups := address.splitOn ':'
  let last := groups.getLastD []
  (zone.isEmpty || zone.length != 1 && !zone.tail.contains '%') &&
    if last.contains '.' then isFourth last && areGroups (groups.dropLast ++ [['0'], ['0']])
    else areGroups groups

/-- What follows the letter of an address of a version to come: its number, a dot and the rest. -/
def isFuture (text : List Char) : Bool :=
  let version := text.takeWhile isHexDigit
  match text.drop version.length with
  | '.' :: _ :: _ => !version.isEmpty
  | _ => false

def bracketFault? : List Char → Option Cause
  | 'v' :: rest => if isFuture rest then none else some .hostOfNoVersion
  | text =>
    if isFourth text then some .hostOfFourth
    else if isSixth text then none
    else some (.notAHost (String.ofList text))

/-- Characters that are equivalent to texts with one of the signs `/`, `?`, `#`, `@` and `:`. -/
def standsForSign (c : Char) : Bool :=
  ['\u2047', '\u2048', '\u2049', '\u2100', '\u2101', '\u2105', '\u2106', '\u2A74', '\uFE13', '\uFE16',
    '\uFE55', '\uFE56', '\uFE5F', '\uFE6B', '\uFF03', '\uFF0F', '\uFF1A', '\uFF1F', '\uFF20'].contains c

/-- What is wrong with a host, if anything is. -/
def hostFault? (host : List Char) : Option Cause :=
  let bracketed := (host.dropWhile (· != '[')).tail.takeWhile (· != ']')
  if host.contains '[' != host.contains ']' then some .unbalancedHost
  else (if host.contains '[' then bracketFault? bracketed else none) <|>
    (if host.any standsForSign then some (.disguisedHost (String.ofList host)) else none)

end WorkflowCompiler.Address
