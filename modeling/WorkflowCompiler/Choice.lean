/-! Names with a fixed set of members: the operators of the runner's expressions, the labels of
hosted runners, the shells of a script and the presets for permissions. Each member has a
documented label beside the text that it stands for. -/

namespace WorkflowCompiler

inductive Operator
  | less
  | lessOrEqual
  | greater
  | greaterOrEqual
  | equal
  | notEqual
  | and
  | or
deriving DecidableEq, Repr

namespace Operator

def all : List Operator := [less, lessOrEqual, greater, greaterOrEqual, equal, notEqual, and, or]

def text : Operator → String
  | less => "<"
  | lessOrEqual => "<="
  | greater => ">"
  | greaterOrEqual => ">="
  | equal => "=="
  | notEqual => "!="
  | and => "&&"
  | or => "||"

def label : Operator → String
  | less => "LESS_THAN"
  | lessOrEqual => "LESS_THAN_OR_EQUAL"
  | greater => "GREATER_THAN"
  | greaterOrEqual => "GREATER_THAN_OR_EQUAL"
  | equal => "EQUAL"
  | notEqual => "NOT_EQUAL"
  | and => "AND"
  | or => "OR"

def ofText? (text : String) : Option Operator := all.find? (·.text == text)

end Operator

inductive Runner
  | ubuntuLatest
  | ubuntu2404
  | ubuntu2204
  | ubuntu2404Arm
  | windowsLatest
  | windows2025
  | windows2022
  | macosLatest
  | macos15
  | macos14
  | macos13
  | selfHosted
deriving DecidableEq, Repr

namespace Runner

def all : List Runner :=
  [ubuntuLatest, ubuntu2404, ubuntu2204, ubuntu2404Arm, windowsLatest, windows2025, windows2022,
    macosLatest, macos15, macos14, macos13, selfHosted]

def text : Runner → String
  | ubuntuLatest => "ubuntu-latest"
  | ubuntu2404 => "ubuntu-24.04"
  | ubuntu2204 => "ubuntu-22.04"
  | ubuntu2404Arm => "ubuntu-24.04-arm"
  | windowsLatest => "windows-latest"
  | windows2025 => "windows-2025"
  | windows2022 => "windows-2022"
  | macosLatest => "macos-latest"
  | macos15 => "macos-15"
  | macos14 => "macos-14"
  | macos13 => "macos-13"
  | selfHosted => "self-hosted"

def label : Runner → String
  | ubuntuLatest => "UBUNTU_LATEST"
  | ubuntu2404 => "UBUNTU_24_04"
  | ubuntu2204 => "UBUNTU_22_04"
  | ubuntu2404Arm => "UBUNTU_24_04_ARM"
  | windowsLatest => "WINDOWS_LATEST"
  | windows2025 => "WINDOWS_2025"
  | windows2022 => "WINDOWS_2022"
  | macosLatest => "MACOS_LATEST"
  | macos15 => "MACOS_15"
  | macos14 => "MACOS_14"
  | macos13 => "MACOS_13"
  | selfHosted => "SELF_HOSTED"

end Runner

inductive Shell
  | bash
  | pwsh
  | python
  | sh
  | cmd
  | powershell
deriving DecidableEq, Repr

namespace Shell

def all : List Shell := [bash, pwsh, python, sh, cmd, powershell]

def text : Shell → String
  | bash => "bash"
  | pwsh => "pwsh"
  | python => "python"
  | sh => "sh"
  | cmd => "cmd"
  | powershell => "powershell"

def label : Shell → String
  | bash => "BASH"
  | pwsh => "PWSH"
  | python => "PYTHON"
  | sh => "SH"
  | cmd => "CMD"
  | powershell => "POWERSHELL"

end Shell

inductive Permissions
  | readAll
  | writeAll
deriving DecidableEq, Repr

namespace Permissions

def all : List Permissions := [readAll, writeAll]

def text : Permissions → String
  | readAll => "read-all"
  | writeAll => "write-all"

def label : Permissions → String
  | readAll => "READ_ALL"
  | writeAll => "WRITE_ALL"

end Permissions

/-- A member of one of the sets. -/
inductive Choice
  | operator (value : Operator)
  | runner (value : Runner)
  | shell (value : Shell)
  | permissions (value : Permissions)
deriving DecidableEq, Repr

namespace Choice

def all : List Choice :=
  Operator.all.map operator ++ Runner.all.map runner ++ Shell.all.map shell
    ++ Permissions.all.map permissions

/-- The text that the member stands for. -/
def text : Choice → String
  | operator value => value.text
  | runner value => value.text
  | shell value => value.text
  | permissions value => value.text

def setName : Choice → String
  | operator _ => "Operator"
  | runner _ => "Runner"
  | shell _ => "Shell"
  | permissions _ => "PermissionAll"

def memberName : Choice → String
  | operator value => value.label
  | runner value => value.label
  | shell value => value.label
  | permissions value => value.label

/-- The set and the member, as in `Shell.BASH`. -/
def label (choice : Choice) : String := s!"{choice.setName}.{choice.memberName}"

def ofLabel? (setName memberName : String) : Option Choice :=
  all.find? fun choice => choice.setName == setName && choice.memberName == memberName

end Choice

end WorkflowCompiler
