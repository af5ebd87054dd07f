import PackedIndex.Size
/-! # Command-line arguments

Arguments are options and operands in any order. An option has a long name, and may have a letter; its
value is attached or is the next argument. After `--` everything is an operand, and `-` alone is one
too. An option may be given once.
-/
namespace PackedIndex.Command

structure Switch where
  long : String
  letter : Option Char
  takesValue : Bool

/-- The options given, by long name with their values, and the operands. -/
structure Arguments where
  options : List (String × String)
  operands : List String

namespace Arguments

def addOption (arguments : Arguments) (switch : Switch) (value : String) : Option Arguments :=
  if (arguments.options.lookup switch.long).isSome then none
  else some { arguments with options := (switch.long, value) :: arguments.options }

/-- Whether an argument looks like an option, and so is not the value of one. -/
def looksLikeOption (argument : String) : Bool :=
  argument.startsWith "-" && argument ≠ "-"

/-- The value behind the `=` of a letter or long name, if there is one. -/
def attached (text : List Char) : List Char × Option String :=
  match text.dropWhile (· ≠ '=') with
  | [] => (text, none)
  | _ :: value => (text.takeWhile (· ≠ '='), some (String.ofList value))

def readOption (switches : List Switch) (argument : List Char) :
    Option (Switch × Option String) := do
  match argument with
  | '-' :: '-' :: text =>
    let (name, value) := attached text
    let switch ← switches.find? (·.long = String.ofList name)
    return (switch, value)
  | '-' :: letter :: text =>
    let switch ← switches.find? (·.letter = some letter)
    match text with
    | [] => return (switch, none)
    | '=' :: value => return (switch, some (String.ofList value))
    | value => return (switch, some (String.ofList value))
  | _ => none

/-- Reads arguments for a command that knows the given options. Nothing for arguments that the
command cannot be called with. -/
def parse (switches : List Switch) : List String → Option Arguments
  | [] => some ⟨[], []⟩
  | argument :: rest =>
    if argument = "--" then some ⟨[], rest⟩
    else if looksLikeOption argument then
      match readOption switches argument.toList with
      | none => none
      | some (switch, some value) =>
        if switch.takesValue then (parse switches rest).bind (·.addOption switch value) else none
      | some (switch, none) =>
        if switch.takesValue then
          match rest with
          | value :: rest =>
            if looksLikeOption value then none
            else (parse switches rest).bind (·.addOption switch value)
          | [] => none
        else (parse switches rest).bind (·.addOption switch "")
    else (parse switches rest).map fun arguments =>
      { arguments with operands := argument :: arguments.operands }

end Arguments

/-- The number that all of `text` spells in decimal digits behind an optional `+`, when 64 bits hold
it. -/
def parseCount (text : String) : Option Nat :=
  let digits := match text.toList with
    | '+' :: digits => digits
    | digits => digits
  if digits.isEmpty || !digits.all (·.isDigit) then none
  else
    Size.checked (digits.foldl (fun n digit => 10 * n + (digit.toNat - '0'.toNat)) 0)

/-- What a command leaves behind: its exit code and what it printed. -/
structure Outcome where
  code : Nat
  stdout : String
  stderr : String
deriving DecidableEq, Repr

def Outcome.success (stdout : String) : Outcome :=
  ⟨0, stdout, ""⟩

def Outcome.failure (command : String) (chain : List String) : Outcome :=
  ⟨1, "", command ++ ": " ++ ": ".intercalate chain ++ "\n"⟩

def Outcome.misused (usage : String) : Outcome :=
  ⟨2, "", "Usage: " ++ usage ++ "\n"⟩

end PackedIndex.Command
