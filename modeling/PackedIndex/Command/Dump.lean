import PackedIndex.Command.Arguments
import PackedIndex.Description
/-! # The dump command

Prints the description of an index file.
-/
namespace PackedIndex.Command.Dump

def switches : List Switch :=
  [⟨"records", none, false⟩]

def usage : String :=
  "pagetree-dump [OPTIONS] <INPUT>"

/-- What the arguments ask for: whether to print the records, and the file to describe. -/
def request (arguments : List String) : Option (Bool × String) := do
  let parsed ← Arguments.parse switches arguments
  match parsed.operands with
  | [input] =>
    if input.isEmpty then none
    return ((parsed.options.lookup "records").isSome, input)
  | _ => none

def run (arguments : List String) (volume : Volume) : Outcome :=
  match request arguments with
  | none => .misused usage
  | some (withRecords, path) =>
    match Reader.openPath volume path KeyOrder.bytewise with
    | .error error => .failure "pagetree-dump" (s!"cannot open {Quoted.quote path}" :: error.chain)
    | .ok reader =>
      match reader.describe withRecords with
      | .error damage => .failure "pagetree-dump" (Error.corruption damage).chain
      | .ok document => .success (document.toText ++ "\n")

end PackedIndex.Command.Dump
