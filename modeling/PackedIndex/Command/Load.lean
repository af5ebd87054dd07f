import PackedIndex.Command.Arguments
import PackedIndex.Load
/-! # The load command

Builds an index file from a file of lines, or from the standard input where the file is named `-`.
-/
namespace PackedIndex.Command.Load

def switches : List Switch :=
  [⟨"input-format", some 'I', true⟩, ⟨"output-format", some 'O', true⟩]

def usage : String :=
  "pagetree-load [OPTIONS] <NUM_RECORDS> <INPUT> <OUTPUT>"

/-- What the arguments ask for: where the lines come from, and what to build from them. Lines are
always comma-separated, and blobs are built unless another format is asked for. -/
def request (arguments : List String) : Option (String × PackedIndex.Load.Job) := do
  let parsed ← Arguments.parse switches arguments
  if (parsed.options.lookup "input-format").getD "csv" ≠ "csv" then none
  let format ← Format.ofName? ((parsed.options.lookup "output-format").getD "blob")
  match parsed.operands with
  | [records, input, output] =>
    let records ← parseCount records
    if output.isEmpty then none
    return (input, { format, records, output })
  | _ => none

def run (arguments : List String) (stdin : ByteArray) (volume : Volume) : Outcome × Volume :=
  match request arguments with
  | none => (.misused usage, volume)
  | some (path, job) =>
    let input := if path = "-" then .ok (Input.ofBytes stdin) else Input.openPath volume path
    match input with
    | .error cause =>
      (.failure "pagetree-load" (PackedIndex.Load.Failure.cannotOpen path cause).chain, volume)
    | .ok input =>
      match job.run volume input with
      | (.ok (), volume) => (.success "", volume)
      | (.error failure, volume) => (.failure "pagetree-load" failure.chain, volume)

end PackedIndex.Command.Load
