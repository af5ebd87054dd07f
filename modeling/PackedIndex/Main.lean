import PackedIndex.Command.Dump
import PackedIndex.Command.Load
/-! # The command line

`load` builds an index file and `dump` describes one. The command runs on a volume that holds what the
host has at the paths among its arguments; a file that it made, changed or removed there is then made,
changed or removed on the host.
-/
namespace PackedIndex.Host

def hasWay (way : Way) : IO Bool := do
  try
    discard <| IO.FS.realPath ("/".intercalate way)
    return true
  catch _ => return false

/-- The volume with the directories that a path leads through. -/
def addDirectories (volume : Volume) (path : Path) : IO Volume := do
  let mut volume := volume
  let mut way := path.base
  for name in path.parents do
    match way.step name with
    | .error _ => return volume
    | .ok next => way := next
    if (volume.entryAt way).isNone && (← hasWay way) then
      volume := volume.addDirectory way
  return volume

def addPath (volume : Volume) (path : String) : IO Volume := do
  let volume ← match Path.ofString path with
    | .ok path => addDirectories volume path
    | .error _ => pure volume
  if (volume.existing path).isOk then return volume
  match ← (IO.FS.readBinFile path).toBaseIO with
  | .ok data => return (volume.replace path data).2
  | .error (.noFileOrDirectory ..) => return volume
  | .error _ =>
    match volume.makeDirectory path with
    | .ok volume => return volume
    | .error _ => return volume

def writePath (before after : Volume) (path : String) : IO Unit := do
  match (before.read path).toOption, (after.read path).toOption with
  | old, some data => if old != some data then IO.FS.writeBinFile path data
  | some _, none => IO.FS.removeFile path
  | none, none => return ()

def volumeOf (paths : List String) : IO Volume :=
  (paths.filter (!·.isEmpty)).foldlM addPath (Volume.empty 4096 (FaultPlan.blocks 4096))

def report (outcome : Command.Outcome) : IO UInt32 := do
  (← IO.getStdout).putStr outcome.stdout
  (← IO.getStderr).putStr outcome.stderr
  return outcome.code.toUInt32

end PackedIndex.Host

open PackedIndex in
def main : List String → IO UInt32
  | "load" :: arguments => do
    match Command.Load.request arguments with
    | none => Host.report (Command.Load.run arguments ByteArray.empty (← Host.volumeOf [])).1
    | some (input, job) =>
      let stdin ← if input = "-" then (← IO.getStdin).readBinToEnd else pure ByteArray.empty
      let volume ← Host.volumeOf [input, job.output]
      let (outcome, after) := Command.Load.run arguments stdin volume
      Host.writePath volume after job.output
      Host.report outcome
  | "dump" :: arguments => do
    let paths := (Command.Dump.request arguments).elim [] fun (_, input) => [input]
    Host.report (Command.Dump.run arguments (← Host.volumeOf paths))
  | _ => Host.report (.misused "load|dump [ARGUMENTS]")
