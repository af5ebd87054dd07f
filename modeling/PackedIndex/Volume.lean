import PackedIndex.Volume.Path
import PackedIndex.Volume.Request
/-! # A volume of files

A volume is a directory tree with the contents of its files. A way leads to a file, and an open file
lives on when its name is removed. Every request on a file is counted and may fail as the volume's
fault plan has it.
-/
namespace PackedIndex

/-- The number of a file on its volume. -/
abbrev FileId := Nat

/-- What a name stands for. -/
inductive Entry where
  | directory
  | file (id : FileId)
deriving DecidableEq, Repr

/-- Files, their names, and what goes wrong with them. -/
structure Volume where
  /-- The named files and directories. -/
  entries : List (Way × Entry)
  contents : Array Content
  /-- The block size that the volume reports. -/
  blockSize : Nat
  faults : FaultPlan
  /-- How many requests there have been. -/
  issued : Nat
  /-- Every named file has a content. -/
  file_lt : ∀ way file, (way, Entry.file file) ∈ entries → file < contents.size

namespace Volume

def empty (blockSize : Nat) (faults : FaultPlan) : Volume :=
  { entries := []
    contents := #[]
    blockSize
    faults
    issued := 0
    file_lt := by simp }

def modify (volume : Volume) (file : FileId) (change : Content → Content) : Volume :=
  { volume with
    contents := volume.contents.modify file change
    file_lt := by simpa using volume.file_lt }

def addFile (volume : Volume) (way : Way) : Volume :=
  { volume with
    entries := (way, .file volume.contents.size) :: volume.entries
    contents := volume.contents.push .empty
    file_lt := by
      intro other file h
      rw [Array.size_push]
      rcases List.mem_cons.mp h with h | h
      · cases h
        exact Nat.lt_succ_self _
      · exact Nat.lt_succ_of_lt (volume.file_lt other file h) }

def addDirectory (volume : Volume) (way : Way) : Volume :=
  { volume with
    entries := (way, .directory) :: volume.entries
    file_lt := by simpa using volume.file_lt }

def dropEntry (volume : Volume) (way : Way) : Volume :=
  { volume with
    entries := volume.entries.filter (·.1 ≠ way)
    file_lt := fun other file h => volume.file_lt other file (List.mem_filter.mp h).1 }

def entryAt (volume : Volume) (way : Way) : Option Entry :=
  if way.isAbove then some .directory else volume.entries.lookup way

def walk (volume : Volume) (way : Way) : List String → Except SystemError Way
  | [] => .ok way
  | name :: names => do
    let way ← way.step name
    match volume.entryAt way with
    | some .directory => volume.walk way names
    | some (.file _) => throw .notDirectory
    | none => throw .noSuchFile

/-- The way of a path. All names but the last must be those of directories; the last need not
exist. -/
def way (volume : Volume) (path : Path) : Except SystemError Way := do
  (← volume.walk path.base path.parents).step path.last

def existing (volume : Volume) (path : String) : Except SystemError Entry := do
  let path ← Path.ofString path
  match volume.entryAt (← volume.way path) with
  | some (.file file) => if path.closed then throw .notDirectory else return .file file
  | some .directory => return .directory
  | none => throw .noSuchFile

def content (volume : Volume) (file : FileId) : Content :=
  (volume.contents[file]?).getD .empty

def read (volume : Volume) (path : String) : Except SystemError ByteArray := do
  match ← volume.existing path with
  | .file file => return (volume.content file).toBytes
  | .directory => throw .isDirectory

/-- Opens the file at a path for writing, empty: a new one, or the one that is there. -/
def openEmpty (volume : Volume) (path : String) : Except SystemError (FileId × Volume) := do
  let path ← Path.ofString path
  let directory ← volume.walk path.base path.parents
  if path.isDirectory then throw .isDirectory
  let way ← directory.step path.last
  match volume.entryAt way with
  | some .directory => throw .isDirectory
  | some (.file file) => return (file, volume.modify file fun _ => .empty)
  | none => return (volume.contents.size, volume.addFile way)

def remove (volume : Volume) (path : String) : Except SystemError Volume := do
  match ← volume.existing path with
  | .directory => throw .isDirectory
  | .file _ =>
    return volume.dropEntry (← volume.way (← Path.ofString path))

def makeDirectory (volume : Volume) (path : String) : Except SystemError Volume := do
  let way ← volume.way (← Path.ofString path)
  if (volume.entryAt way).isSome then throw .alreadyExists
  return volume.addDirectory way

def perform (volume : Volume) (file : FileId) (request : Request) :
    Except SystemError Unit × Volume :=
  let counted := { volume with issued := volume.issued + 1 }
  match volume.faults volume.issued request with
  | none => (.ok (), counted.modify file (·.apply request))
  | some fault => (.error fault.cause, counted.modify file (·.applyFailed fault.written request))

/-- Carries out requests in order up to the first that fails. -/
def performAll (volume : Volume) (file : FileId) :
    List Request → Except SystemError Unit × Volume
  | [] => (.ok (), volume)
  | request :: requests =>
    match volume.perform file request with
    | (.ok (), volume) => volume.performAll file requests
    | refused => refused

/-- Puts a file of the given bytes at a path, in place of what it held. -/
def replace (volume : Volume) (path : String) (data : ByteArray) :
    Except SystemError Unit × Volume :=
  match volume.openEmpty path with
  | .error cause => (.error cause, volume)
  | .ok (file, volume) => volume.perform file (.write 0 data)

end PackedIndex.Volume
