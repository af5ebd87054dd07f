import PackedIndex.Volume
/-! # Reading lines

A source of lines is a run of bytes at hand and, for a file, the place from which more are fetched in
blocks. Lines are fetched as they are asked for, so that changes to the file in between show.
-/
namespace PackedIndex

/-- A place in a stream of bytes. -/
structure Input where
  /-- Bytes that were fetched. -/
  fetched : ByteArray
  /-- How many of these were taken. -/
  taken : Nat
  /-- The file that more bytes come from, and the offset of the next ones. -/
  source : Option (Entry × Nat)

namespace Input

def blockSize : Nat := 8192

def ofBytes (data : ByteArray) : Input :=
  ⟨data, 0, none⟩

def openPath (volume : Volume) (path : String) : Except SystemError Input :=
  (volume.existing path).map fun entry => ⟨ByteArray.empty, 0, some (entry, 0)⟩

def lineFeed? (data : ByteArray) (i : Nat) : Option Nat :=
  if h : i < data.size then if data[i] = 10 then some i else lineFeed? data (i + 1) else none
termination_by data.size - i

def take (input : Input) (stop : Nat) : ByteArray × Input :=
  (input.fetched.extract input.taken stop, { input with taken := stop })

/-- Takes a line with its line feed from a file, from `offset` on. There is no line feed before
`clear` in what was fetched of it. The last line may lack one. -/
def lineOfFile (content : Content) (file : FileId) (fetched : ByteArray) (clear offset : Nat) :
    ByteArray × Input :=
  let input := Input.mk fetched 0 (some (.file file, offset))
  match lineFeed? fetched clear with
  | some i => input.take (i + 1)
  | none =>
    let block := content.read offset blockSize
    if block.size = 0 then input.take fetched.size
    else lineOfFile content file (fetched ++ block) fetched.size (offset + block.size)
termination_by content.size - offset
decreasing_by
  rename_i h
  simp only [block, Content.size_read] at h ⊢
  omega

/-- Takes a line with its line feed; an empty one only at the end of the stream. -/
def line (volume : Volume) (input : Input) : Except SystemError ByteArray × Input :=
  match input.source with
  | some (.file file, offset) =>
    let rest := input.fetched.extract input.taken input.fetched.size
    let (line, input) := lineOfFile (volume.content file) file rest 0 offset
    (.ok line, input)
  | some (.directory, _) => (.error .isDirectory, input)
  | none =>
    let stop := (lineFeed? input.fetched input.taken).elim input.fetched.size (· + 1)
    let (line, input) := input.take stop
    (.ok line, input)

end PackedIndex.Input
