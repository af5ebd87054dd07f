import PackedIndex.Text.Quoted
import PackedIndex.Volume.Input
import PackedIndex.Writer
/-! # Building an index from lines

Each line of the input is a key, a comma and a value. The first line fixes the width of the keys and,
for blocks, of the values. The first line at fault ends the run, and then no file is left behind.
-/
namespace PackedIndex.Load

/-- Why no index was built from lines. -/
inductive Failure where
  | cannotOpen (path : String) (cause : SystemError)
  | cannotRead (line : Nat) (cause : SystemError)
  | malformed (line : Nat) (text : String)
  | cannotCreate (path : String) (cause : Error)
  | pairSizes (line : Nat)
  | blockSizes (line : Nat)
  | refused (line : Nat) (cause : Error)
  | noLines
  | cannotFinish (cause : Error)
deriving DecidableEq

def Failure.chain : Failure → List String
  | cannotOpen path cause => [s!"cannot open {path}", cause.message]
  | cannotRead line cause => [s!"cannot read line {line}", cause.message]
  | malformed line text => [s!"line {line} is not `key,value`: {Quoted.quote text}"]
  | cannotCreate path cause => s!"cannot create {Quoted.quote path}" :: cause.chain
  | pairSizes line =>
    [s!"line {line}: 'pair' format requires keys and values of the same size"]
  | blockSizes line =>
    [s!"line {line}: 'block' format requires all values to be the same size"]
  | refused line cause => s!"line {line}" :: cause.chain
  | noLines => ["input is empty"]
  | cannotFinish cause => "cannot finish index file" :: cause.chain

/-- What is to be built, and where. -/
structure Job where
  format : Format
  /-- The number of records that the input is said to have. -/
  records : Nat
  output : String

def chomp (line : List UInt8) : List UInt8 :=
  match line.reverse with
  | 10 :: 13 :: rest => rest.reverse
  | 10 :: rest => rest.reverse
  | _ => line

/-- A line split at its first comma into a key, which must not be empty, and a value without leading
spaces. Carriage returns and line feeds at the end belong to neither. -/
def splitLine (line : List UInt8) : Option (ByteArray × ByteArray) :=
  let line := (line.reverse.dropWhile fun byte => byte = 10 ∨ byte = 13).reverse
  let key := line.takeWhile (· ≠ 44)
  match line.dropWhile (· ≠ 44) with
  | [] => none
  | _ :: value =>
    if key.isEmpty then none
    else some (key.toByteArray, (value.dropWhile (· = 32)).toByteArray)

def Job.attributes (job : Job) (key value : ByteArray) : Attributes :=
  match job.format with
  | .atom => .atom key.size job.records
  | .pair => .pair key.size job.records
  | .block => .block key.size value.size job.records
  | .blob => .blob key.size job.records

def record (attributes : Attributes) (line : Nat) (key value : ByteArray) :
    Except Failure Record :=
  match attributes.format with
  | .atom => .ok (.atom key)
  | .pair => if value.size ≠ attributes.keySize then .error (.pairSizes line) else .ok (.pair key value)
  | .block =>
    if value.size ≠ attributes.valueSize then .error (.blockSizes line) else .ok (.block key value)
  | .blob => .ok (.blob key value)

def parseLine (number : Nat) (line : ByteArray) : Except Failure (ByteArray × ByteArray) :=
  match Utf8.strict? line with
  | none => .error (.cannotRead number (.stated "stream did not contain valid UTF-8"))
  | some _ =>
    let bytes := chomp line.data.toList
    match splitLine bytes with
    | none => .error (.malformed number (Utf8.lossy bytes.toByteArray))
    | some parts => .ok parts

/-- The writer for a line: the one at work, or for the first line a new one. -/
def Job.writerFor (job : Job) (volume : Volume) (key value : ByteArray) :
    Option Writer → Except Failure Writer × Volume
  | some writer => (.ok writer, volume)
  | none =>
    match Writer.create volume job.output (job.attributes key value) {} with
    | (.ok writer, volume) => (.ok writer, volume)
    | (.error cause, volume) => (.error (.cannotCreate job.output cause), volume)

/-- Takes a line. When it is at fault, the writer is gone and its file with it. -/
def Job.takeLine (job : Job) (volume : Volume) (writer : Option Writer) (number : Nat)
    (line : ByteArray) : Except Failure Writer × Volume :=
  let dropped := fun volume => (writer.elim volume fun writer : Writer => writer.drop volume)
  match parseLine number line with
  | .error failure => (.error failure, dropped volume)
  | .ok (key, value) =>
    match job.writerFor volume key value writer with
    | (.error failure, volume) => (.error failure, volume)
    | (.ok writer, volume) =>
      match record writer.header.attributes number key value with
      | .error failure => (.error failure, writer.drop volume)
      | .ok record =>
        match writer.put volume record with
        | (.ok (), writer, volume) => (.ok writer, volume)
        | (.error cause, writer, volume) => (.error (.refused number cause), writer.drop volume)

/-- Takes the lines of the input from number `number` on, at most `most`, and finishes the file. An
accepted line is a record, so that one line more than there are records is always enough. -/
def Job.takeLines (job : Job) (volume : Volume) (writer : Option Writer) (input : Input)
    (number : Nat) : (most : Nat) → Except Failure Unit × Volume
  | 0 => (.error .noLines, writer.elim volume fun writer : Writer => writer.drop volume)
  | most + 1 =>
    match input.line volume with
    | (.error cause, _) =>
      (.error (.cannotRead number cause), writer.elim volume fun writer : Writer => writer.drop volume)
    | (.ok line, input) =>
      if line.size = 0 then
        match writer with
        | none => (.error .noLines, volume)
        | some writer =>
          match writer.finish volume with
          | (.ok _, volume) => (.ok (), volume)
          | (.error cause, volume) => (.error (.cannotFinish cause), volume)
      else
        match job.takeLine volume writer number line with
        | (.error failure, volume) => (.error failure, volume)
        | (.ok writer, volume) => job.takeLines volume (some writer) input (number + 1) most

def Job.run (job : Job) (volume : Volume) (input : Input) : Except Failure Unit × Volume :=
  job.takeLines volume none input 1 (job.records + 1)

end PackedIndex.Load
