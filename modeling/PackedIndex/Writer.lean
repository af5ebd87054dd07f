import PackedIndex.Writer.Step
/-! # Building an index file

A writer builds an index in one pass over records in ascending key order. Its file is provisional
until the writer is finished; a writer that is abandoned, dropped or fails removes it. After a failed
request a writer takes nothing more.
-/
namespace PackedIndex.Writer

/-- The page size where the caller does not choose one: the block size of the volume, if pages can
have it. -/
def defaultPageSize (volume : Volume) : Nat :=
  if Size.header ≤ volume.blockSize ∧ volume.blockSize ≤ Size.mostPage then volume.blockSize
  else 4096

/-- Issues the requests of a step. A refused one leaves the writer failed. -/
def Step.issue (step : Step) (volume : Volume) : Except Error Unit × Writer × Volume :=
  match volume.performAll step.writer.file step.requests with
  | (.ok (), volume) => (.ok (), step.writer, volume)
  | (.error cause, volume) => (.error (.io cause), { step.writer with state := .failed }, volume)

def issueAll (writer : Writer) (volume : Volume) :
    List Step → Except Error Unit × Writer × Volume
  | [] => (.ok (), writer, volume)
  | step :: steps =>
    match step.issue volume with
    | (.ok (), writer, volume) => issueAll writer volume steps
    | refused => refused

/-- Removes the file of a writer that will not be finished; a failure to do so is not reported. -/
def removeQuietly (volume : Volume) (path : String) : Volume :=
  match volume.remove path with
  | .ok volume => volume
  | .error _ => volume

/-- What can be refused before a file is touched. With a page size chosen, this includes the
geometry. -/
def planFixed (attributes : Attributes) (options : Options) : Except Error (Option Layout) := do
  options.validate.mapError .invalidArgument
  attributes.validate.mapError .invalidArgument
  match options.pageSize with
  | some size => return some (← (Layout.plan attributes size).mapError PlanError.toError)
  | none => return none

/-- The geometry for an open file: the one planned already, or one for the block size of its
volume. -/
def planOn (volume : Volume) (file : FileId) (attributes : Attributes) :
    Option Layout → Except Error Layout × Volume
  | some layout => (.ok layout, volume)
  | none =>
    match volume.perform file .status with
    | (.error cause, volume) => (.error (.io cause), volume)
    | (.ok (), volume) =>
      ((Layout.plan attributes (defaultPageSize volume)).mapError PlanError.toError, volume)

/-- Creates the file at a path, in place of any that is there, and a writer for it. -/
def create (volume : Volume) (path : String) (attributes : Attributes) (options : Options) :
    Except Error Writer × Volume :=
  match planFixed attributes options with
  | .error error => (.error error, volume)
  | .ok fixed =>
    match volume.openEmpty path with
    | .error cause => (.error (.io cause), volume)
    | .ok (file, volume) =>
      match planOn volume file attributes fixed with
      | (.error error, volume) => (.error error, removeQuietly volume path)
      | (.ok layout, volume) =>
        match (start path file attributes layout options).issue volume with
        | (.ok (), writer, volume) => (.ok writer, volume)
        | (.error error, _, volume) => (.error error, removeQuietly volume path)

/-- Checks key order by `order` from now on, which must be before the first record. -/
def setOrder (writer : Writer) (order : KeyOrder) : Except Error Unit × Writer :=
  if 0 < writer.written then (.error (.invalidState .comparatorAfterPut), writer)
  else (.ok (), { writer with order })

/-- Takes a record. A refused record changes nothing; a refused request fails the writer. -/
def put (writer : Writer) (volume : Volume) (record : Record) :
    Except Error Unit × Writer × Volume :=
  match writer.ensureAccepting with
  | .error error => (.error error, writer, volume)
  | .ok () =>
    match writer.approve record with
    | .error error => (.error error, writer, volume)
    | .ok key =>
      match writer.append key record with
      | none =>
        (.error (.invalidState .levelsOverflowed), { writer with state := .failed }, volume)
      | some steps => issueAll writer volume steps

def putMany (writer : Writer) (volume : Volume) :
    List Record → Except Error Unit × Writer × Volume
  | [] => (.ok (), writer, volume)
  | record :: records =>
    match writer.put volume record with
    | (.ok (), writer, volume) => putMany writer volume records
    | refused => refused

def abandon (writer : Writer) (volume : Volume) : Except Error Unit × Volume :=
  match volume.remove writer.path with
  | .ok volume => (.ok (), volume)
  | .error cause => (.error (.io cause), volume)

/-- Lets go of a writer. One that was not finished removes its file. -/
def drop (writer : Writer) (volume : Volume) : Volume :=
  match writer.state with
  | .accepting | .failed => removeQuietly volume writer.path
  | .finished | .discarded => volume

/-- Completes the file and answers its length. Without the declared number of records, or when a
request is refused, the file is removed. -/
def finish (writer : Writer) (volume : Volume) : Except Error Nat × Volume :=
  match writer.ensureAccepting with
  | .error error => (.error error, writer.drop volume)
  | .ok () =>
    if writer.written ≠ writer.layout.recordCount then
      (.error (.expectationFailed (.recordCount writer.layout.recordCount writer.written)),
        removeQuietly volume writer.path)
    else
      match writer.commit.issue volume with
      | (.ok (), writer, volume) => (.ok (volume.content writer.file).size, volume)
      | (.error error, writer, volume) => (.error error, writer.drop volume)

end PackedIndex.Writer
