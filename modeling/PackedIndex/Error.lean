import PackedIndex.Bytes
import PackedIndex.Format
import PackedIndex.Text.Hexadecimal
import PackedIndex.Text.Quoted
import PackedIndex.Text.Utf8
/-! # Errors

Every refusal names its cause. A cause belongs to one kind of error, and each kind has one `message`
that gives its wording; `Error.message` puts the kind in front. A cause `stated` in words is for
callers that report a problem of their own in the same way.
-/
namespace PackedIndex

/-- Why the file system refused a request. -/
inductive SystemError where
  | noSuchFile
  | notDirectory
  | isDirectory
  | noDevice
  | numberTooLarge
  | fileTooLarge
  | nameTooLong
  | alreadyExists
  | zeroInName
  | stated (text : String)
deriving DecidableEq, Repr

def SystemError.message : SystemError → String
  | noSuchFile => "No such file or directory (os error 2)"
  | notDirectory => "Not a directory (os error 20)"
  | isDirectory => "Is a directory (os error 21)"
  | noDevice => "No such device (os error 19)"
  | numberTooLarge => "number too large to fit in target type"
  | fileTooLarge => "File too large (os error 27)"
  | nameTooLong => "File name too long (os error 36)"
  | alreadyExists => "File exists (os error 17)"
  | zeroInName => "file name contained an unexpected NUL byte"
  | stated text => text

/-- Why options, attributes, a geometry or a record cannot be used. -/
inductive ArgumentFault where
  | pageTooSmall (least size : Nat)
  | pageTooLarge (most size : Nat)
  | noValueBuffer
  | noKeySize
  | noRecordCount
  | valueSizeNotFixed (format : Format) (valueSize : Nat)
  | pairSizesDiffer (valueSize keySize : Nat)
  | noBlockValueSize
  | leafRecordOverflow
  | leafRecordTooLarge (recordSize pageSize : Nat)
  | branchingOverflow
  | pageHoldsOneChild (pageSize keySize : Nat)
  | fileTooLarge
  | formatMismatch (record index : Format)
  | keyTooLong (size keySize : Nat)
  | pairValueSize (expected size : Nat)
  | blockValueSize (expected size : Nat)
  | blobTooLarge (size : Nat)
  | keyOrder
  | stated (text : String)
deriving DecidableEq, Repr

def ArgumentFault.message : ArgumentFault → String
  | pageTooSmall least size => s!"page_size must be >= {least} bytes, got {size}"
  | pageTooLarge most size => s!"page_size must be <= {most} bytes, got {size}"
  | noValueBuffer => "value_buffer_size must be > 0"
  | noKeySize => "key_size must be > 0"
  | noRecordCount => "record_count must be > 0"
  | valueSizeNotFixed format valueSize =>
    s!"{format.name} format has no fixed value size, got {valueSize}"
  | pairSizesDiffer valueSize keySize =>
    s!"pair format requires value_size == key_size ({valueSize} != {keySize})"
  | noBlockValueSize => "block format requires value_size > 0"
  | leafRecordOverflow => "Leaf record size overflows"
  | leafRecordTooLarge recordSize pageSize =>
    s!"Leaf record of {recordSize} bytes does not fit a {pageSize} byte page"
  | branchingOverflow => "Branching factor overflows"
  | pageHoldsOneChild pageSize keySize =>
    s!"A {pageSize} byte page cannot hold two children for {keySize} byte keys"
  | fileTooLarge => "File layout exceeds the addressable size"
  | formatMismatch record index => s!"{record.name} record given to a {index.name} index"
  | keyTooLong size keySize => s!"Key of {size} bytes exceeds key_size {keySize}"
  | pairValueSize expected size => s!"Pair value must be {expected} bytes, got {size}"
  | blockValueSize expected size => s!"Block value must be {expected} bytes, got {size}"
  | blobTooLarge size => s!"Blob value of {size} bytes is too large"
  | keyOrder => "Keys must be added in strictly increasing order"
  | stated text => text

/-- Why no page geometry exists for attributes and a page size. -/
inductive PlanError where
  | unusable (fault : ArgumentFault)
  | tooManyLevels (levels most : Nat)
deriving DecidableEq, Repr

/-- How the bytes of a file fail to be an index. -/
inductive Damage where
  | attributesTooShort (expected size : Nat)
  | unknownFormat (byte : UInt8)
  | reservedByte
  | headerTooShort (expected size : Nat)
  | wrongMagic (expected magic : Nat)
  | unsupportedVersion (version expected : Nat)
  | unknownFlags (bits : Nat)
  | unsupportedPageSize (size : Nat)
  | unsupportedPointerSize (size : Nat)
  | unusableAttributes (reason : PlanError)
  | geometryMismatch
  | fileTooSmall
  | fileTruncated (size leafEnd : Nat)
  | childPointer (pointer level page slot expected : Nat)
  | extentOutside (offset count size : Nat)
  | stated (text : String)
deriving DecidableEq, Repr

/-- Why a handle or file is not in a state for the operation. -/
inductive Misuse where
  | writerFailed
  | writerClosed
  | comparatorAfterPut
  | levelsOverflowed
  | neverFinalized (path : String)
  | stated (text : String)
deriving DecidableEq, Repr

def Misuse.message : Misuse → String
  | writerFailed => "Writer failed and cannot continue"
  | writerClosed => "Writer is closed"
  | comparatorAfterPut => "Comparator must be set before the first put"
  | levelsOverflowed => "Index levels overflowed the planned layout"
  | neverFinalized path => s!"{Quoted.quote path} was never finalized"
  | stated text => text

inductive Absence where
  | key (bytes : ByteArray)
  | stated (text : String)
deriving DecidableEq

def Absence.message : Absence → String
  | key bytes => s!"key {Quoted.quote (Utf8.lossy bytes)}"
  | stated text => text

/-- How a writer was finished too early. -/
inductive Shortfall where
  | recordCount (expected written : Nat)
  | stated (text : String)
deriving DecidableEq, Repr

def Shortfall.message : Shortfall → String
  | recordCount expected written => s!"Expected {expected} records but {written} were written"
  | stated text => text

def PlanError.message : PlanError → String
  | unusable fault => s!"Invalid argument: {fault.message}"
  | tooManyLevels levels most => s!"Too many levels: {levels} exceeds the maximum of {most}"

def Damage.message : Damage → String
  | attributesTooShort expected size =>
    s!"Attribute record too short: expected {expected}, got {size}"
  | unknownFormat byte => s!"Unknown record format {byte.toNat}"
  | reservedByte => "Attribute reserved byte is not zero"
  | headerTooShort expected size => s!"Header too short: expected {expected}, got {size}"
  | wrongMagic expected magic =>
    "Invalid index magic number: expected " ++ Hexadecimal.marked expected ++ ", got " ++
      Hexadecimal.marked magic
  | unsupportedVersion version expected =>
    s!"Unsupported format version {version} (expected {expected})"
  | unknownFlags bits => "Unknown header flags " ++ Hexadecimal.marked bits
  | unsupportedPageSize size => s!"Unsupported page size {size}"
  | unsupportedPointerSize size => s!"Unsupported pointer size {size}"
  | unusableAttributes reason => s!"Stored attributes are unusable: {reason.message}"
  | geometryMismatch => "Stored geometry does not match the attributes"
  | fileTooSmall => "File too small to be a valid index"
  | fileTruncated size leafEnd => s!"File is truncated: {size} bytes, leaf pages end at {leafEnd}"
  | childPointer pointer level page slot expected =>
    "Child pointer " ++ Hexadecimal.marked pointer ++
      s!" of level {level} page {page} slot {slot} (expected " ++
      Hexadecimal.marked expected ++ ")"
  | extentOutside offset count size => s!"Extent {offset}+{count} exceeds file of {size} bytes"
  | stated text => text

/-- Why an operation on an index failed. -/
inductive Error where
  /-- The file system refused a request. -/
  | io (cause : SystemError)
  /-- Malformed attributes, records or options, or a geometry that cannot be represented. -/
  | invalidArgument (cause : ArgumentFault)
  /-- The key looked for is not in the index. -/
  | notFound (cause : Absence)
  /-- The writer was finished before all declared records were written. -/
  | expectationFailed (cause : Shortfall)
  /-- The index would need more levels than a header can describe. -/
  | tooManyLevels (levels most : Nat)
  /-- A record was put after the declared number was reached. -/
  | tooManyRecords (capacity : Nat)
  /-- The bytes of the file do not describe an index. -/
  | corruption (cause : Damage)
  /-- The stored header checksum differs from that of the header. -/
  | checksumMismatch (expected actual : UInt32)
  /-- The handle or file is not in a state that allows the operation. -/
  | invalidState (cause : Misuse)
deriving DecidableEq

def PlanError.toError : PlanError → Error
  | unusable fault => .invalidArgument fault
  | tooManyLevels levels most => .tooManyLevels levels most

namespace Error

def message : Error → String
  | io cause => s!"IO error: {cause.message}"
  | invalidArgument cause => s!"Invalid argument: {cause.message}"
  | notFound cause => s!"Not found: {cause.message}"
  | expectationFailed cause => s!"Expectation failed: {cause.message}"
  | tooManyLevels levels most => s!"Too many levels: {levels} exceeds the maximum of {most}"
  | tooManyRecords capacity => s!"Too many records: capacity of {capacity} already written"
  | corruption cause => s!"Data corruption: {cause.message}"
  | checksumMismatch expected actual =>
    "Checksum mismatch: expected " ++ Hexadecimal.marked expected.toNat ++ ", got " ++
      Hexadecimal.marked actual.toNat
  | invalidState cause => s!"Invalid state: {cause.message}"

/-- The text of an error followed by the texts of its causes: a refusal by the file system is a
cause of its own. -/
def chain : Error → List String
  | io cause => [message (io cause), cause.message]
  | error => [error.message]

/-- Whether the error says that a key is missing, the one failure that is an answer. -/
def isNotFound : Error → Bool
  | notFound _ => true
  | _ => false

end PackedIndex.Error
