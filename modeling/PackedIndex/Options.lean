import PackedIndex.Error
import PackedIndex.Size
/-! # Options of a writer

What a caller may choose about how an index is laid out and written.
-/
namespace PackedIndex

/-- The choices of a writer. -/
structure Options where
  /-- The page size in bytes; without one, the block size of the file system. -/
  pageSize : Option Nat := none
  /-- Whether a key that is not greater than the one before it is refused. -/
  verifyOrder : Bool := true
  /-- How many bytes of values are gathered before they are written. -/
  valueBufferSize : Nat := 1024 * 1024
  /-- Whether finishing waits until the file has reached the disk. -/
  syncOnFinish : Bool := true
deriving DecidableEq, Repr

def Options.validate (options : Options) : Except ArgumentFault Unit := do
  if let some size := options.pageSize then
    if size < Size.header then throw (.pageTooSmall Size.header size)
    if Size.mostPage < size then throw (.pageTooLarge Size.mostPage size)
  if options.valueBufferSize = 0 then throw .noValueBuffer

end PackedIndex
