import PackedIndex.Content
import PackedIndex.Error
/-! # Requests on a file

A file is changed by requests: a write at an offset, a change of length, and two that change nothing.
A request can fail, and a write that fails may have stored a first part of its bytes. A fault plan
says which requests fail.
-/
namespace PackedIndex

inductive Request where
  /-- Puts `data` at `offset`. -/
  | write (offset : Nat) (data : ByteArray)
  /-- Cuts the file to `size` bytes, or extends it with zeros. -/
  | setLength (size : Nat)
  /-- Waits until the file has reached the disk. -/
  | sync
  /-- Asks for the length or the block size of the file. -/
  | status
deriving DecidableEq

/-- How a request fails: of a write, the first `written` bytes are stored all the same. -/
structure Fault where
  written : Nat
  cause : SystemError

/-- Which requests fail, by the number of requests issued before. -/
abbrev FaultPlan := (issued : Nat) → Request → Option Fault

namespace Content

def apply (content : Content) : Request → Content
  | .write offset data => content.write offset data
  | .setLength size => content.setLength size
  | .sync | .status => content

def applyFailed (content : Content) (written : Nat) : Request → Content
  | .write offset data => content.write offset (data.extract 0 written)
  | _ => content

end Content

namespace FaultPlan

def none : FaultPlan :=
  fun _ _ => Option.none

def capped (most : Nat) : FaultPlan
  | _, .write offset data =>
    if data.size ≠ 0 ∧ most < offset + data.size then some ⟨most - offset, .fileTooLarge⟩
    else Option.none
  | _, .setLength size => if most < size then some ⟨0, .fileTooLarge⟩ else Option.none
  | _, _ => Option.none

/-- Lengths are signed 64-bit numbers. -/
def signedLengths : FaultPlan
  | _, .setLength size => if 0x8000000000000000 ≤ size then some ⟨0, .numberTooLarge⟩ else Option.none
  | _, _ => Option.none

def either (first second : FaultPlan) : FaultPlan :=
  fun issued request => (first issued request).or (second issued request)

/-- What a disk refuses that numbers the blocks of a file in 32 bits. -/
def blocks (blockSize : Nat) : FaultPlan :=
  either signedLengths (capped (0xFFFFFFFF * blockSize))

end PackedIndex.FaultPlan
