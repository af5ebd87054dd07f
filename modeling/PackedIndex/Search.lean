import PackedIndex.KeyOrder
/-! # Searching a page

The keys of a page are scanned from the left. A separator is the first key of the child to its
right, so a query goes to the child after the last separator that it is not less than; in a leaf
page, the first key greater than the query proves that the query is absent.
-/
namespace PackedIndex.Search

/-- The key of `keySize` bytes at the start of item `slot`, for items of `stride` bytes. -/
def keyAt (page : ByteArray) (stride keySize slot : Nat) : ByteArray :=
  page.extract (slot * stride) (slot * stride + keySize)

/-- Scans `count` more keys from `slot` on for one that the query is not greater than. Answers its
slot, and whether the query is equal to it. -/
def scan (order : KeyOrder) (query page : ByteArray) (stride keySize : Nat) :
    (slot count : Nat) → Option (Nat × Bool)
  | _, 0 => none
  | slot, count + 1 =>
    match order query (keyAt page stride keySize slot) with
    | .gt => scan order query page stride keySize (slot + 1) count
    | .eq => some (slot, true)
    | .lt => some (slot, false)

/-- The child slot of an index page to go down to. The page starts with `separators` keys. -/
def findChild (order : KeyOrder) (query page : ByteArray) (keySize separators : Nat) : Nat :=
  match scan order query page keySize keySize 0 (min separators (page.size / keySize)) with
  | some (slot, equal) => if equal then slot + 1 else slot
  | none => separators

/-- The place of the record with the queried key among the first `records` leaf records. -/
def findInLeaf (order : KeyOrder) (query page : ByteArray) (recordSize keySize records : Nat) :
    Option Nat :=
  match scan order query page recordSize keySize 0 (min records (page.size / recordSize)) with
  | some (slot, equal) => if equal then some slot else none
  | none => none

end PackedIndex.Search
