import PackedIndex.Layout
/-! # Planning the geometry

The geometry of a file is a function of its attributes and page size alone, so that every page has
its place before the first record arrives. `plan` counts the pages of the index levels from the
leaves up and places them from the root down. It refuses what 64 bits or the header cannot hold.
-/
namespace PackedIndex.Layout

/-- The page counts of the index levels over `pages` pages, lowest level first, when at most `most`
levels suffice. -/
def levelCounts (branchingFactor : Nat) : (most pages : Nat) → Option (List Nat)
  | 0, pages => if pages ≤ 1 then some [] else none
  | most + 1, pages =>
    if pages ≤ 1 then some []
    else
      let parents := Size.ceilDiv pages branchingFactor
      (levelCounts branchingFactor most parents).map (parents :: ·)

/-- Regions of the given page counts, one behind the other from `offset` on, and the offset behind
the last one. -/
def place (pageSize : Nat) : (offset : Nat) → (counts : List Nat) → Option (List Region × Nat)
  | offset, [] => some ([], offset)
  | offset, pages :: counts => do
    let (regions, stop) ← place pageSize (← Size.checked (offset + pages * pageSize)) counts
    return (⟨offset, pages⟩ :: regions, stop)

def orRefuse (fault : ArgumentFault) : Option α → Except PlanError α
  | some a => .ok a
  | none => .error (.unusable fault)

/-- How many children the index pages of a file have, with eight bytes for a pointer to each and a
key between two. -/
def branching (pageSize keySize : Nat) : Option Nat := do
  let usable ← Size.checked (pageSize + keySize)
  let slot ← Size.checked (keySize + Size.pointer)
  return usable / slot

/-- The geometry of a file of the given attributes on pages of the given size. -/
def plan (attributes : Attributes) (pageSize : Nat) : Except PlanError Layout := do
  attributes.validate.mapError .unusable
  let keySize := attributes.keySize
  let encoding := Encoding.select attributes pageSize
  let leafRecordSize ←
    orRefuse .leafRecordOverflow (encoding.leafRecordSize keySize attributes.valueSize)
  if pageSize < leafRecordSize then
    throw (.unusable (.leafRecordTooLarge leafRecordSize pageSize))
  let recordsPerLeafPage := pageSize / leafRecordSize
  let leafPages := Size.ceilDiv attributes.recordCount recordsPerLeafPage
  let branchingFactor ← orRefuse .branchingOverflow (branching pageSize keySize)
  if branchingFactor < 2 then
    throw (.unusable (.pageHoldsOneChild pageSize keySize))
  match levelCounts branchingFactor Size.mostLevels leafPages with
  | none => throw (.tooManyLevels (Size.mostLevels + 1) Size.mostLevels)
  | some counts =>
    let (levels, leafOffset) ← orRefuse .fileTooLarge (place pageSize pageSize counts.reverse)
    let leafEnd ← orRefuse .fileTooLarge (Size.checked (leafOffset + leafPages * pageSize))
    return {
      pageSize
      keySize
      recordCount := attributes.recordCount
      encoding
      leafRecordSize
      recordsPerLeafPage
      leafPages
      leafOffset
      valueOffset := if encoding.usesValueRegion then leafEnd else 0
      branchingFactor
      levels }

end PackedIndex.Layout
