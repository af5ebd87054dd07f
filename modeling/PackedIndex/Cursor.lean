import PackedIndex.Layout
/-! # Where the next separator goes

An index is filled from the left. On each level a cursor stands on the page being filled. When a new
leaf page starts, its first key is a separator for the lowest level; a level whose page is full moves
on to its next page and passes the key to the level above, as a counter passes a carry.
-/
namespace PackedIndex

/-- The position on one index level. -/
structure LevelCursor where
  /-- The file offset of the page being filled. -/
  offset : Nat
  /-- The number of that page in its level. -/
  page : Nat
  /-- The separators already in that page. -/
  separators : Nat
  /-- The pages of the level. -/
  pages : Nat
deriving DecidableEq, Repr

structure Placement where
  /-- The level, counted from the root. Every level below it moved on to a fresh page. -/
  level : Nat
  page : Nat
  slot : Nat
deriving DecidableEq, Repr

/-- The positions on all index levels, root first. -/
structure Cursors where
  levels : List LevelCursor
  pageSize : Nat
  /-- The separators that an index page has room for. -/
  mostSeparators : Nat
deriving DecidableEq, Repr

namespace Cursors

def start (layout : Layout) : Cursors :=
  { levels := layout.levels.map fun region => ⟨region.offset, 0, 0, region.pages⟩
    pageSize := layout.pageSize
    mostSeparators := layout.branchingFactor - 1 }

/-- Gives one separator a place, trying the levels from the lowest up. Answers how many levels moved
on with the page and slot of the place, or nothing when a level has no page left; levels that moved
on stay there. -/
def carry (pageSize mostSeparators : Nat) :
    List LevelCursor → Option (Nat × Nat × Nat) × List LevelCursor
  | [] => (none, [])
  | cursor :: above =>
    if cursor.separators < mostSeparators then
      (some (0, cursor.page, cursor.separators),
        { cursor with separators := cursor.separators + 1 } :: above)
    else if cursor.page + 1 < cursor.pages then
      let (found, above) := carry pageSize mostSeparators above
      (found.map fun (moved, place) => (moved + 1, place),
        { cursor with
          offset := cursor.offset + pageSize
          page := cursor.page + 1
          separators := 0 } :: above)
    else (none, cursor :: above)

/-- Gives the first key of a new child page its place as a separator. There is none when more pages
were started than the layout has. -/
def propagate (cursors : Cursors) : Option Placement × Cursors :=
  let (found, levels) := carry cursors.pageSize cursors.mostSeparators cursors.levels.reverse
  (found.map fun (moved, page, slot) => ⟨cursors.levels.length - 1 - moved, page, slot⟩,
    { cursors with levels := levels.reverse })

def page (cursors : Cursors) (level : Nat) : Nat :=
  (cursors.levels[level]?).elim 0 (·.page)

end PackedIndex.Cursors
