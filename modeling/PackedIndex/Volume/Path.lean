import PackedIndex.Error
/-! # Paths

A path names a file by the names on the way to it. A way starts at the working directory or at the
root; `.` stays where it is and `..` goes back by one name.
-/
namespace PackedIndex

/-- The names on the way to a file or directory; none stands for the working directory. -/
abbrev Way := List String

namespace Way

def root : Way := ["/"]

/-- Whether a way leads to a directory that is always there: the working directory, those above it, and
the root. -/
def isAbove (way : Way) : Bool :=
  way.all (· = "..") || way = root

def parent (way : Way) : Way :=
  if way = root then root
  else if way.all (· = "..") then way ++ [".."]
  else way.dropLast

def mostName : Nat := 255

def step (way : Way) (name : String) : Except SystemError Way :=
  if name = "." then .ok way
  else if name = ".." then .ok way.parent
  else if mostName < name.utf8ByteSize then .error .nameTooLong
  else .ok (way ++ [name])

end Way

/-- A path taken apart at its slashes. -/
structure Path where
  base : Way
  /-- The names before the last one. -/
  parents : List String
  last : String
  /-- Whether a slash follows the last name, which is then that of a directory. -/
  closed : Bool
deriving DecidableEq, Repr

namespace Path

/-- The first length of a path, in bytes, that is too long. -/
def sizeLimit : Nat := 4096

def ofString (text : String) : Except SystemError Path :=
  let names := (text.splitOn "/").filter (· ≠ "")
  if text.toList.contains '\x00' then .error .zeroInName
  else if text.isEmpty then .error .noSuchFile
  else if sizeLimit ≤ text.utf8ByteSize then .error .nameTooLong
  else .ok
    { base := if text.startsWith "/" then Way.root else []
      parents := names.dropLast
      last := names.getLast?.getD "."
      closed := text.endsWith "/" }

/-- Whether the last name can only be that of a directory. -/
def isDirectory (path : Path) : Bool :=
  path.closed || path.last = "." || path.last = ".."

end PackedIndex.Path
