/-!
# Locations and paths

A location is told by where it starts and by the names that lead from there to it. Steps to the
directory above are carried out as far as they can be, so two ways of telling a location are the
same. A path is how a location is written.
-/

namespace MotionRace

/-- Where a location starts. -/
inductive Origin where
  /-- The root of everything. -/
  | root
  /-- The directory of a store. -/
  | home
  /-- The directory that a path without a start is read from. -/
  | working
  deriving Repr, BEq, DecidableEq

/-- A location. Steps to the directory above stand only before all other names, and never behind the
root. -/
structure Location where
  origin : Origin
  names : List String := []
  deriving Repr, BEq, DecidableEq

namespace Location

/-- The step to the directory above. -/
def up : String := ".."

/-- Whether only steps up lead from the origin to a location. The origin is one of these. -/
def isAncestor (l : Location) : Bool := l.names.all (· == up)

/-- The directory above; the root is above itself. -/
def above (l : Location) : Location :=
  if l.origin == .root || !l.isAncestor then { l with names := l.names.dropLast }
  else { l with names := up :: l.names }

/-- What has a name in a directory. -/
def inside (l : Location) (name : String) : Location := { l with names := l.names ++ [name] }

/-- Whether a location is in a directory, or in one that is in it. -/
def isWithin (l directory : Location) : Bool :=
  l.origin == directory.origin && directory.names.isPrefixOf l.names && l.names != directory.names

/-- How many bytes a name can have. -/
def longestName : Nat := 255

end Location

namespace Path

/-- Whether a text can be a path: no character in it ends one. -/
def isWhole (path : String) : Bool := !path.any (· == '\x00')

/-- What is wrong with a path as such, as the last messages of whatever fails for it. -/
def complaints (path : String) : List String :=
  if isWhole path then [] else ["file name contained an unexpected NUL byte"]

end Path

end MotionRace
