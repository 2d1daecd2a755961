/-!
# Segments of a path

The parts of a text between marks, and texts inside one another.
-/

namespace Jukebox.Text

/-- Whether a text occurs inside another one. -/
def occursIn (part : List Char) : List Char → Bool
  | [] => part.isEmpty
  | c :: cs => part.isPrefixOf (c :: cs) || occursIn part cs

/-- What stands behind the last mark, or the whole text without one. -/
def afterLast (mark : Char) (cs : List Char) : List Char :=
  (cs.reverse.takeWhile (· ≠ mark)).reverse

/-- What stands in front of the first mark, or the whole text without one. -/
def beforeFirst (mark : Char) (cs : List Char) : List Char := cs.takeWhile (· ≠ mark)

/-- The name of the file that a path ends in, without its extension. -/
def fileStem (path : String) : String :=
  String.ofList (beforeFirst '.' (afterLast '/' path.toList))

end Jukebox.Text
