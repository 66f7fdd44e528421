import OntoGraph.Text.CodePoints

/-!
# Blank characters

The characters with the property White_Space, and trimming by them.
-/

namespace OntoGraph.Text

/-- The characters with the property White_Space. -/
def blanks : Boundaries := #[
  9, 14, 32, 33, 133, 134, 160, 161, 5760, 5761, 8192, 8203, 8232, 8234, 8239, 8240, 8287, 8288,
  12288, 12289]

def isBlank (c : Char) : Bool := blanks.has c

def dropRightWhile (p : Char → Bool) (cs : List Char) : List Char :=
  (cs.reverse.dropWhile p).reverse

def trimBy (p : Char → Bool) (cs : List Char) : List Char :=
  dropRightWhile p (cs.dropWhile p)

def trim (s : String) : String := String.ofList (trimBy isBlank s.toList)

end OntoGraph.Text
