import OntoGraph.Number.Power

/-!
# New names for nodes

A new node is named by a URN that holds a random UUID: thirty-two hexadecimal digits in groups, of
which one gives the version and one the variant. The other digits are those of a number.
-/

namespace OntoGraph.Graph

open Number

def hexDigits (count n : Nat) : List Char :=
  (List.range count).reverse.map fun i ↦ Nat.digitChar (n / twoTo (4 * i) % 16)

/-- The UUID of version four whose free digits are those of a number. -/
def uuid (n : Nat) : String :=
  let digits := hexDigits 30 n
  String.ofList <|
    digits.take 8 ++ ['-'] ++ (digits.drop 8).take 4 ++ ['-', '4'] ++ (digits.drop 12).take 3
      ++ ['-', 'a'] ++ (digits.drop 15).take 3 ++ ['-'] ++ digits.drop 18

def urn (n : Nat) : String := "urn:uuid:" ++ uuid n

end OntoGraph.Graph
