/-!
# Powers of two and of ten

The scales of binary and of decimal numbers.
-/

namespace OntoGraph.Number

def twoTo (n : Nat) : Nat := Nat.pow 2 n

def tenTo (n : Nat) : Nat := Nat.pow 10 n

end OntoGraph.Number
