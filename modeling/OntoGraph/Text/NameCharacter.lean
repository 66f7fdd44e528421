import OntoGraph.Iri.Grammar

/-!
# Characters of names

The characters that names and the labels of blank nodes consist of, as Turtle lays them down.
-/

namespace OntoGraph.Text

open Number

def isNameStart (c : Char) : Bool :=
  let n := c.toNat
  Iri.isLetter c
    || (0xC0 ≤ n && n ≤ 0x2FF && n != 0xD7 && n != 0xF7)
    || (0x370 ≤ n && n ≤ 0x1FFF && n != 0x37E)
    || (0x200C ≤ n && n ≤ 0x200D) || (0x2070 ≤ n && n ≤ 0x218F) || (0x2C00 ≤ n && n ≤ 0x2FEF)
    || (0x3001 ≤ n && n ≤ 0xD7FF) || (0xF900 ≤ n && n ≤ 0xFDCF) || (0xFDF0 ≤ n && n ≤ 0xFFFD)
    || (0x10000 ≤ n && n ≤ 0xEFFFF)

/-- A character that may start a label: as for a name, or an underscore. -/
def isLabelStart (c : Char) : Bool := isNameStart c || c == '_'

def isNameChar (c : Char) : Bool :=
  let n := c.toNat
  isLabelStart c || c == '-' || isAsciiDigit c || n == 0xB7 || (0x300 ≤ n && n ≤ 0x36F)
    || (0x203F ≤ n && n ≤ 0x2040)

end OntoGraph.Text
