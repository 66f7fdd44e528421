/-!
# Steps shared by the readers

A reader works on the characters that are left of its input. These are the steps that more than
one format needs.
-/

namespace OntoGraph.Text

/-- What follows a token, if the input starts with it. -/
def after? : (token input : List Char) → Option (List Char)
  | [], input => some input
  | _ :: _, [] => none
  | c :: token, d :: input => if c = d then after? token input else none

def hexDigit? (c : Char) : Option Nat :=
  if '0' ≤ c ∧ c ≤ '9' then some (c.toNat - '0'.toNat)
  else if 'a' ≤ c ∧ c ≤ 'f' then some (c.toNat - 'a'.toNat + 10)
  else if 'A' ≤ c ∧ c ≤ 'F' then some (c.toNat - 'A'.toNat + 10)
  else none

def hexNumber? (cs : List Char) : Option Nat :=
  cs.foldlM (fun n c ↦ (hexDigit? c).map (16 * n + ·)) 0

/-- The character with a given code point, which surrogates do not have. -/
def character? (code : Nat) : Option Char :=
  if code.isValidChar then some (Char.ofNat code) else none

def takeHex? (n : Nat) (input : List Char) : Option (Nat × List Char) :=
  if n ≤ input.length then (hexNumber? (input.take n)).map (·, input.drop n) else none

def splitOnce? (separator : Char) (cs : List Char) : Option (List Char × List Char) :=
  match cs.dropWhile (· ≠ separator) with
  | _ :: rest => some (cs.takeWhile (· ≠ separator), rest)
  | [] => none

/-- Lower case of the letters A to Z. -/
def asciiLower (s : String) : String := String.ofList (s.toList.map Char.toLower)

end OntoGraph.Text
