import OntoGraph.Iri.Grammar
import OntoGraph.Text.Digit

/-!
# Semantic versions

A version has three numbers with points between them, an optional list of pre-release identifiers
after a hyphen, and an optional list of build identifiers after a plus sign. Inside a number any
decimal digit may stand after the first; which digits start one is fixed to ASCII.
-/

namespace OntoGraph.Text

/-- Zero, or a number that starts with one of the digits 1 to 9. -/
def isVersionNumber : List Char → Bool
  | [] => false
  | ['0'] => true
  | c :: rest => decide ('1' ≤ c) && decide (c ≤ '9') && rest.all isDecimalDigit

def isIdentifierLetter (c : Char) : Bool := Iri.isLetter c || c == '-'

def isIdentifierChar (c : Char) : Bool := isIdentifierLetter c || Number.isAsciiDigit c

/-- Digits, then a letter or hyphen, then any characters of an identifier. -/
def isAlphanumericIdentifier (cs : List Char) : Bool :=
  match cs.dropWhile isDecimalDigit with
  | c :: rest => isIdentifierLetter c && rest.all isIdentifierChar
  | [] => false

/-- An identifier of a pre-release: a number, or alphanumeric. -/
def isPreReleaseIdentifier (cs : List Char) : Bool :=
  isVersionNumber cs || isAlphanumericIdentifier cs

def isBuildIdentifier (cs : List Char) : Bool := cs != [] && cs.all isIdentifierChar

def isVersionCore (cs : List Char) : Bool :=
  let parts := Iri.splitOn '.' cs
  parts.length == 3 && parts.all isVersionNumber

def isVersionWithoutBuild (cs : List Char) : Bool :=
  match splitOnce? '-' cs with
  | some (core, preRelease) =>
    isVersionCore core && (Iri.splitOn '.' preRelease).all isPreReleaseIdentifier
  | none => isVersionCore cs

def isVersion (s : String) : Bool :=
  match splitOnce? '+' s.toList with
  | some (version, build) =>
    isVersionWithoutBuild version && (Iri.splitOn '.' build).all isBuildIdentifier
  | none => isVersionWithoutBuild s.toList

end OntoGraph.Text
