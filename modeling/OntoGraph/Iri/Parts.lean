import OntoGraph.Text.Scan

/-!
# The parts of an IRI

An IRI reference has an optional scheme, an optional authority, a path, an optional query and an
optional fragment. Taking a reference apart and putting it together again gives the reference
back; a relative reference is resolved against a base as RFC 3986 lays down.
-/

namespace OntoGraph.Iri

/-- The parts of an IRI reference, without the marks between them. -/
structure Parts where
  scheme : Option (List Char) := none
  authority : Option (List Char) := none
  path : List Char := []
  query : Option (List Char) := none
  fragment : Option (List Char) := none
  deriving DecidableEq, Repr

/-- The characters up to the first that ends the part, and the rest from there on. -/
def splitAtAny (ends : List Char) (cs : List Char) : List Char × List Char :=
  (cs.takeWhile (!ends.contains ·), cs.dropWhile (!ends.contains ·))

/-- The parts of a text read as an IRI reference. Every text has parts; whether they are those of
an IRI is a matter of their characters. -/
def Parts.ofChars (cs : List Char) : Parts :=
  let (scheme, rest) := match splitAtAny [':', '/', '?', '#'] cs with
    | (c :: name, ':' :: rest) => (some (c :: name), rest)
    | _ => (none, cs)
  let (authority, rest) := match rest with
    | '/' :: '/' :: rest =>
      let (authority, rest) := splitAtAny ['/', '?', '#'] rest
      (some authority, rest)
    | _ => (none, rest)
  let (path, rest) := splitAtAny ['?', '#'] rest
  let (query, rest) := match rest with
    | '?' :: rest =>
      let (query, rest) := splitAtAny ['#'] rest
      (some query, rest)
    | _ => (none, rest)
  let fragment := match rest with
    | '#' :: rest => some rest
    | _ => none
  { scheme, authority, path, query, fragment }

def Parts.toChars (p : Parts) : List Char :=
  (match p.scheme with
    | some scheme => scheme ++ [':']
    | none => [])
  ++ (match p.authority with
    | some authority => '/' :: '/' :: authority
    | none => [])
  ++ p.path
  ++ (match p.query with
    | some query => '?' :: query
    | none => [])
  ++ (match p.fragment with
    | some fragment => '#' :: fragment
    | none => [])

def segments (path : List Char) : List (List Char) :=
  path.foldr (fun c parts ↦
    if c = '/' then [] :: parts
    else match parts with
      | part :: parts => (c :: part) :: parts
      | [] => [[c]]) [[]]

def joinSegments (parts : List (List Char)) : List Char := List.intercalate ['/'] parts

/-- Drops the segments `.` and, with the segment before it, `..`; `kept` holds the segments kept
so far, last first. A path that ends in a dropped segment keeps its last slash. -/
def dropDots (kept : List (List Char)) : List (List Char) → List (List Char)
  | [] => kept.reverse
  | [['.']] => (([] : List Char) :: kept).reverse
  | [['.', '.']] => (([] : List Char) :: kept.tail).reverse
  | ['.'] :: rest => dropDots kept rest
  | ['.', '.'] :: rest => dropDots kept.tail rest
  | part :: rest => dropDots (part :: kept) rest

/-- A path without dot segments. The slash that starts an absolute path stays. -/
def removeDotSegments (path : List Char) : List Char :=
  match path with
  | '/' :: rest => '/' :: joinSegments (dropDots [] (segments rest))
  | _ => joinSegments (dropDots [] (segments path))

/-- A relative path put behind the last slash of the base's path. -/
def mergePaths (base : Parts) (path : List Char) : List Char :=
  if base.authority.isSome ∧ base.path = [] then '/' :: path
  else
    let directory := (base.path.reverse.dropWhile (· ≠ '/')).reverse
    directory ++ path

def Parts.resolve (base r : Parts) : Parts :=
  if r.scheme.isSome then { r with path := removeDotSegments r.path }
  else if r.authority.isSome then
    { r with scheme := base.scheme, path := removeDotSegments r.path }
  else if r.path = [] then
    { r with
      scheme := base.scheme
      authority := base.authority
      path := base.path
      query := r.query <|> base.query }
  else
    let path := if r.path.head? = some '/' then r.path else mergePaths base r.path
    { r with
      scheme := base.scheme
      authority := base.authority
      path := removeDotSegments path }

def resolve (base reference : String) : String :=
  String.ofList
    ((Parts.ofChars base.toList).resolve (Parts.ofChars reference.toList)).toChars

end OntoGraph.Iri
