import OntoGraph.Iri.Parts
import OntoGraph.Number.Reading

/-!
# The grammar of IRIs

The grammar of RFC 3987, part by part. How the authority is read is a parameter: the three readers
of this library differ there and agree everywhere else.
-/

namespace OntoGraph.Iri

open Number

/-- Is the character one of the letters A to Z, in either case? -/
def isLetter (c : Char) : Bool :=
  (decide ('a' ≤ c) && decide (c ≤ 'z')) || (decide ('A' ≤ c) && decide (c ≤ 'Z'))

def isHexDigit (c : Char) : Bool := (Text.hexDigit? c).isSome

/-- Characters beyond ASCII that an IRI may hold anywhere. -/
def isUcsChar (c : Char) : Bool :=
  let n := c.toNat
  (0xA0 ≤ n && n ≤ 0xD7FF) || (0xF900 ≤ n && n ≤ 0xFDCF) || (0xFDF0 ≤ n && n ≤ 0xFFEF)
    || (0x10000 ≤ n && n ≤ 0xDFFFD && n % 0x10000 ≤ 0xFFFD)
    || (0xE1000 ≤ n && n ≤ 0xEFFFD)

/-- Private characters, which only a query may hold. -/
def isPrivate (c : Char) : Bool :=
  let n := c.toNat
  (0xE000 ≤ n && n ≤ 0xF8FF) || (0xF0000 ≤ n && n ≤ 0x10FFFD && n % 0x10000 ≤ 0xFFFD)

/-- Characters without a meaning of their own. -/
def isUnreserved (c : Char) : Bool :=
  isLetter c || isAsciiDigit c || "-._~".toList.contains c || isUcsChar c

def isSubDelimiter (c : Char) : Bool := "!$&'()*+,;=".toList.contains c

/-- Do the characters satisfy the predicate, up to percent signs with two hexadecimal digits? -/
def allEncoded (p : Char → Bool) : List Char → Bool
  | [] => true
  | '%' :: a :: b :: rest => isHexDigit a && isHexDigit b && allEncoded p rest
  | c :: rest => c != '%' && p c && allEncoded p rest

def isPathChar (c : Char) : Bool := isUnreserved c || isSubDelimiter c || c == ':' || c == '@'

/-- A letter, then letters, digits, `+`, `-` and `.`. -/
def isScheme : List Char → Bool
  | [] => false
  | c :: rest =>
    isLetter c && rest.all fun c ↦ isLetter c || isAsciiDigit c || "+-.".toList.contains c

def splitOn (separator : Char) (cs : List Char) : List (List Char) :=
  cs.foldr (fun c parts ↦
    if c = separator then [] :: parts
    else match parts with
      | part :: parts => (c :: part) :: parts
      | [] => [[c]]) [[]]

/-- A number up to 255 without leading zeros. -/
def isOctet (cs : List Char) : Bool :=
  cs != [] && cs.all isAsciiDigit && cs.length ≤ 3 && decide (ofDigits cs ≤ 255)
    && (cs.length == 1 || cs.head? != some '0')

/-- Four octets with points between them. -/
def isIpv4 (cs : List Char) : Bool :=
  let parts := splitOn '.' cs
  parts.length == 4 && parts.all isOctet

def isHexGroup (cs : List Char) : Bool := cs != [] && cs.length ≤ 4 && cs.all isHexDigit

/-- The number of sixteen-bit groups that the pieces of an address stand for; the last piece may
be an address of four octets if `tail` says so. -/
def countGroups? (tail : Bool) (pieces : List (List Char)) : Option Nat :=
  match pieces with
  | [] => some 0
  | [piece] =>
    if isHexGroup piece then some 1
    else if tail && isIpv4 piece then some 2 else none
  | piece :: rest => if isHexGroup piece then (countGroups? tail rest).map (· + 1) else none

/-- The texts around the first `::`. -/
def splitAtDoubleColon? : List Char → Option (List Char × List Char)
  | ':' :: ':' :: rest => some ([], rest)
  | c :: rest => (splitAtDoubleColon? rest).map fun (before, after) ↦ (c :: before, after)
  | [] => none

def pieces (cs : List Char) : List (List Char) := if cs = [] then [] else splitOn ':' cs

/-- Eight groups, or fewer with one `::` in place of the missing ones. -/
def isIpv6 (cs : List Char) : Bool :=
  match splitAtDoubleColon? cs with
  | none => countGroups? true (pieces cs) == some 8
  | some (before, after) =>
    match countGroups? false (pieces before), countGroups? true (pieces after) with
    | some m, some n => decide (m + n ≤ 7)
    | _, _ => false

/-- A later version of the address format: `v`, a hexadecimal version, a point and the address. -/
def isIpFuture : List Char → Bool
  | c :: rest =>
    (c == 'v' || c == 'V') &&
    match Text.splitOnce? '.' rest with
    | some (version, address) =>
      version != [] && version.all isHexDigit && address != []
        && address.all fun c ↦
          (isUnreserved c && c.toNat < 0x80) || isSubDelimiter c || c == ':'
    | none => false
  | [] => false

def isUserChar (c : Char) : Bool := isUnreserved c || isSubDelimiter c || c == ':'

/-- How an authority is read when its host is not an address in brackets. -/
inductive AuthorityRule where
  /-- A user, a named host and a port, each with its own characters. -/
  | standard
  /-- As a user and a host of path characters, and a port of digits. -/
  | numericPort
  /-- As any path characters. -/
  | pathCharacters
  deriving DecidableEq

def isBracketedHost (cs : List Char) : Bool :=
  match cs with
  | '[' :: rest =>
    match Text.splitOnce? ']' rest with
    | some (address, after) =>
      (isIpv6 address || isIpFuture address) &&
      match after with
      | [] => true
      | ':' :: port => port.all isAsciiDigit
      | _ => false
    | none => false
  | _ => false

/-- The user before the first at sign, if there is one, and the host with the port. -/
def splitUser (authority : List Char) : List Char × List Char :=
  (Text.splitOnce? '@' authority).getD ([], authority)

/-- The host before the first colon, and the port. -/
def splitPort (host : List Char) : List Char × List Char :=
  (Text.splitOnce? ':' host).getD (host, [])

def isAuthority (rule : AuthorityRule) (authority : List Char) : Bool :=
  let (user, host) := splitUser authority
  if isBracketedHost host then allEncoded isUserChar user
  else
    match rule with
    | .standard =>
      let (name, port) := splitPort host
      allEncoded isUserChar user && allEncoded (fun c ↦ isUnreserved c || isSubDelimiter c) name
        && port.all isAsciiDigit
    | .numericPort =>
      let (name, port) := splitPort host
      allEncoded isPathChar user && allEncoded isPathChar name && port.all isAsciiDigit
    | .pathCharacters => allEncoded isPathChar authority

/-- Are these the parts of an IRI reference? The first segment of a relative path has no colon. -/
def Parts.isReference (rule : AuthorityRule) (p : Parts) : Bool :=
  p.scheme.all isScheme
    && p.authority.all (isAuthority rule)
    && allEncoded (fun c ↦ isPathChar c || c == '/') p.path
    && (p.scheme.isSome || p.authority.isSome || !(p.path.takeWhile (· ≠ '/')).contains ':')
    && p.query.all (allEncoded fun c ↦ isPathChar c || isPrivate c || c == '/' || c == '?')
    && p.fragment.all (allEncoded fun c ↦ isPathChar c || c == '/' || c == '?')

/-- Is the text an IRI or a relative reference? -/
def isReference (rule : AuthorityRule) (s : String) : Bool :=
  (Parts.ofChars s.toList).isReference rule

def isAbsolute (rule : AuthorityRule) (s : String) : Bool :=
  let p := Parts.ofChars s.toList
  p.scheme.isSome && p.isReference rule

end OntoGraph.Iri
