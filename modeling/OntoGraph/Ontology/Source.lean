import OntoGraph.LinkedData.Reader
import OntoGraph.Surroundings
import OntoGraph.Text.Blank
import OntoGraph.Text.Quoted
import OntoGraph.Turtle.Reader

/-!
# Sources of graphs

A graph is read from a file, from a URL or from a text at hand, in one of two formats. The name of
a source selects the format; a URL whose name does not is judged by the content type it is served
with.
-/

namespace OntoGraph.Ontology

open Rdf

inductive Format where
  | turtle
  | jsonLd
  deriving DecidableEq, Repr

/-- Why a graph is not loaded. -/
inductive LoadError where
  /-- No format can be selected for the source with this name. -/
  | unsupportedFormat (name : String)
  /-- The document is malformed. -/
  | malformed
  /-- The file cannot be read. -/
  | unreadable (path : String)
  /-- The URL cannot be fetched. -/
  | unreachable (url : String)
  deriving DecidableEq, Repr

def LoadError.message : LoadError → String
  | .unsupportedFormat name => "unsupported source format: " ++ Text.quoted name
  | .malformed => "failed to parse graph"
  | .unreadable path => "failed to read " ++ path
  | .unreachable url => "failed to fetch " ++ url

/-- What follows the last point of the last segment of a name, in lower case. Queries and
fragments do not count. -/
def extension (name : String) : String :=
  let path := name.toList.takeWhile fun c ↦ c != '?' && c != '#'
  let file := (path.reverse.takeWhile fun c ↦ c != '/' && c != '\\').reverse
  if file.contains '.' then
    Text.asciiLower (String.ofList (file.reverse.takeWhile (· ≠ '.')).reverse)
  else ""

def Format.ofName (name : String) : Except LoadError Format :=
  match extension name with
  | "ttl" => .ok .turtle
  | "jsonld" => .ok .jsonLd
  | "json-ld" => .ok .jsonLd
  | _ => .error (.unsupportedFormat name)

/-- The format that a content type selects; its parameters do not count. -/
def Format.ofContentType? (contentType : String) : Option Format :=
  let type := String.ofList (contentType.toList.takeWhile (· ≠ ';'))
  match Text.asciiLower (Text.trim type) with
  | "text/turtle" => some .turtle
  | "application/ld+json" => some .jsonLd
  | _ => none

inductive Source where
  | path (file : String)
  | url (address : String)
  | content (name : String) (text : String)
  deriving DecidableEq, Repr

def Source.ofArgument (argument : String) : Source :=
  if isWebAddress argument then .url argument else .path argument

def Source.name : Source → String
  | .path file => file
  | .url address => address
  | .content name _ => name

/-- The store of a document in a given format. Terms of linked data are explained by the document
itself. -/
def parse (format : Format) (text : String) : Except LoadError Store :=
  let store? := match format with
    | .turtle => Turtle.read? text
    | .jsonLd => LinkedData.read? ∅ text
  match store? with
  | some store => .ok store
  | none => .error .malformed

/-- A content type that a server may state: visible characters only. -/
def isVisibleAscii (s : String) : Bool :=
  s.toList.all fun c ↦ (0x20 ≤ c.toNat && c.toNat < 0x7F) || c == '\t'

/-- The format of what a server answered: by the name of the URL, else by the content type. -/
def formatOfResponse (url : String) (response : Response) : Except LoadError Format :=
  match Format.ofName url with
  | .ok format => .ok format
  | .error error =>
    match (response.contentType.filter isVisibleAscii).bind Format.ofContentType? with
    | some format => .ok format
    | none => .error error

def Source.load (surroundings : Surroundings) : Source → Except LoadError Store
  | .path file => do
    let format ← Format.ofName file
    match surroundings.file? file with
    | some text => parse format text
    | none => .error (.unreadable file)
  | .url address => do
    match surroundings.fetchOk? address with
    | none => .error (.unreachable address)
    | some response => parse (← formatOfResponse address response) response.body
  | .content name text => do parse (← Format.ofName name) text

end OntoGraph.Ontology
