/-!
# Surroundings

Files and servers are not part of the logic of this library. What it needs to know of them is
handed in as two look-ups.
-/

namespace OntoGraph

structure Response where
  status : Nat := 200
  contentType : Option String := none
  body : String

/-- What can be read from outside: the texts of files and the answers of servers. -/
structure Surroundings where
  file? : String → Option String := fun _ ↦ none
  fetch? : String → Option Response := fun _ ↦ none

/-- The answer of a server, unless it reports an error. -/
def Surroundings.fetchOk? (s : Surroundings) (url : String) : Option Response :=
  (s.fetch? url).filter (·.status < 400)

def isWebAddress (text : String) : Bool :=
  text.startsWith "http://" || text.startsWith "https://"

inductive Reading where
  | text (content : String)
  | unreadable (path : String)
  | unreachable (url : String)

/-- What a web address or a path leads to. -/
def Surroundings.read (s : Surroundings) (place : String) : Reading :=
  if isWebAddress place then
    match s.fetchOk? place with
    | some response => .text response.body
    | none => .unreachable place
  else
    match s.file? place with
    | some content => .text content
    | none => .unreadable place

end OntoGraph
