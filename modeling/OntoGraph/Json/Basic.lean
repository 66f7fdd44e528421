import OntoGraph.SortedMap
import OntoGraph.Number.Written
import OntoGraph.Number.Reading

/-!
# JSON values

A JSON value keeps its numbers as they are spelled and its members as they are listed. The
normal form, `Json.normalize?`, orders the members by name, keeps the last of those with one name,
and spells each number in one way; the documents of this library are in normal form.
-/

namespace OntoGraph

inductive Json where
  | null
  | bool (value : Bool)
  | number (spelling : String)
  | string (value : String)
  | array (items : List Json)
  | object (members : List (String × Json))
  deriving Inhabited, Repr, BEq

namespace Json

/-- The object whose members are in the order of their names; the last of those with one name is
kept. -/
def ofMembers (members : List (String × Json)) : Json :=
  .object (members.foldl (fun sorted member ↦ SortedMap.insertPair member.1 member.2 sorted) [])

def ofMap (m : SortedMap Json) : Json := .object m.toList

def members? : Json → Option (List (String × Json))
  | .object members => some members
  | _ => none

def string? : Json → Option String
  | .string s => some s
  | _ => none

def member? (json : Json) (name : String) : Option Json :=
  json.members?.bind (·.lookup name)

def textMember? (json : Json) (name : String) : Option String :=
  (json.member? name).bind Json.string?

def ofInt (n : Int) : Json := .number (toString n)

/-- A double: a number, or nothing where JSON has no spelling for it. -/
def ofFloat (x : Float) : Json :=
  match Number.magnitude x with
  | .finite _ _ => .number (Number.written Number.documentStyle x)
  | _ => .null

end Json

end OntoGraph
