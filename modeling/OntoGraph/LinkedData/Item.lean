import OntoGraph.Json.Basic
import OntoGraph.LinkedData.ActiveContext

/-!
# Expanded documents

Expansion replaces the names of a document by what they stand for. What is left are nodes with
identifiers, types and properties, literal values, and lists.
-/

namespace OntoGraph.LinkedData

/-- A value that is neither an array nor an object. -/
inductive Scalar where
  | text (value : String)
  | number (spelling : String)
  | bool (value : Bool)
  deriving BEq, Repr

inductive Literal where
  /-- A value whose text is its own JSON text. -/
  | json (value : Json)
  /-- A text, in a language if one is given. -/
  | localized (text : String) (language : Option String)
  /-- A scalar, of a datatype if one is given. -/
  | typed (value : Scalar) (datatype : Option String)
  deriving BEq, Repr

/-- A part of an expanded document. -/
inductive Item where
  | literal (value : Literal) (index : Option String)
  | list (items : List Item) (index : Option String)
  /-- A node. `reverse` holds the properties that other nodes have with this one as value. -/
  | node (id : Option Identifier) (types : List Identifier)
      (properties : List (Identifier × Item)) (reverse : List (Identifier × Item))
      (graph : Option (List Item)) (included : List Item) (index : Option String)
  deriving BEq, Repr

/-- A node while it is read. -/
structure NodeParts where
  id : Option Identifier := none
  types : List Identifier := []
  properties : List (Identifier × Item) := []
  reverse : List (Identifier × Item) := []
  graph : Option (List Item) := none
  included : List Item := []
  index : Option String := none

namespace NodeParts

def toItem (n : NodeParts) : Item :=
  .node n.id n.types n.properties n.reverse n.graph n.included n.index

/-- Does the node say nothing beyond its name? -/
def isEmpty (n : NodeParts) : Bool :=
  n.types.isEmpty && n.properties.isEmpty && n.reverse.isEmpty && n.graph.isNone
    && n.included.isEmpty

end NodeParts

namespace Item

def parts? : Item → Option NodeParts
  | .node id types properties reverse graph included index =>
    some { id, types, properties, reverse, graph, included, index }
  | _ => none

/-- Is the item a node with nothing but a graph and perhaps a name? -/
def isGraph : Item → Bool
  | .node _ [] [] [] (some _) [] _ => true
  | _ => false

/-- The item under an index, unless it has one. -/
def withIndex (item : Item) (i : String) : Item :=
  match item with
  | .literal value index => .literal value (index <|> some i)
  | .list items index => .list items (index <|> some i)
  | .node id types properties reverse graph included index =>
    .node id types properties reverse graph included (index <|> some i)

/-- The item as the only content of a graph without a name. -/
def asGraph (item : Item) : Item := NodeParts.toItem { graph := some [item] }

/-- The content of a graph without a name. -/
def content? : Item → Option (List Item)
  | .node none [] [] [] (some items) [] _ => some items
  | _ => none

/-- The list without the first item that satisfies a predicate, if there is one. -/
def removeFirst? {α : Type} (p : α → Bool) : List α → Option (List α)
  | [] => none
  | a :: rest => if p a then some rest else (removeFirst? p rest).map (a :: ·)

mutual

/-- Do two items say the same? The order of the values of a node does not count. -/
def same : Item → Item → Bool
  | .literal value index, .literal value' index' => value == value' && index == index'
  | .list items index, .list items' index' => index == index' && sameList items items'
  | .node id types properties reverse graph included index,
    .node id' types' properties' reverse' graph' included' index' =>
    id == id' && types == types' && index == index' && samePairs properties properties'
      && samePairs reverse reverse' && sameGraph graph graph' && sameItems included included'
  | _, _ => false

/-- Do two lists hold the same items in the same order? -/
def sameList : List Item → List Item → Bool
  | [], [] => true
  | item :: items, item' :: items' => same item item' && sameList items items'
  | _, _ => false

/-- Do two lists hold the same items in some order? -/
def sameItems : List Item → List Item → Bool
  | [], others => others.isEmpty
  | item :: items, others =>
    match removeFirst? (fun item' ↦ same item item') others with
    | some others => sameItems items others
    | none => false

/-- Do two lists hold the same values of the same properties in some order? -/
def samePairs : List (Identifier × Item) → List (Identifier × Item) → Bool
  | [], others => others.isEmpty
  | (property, item) :: pairs, others =>
    match removeFirst? (fun other ↦ property == other.1 && same item other.2) others with
    | some others => samePairs pairs others
    | none => false

/-- Are two graphs the same, or is there none on either side? -/
def sameGraph : Option (List Item) → Option (List Item) → Bool
  | none, none => true
  | some items, some items' => sameItems items items'
  | _, _ => false

end

/-- The items with those left out that say the same as an earlier one. A graph is a set of items:
what is said twice in it, even of a node without a name, is said once. -/
def distinct (items : List Item) : List Item :=
  items.foldl (fun kept item ↦ if kept.any (same item) then kept else kept ++ [item]) []

end Item

/-- What a value of a document expands to. -/
inductive Expanded where
  | nothing
  | single (item : Item)
  | many (items : List Item)

namespace Expanded

def items : Expanded → List Item
  | .nothing => []
  | .single item => [item]
  | .many items => items

/-- Is the expansion one list? -/
def isList : Expanded → Bool
  | .single (.list _ _) => true
  | _ => false

end Expanded

end OntoGraph.LinkedData
