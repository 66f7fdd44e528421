import OntoGraph.Document.TermContext
import OntoGraph.Rdf.Store

/-!
# The labels of blank nodes

Reading linked data gives new labels to blank nodes. So that a document keeps its own, they are
turned into IRIs before it is read and back into labels afterwards. Labels that reading made get a
mark of their own, so that the two kinds never clash.
-/

namespace OntoGraph.Document

open Rdf

def labelIriStart : String := "urn:x-spdx-editor:blank:"

/-- The blank node with a label of the document. -/
def documentBlank (label : String) : Term := .blank ("d" ++ label)

/-- The subject that an identifier of the document names. -/
def subjectNamed (c : TermContext) (id : String) : Term :=
  match TermContext.dropStart? "_:" id with
  | some label => documentBlank label
  | none => .iri (c.expandIri id)

/-- A text, or the IRI for it if it is a label. -/
def protectLabel (text : String) : String :=
  match TermContext.dropStart? "_:" text with
  | some label => labelIriStart ++ label
  | none => text

def namesNodes (c : TermContext) (key : String) : Bool :=
  c.isIdKey key || (c.term? key).any (·.coercion == some .id)

/-- Are the values of a key left as they are? -/
def isOpaqueKey (c : TermContext) (key : String) : Bool :=
  key == "@context" || key == "@value" || c.isTypeKey key

mutual

/-- A value with IRIs in place of labels; `names` says that its texts name nodes. -/
def protectLabels (c : TermContext) (names : Bool) : Json → Json
  | .string s => .string (if names then protectLabel s else s)
  | .array items => .array (protectItems c names items)
  | .object members => .object (protectMembers c members)
  | json => json

def protectItems (c : TermContext) (names : Bool) : List Json → List Json
  | [] => []
  | item :: items => protectLabels c names item :: protectItems c names items

def protectMembers (c : TermContext) : List (String × Json) → List (String × Json)
  | [] => []
  | (key, value) :: members =>
    (key, if isOpaqueKey c key then value else protectLabels c (namesNodes c key) value)
      :: protectMembers c members

end

/-- A term with its label in place of the IRI for it. -/
def restoreLabel : Term → Term
  | .iri iri =>
    match TermContext.dropStart? labelIriStart iri with
    | some label => documentBlank label
    | none => .iri iri
  | .blank label => .blank ("g" ++ label)
  | term => term

def labelOf? : Term → Option (Term × String)
  | .iri iri =>
    (TermContext.dropStart? labelIriStart iri).map fun label ↦ (documentBlank label, "_:" ++ label)
  | _ => none

/-- A store with the labels of the document, and these labels by node. -/
def restoreLabels (store : Store) : Store × List (Term × String) :=
  let triples := store.triples.toList
  (.ofList (triples.map fun t ↦ ⟨restoreLabel t.subject, t.predicate, restoreLabel t.object⟩),
    (triples.flatMap fun t ↦ [t.subject, t.object]).filterMap labelOf?)

end OntoGraph.Document
