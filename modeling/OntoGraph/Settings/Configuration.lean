import OntoGraph.Settings.Toml
import OntoGraph.Surroundings

/-!
# Configuration

The configuration of an editor. Every field has a default, and no other field is allowed.
-/

namespace OntoGraph.Settings

/-- Why a configuration is not read. -/
inductive ConfigError where
  /-- It is not TOML of the expected shape. -/
  | malformed
  /-- The file cannot be read. -/
  | unreadable (path : String)
  deriving DecidableEq, Repr

structure Configuration where
  /-- The context that documents have to name. -/
  contextUrl : String := "https://spdx.org/rdf/3.0.1/spdx-context.jsonld"
  /-- The width and the height of a cell of the layout. -/
  grid : Float × Float := (260.0, 82.0)
  /-- The profile and the name of the class whose descendants are elements. -/
  elementClass : String := "Core/Element"
  /-- The name of the class of the root of a document. -/
  documentClass : String := "SpdxDocument"
  /-- The version that new nodes are marked with, in place of that of the ontology. -/
  specVersion : Option String := none
  /-- Where the context for documents is read from, if it is not derived from the model. -/
  contextSource : Option String := none

namespace Configuration

/-- The configuration with one more field. Of the numbers of a grid the first two count. -/
def set? (c : Configuration) (key : String) (value : Setting) : Option Configuration :=
  match key, value with
  | "context_url", .text s => some { c with contextUrl := s }
  | "grid", .array (.number x :: .number y :: _) => some { c with grid := (x, y) }
  | "element_class", .text s => some { c with elementClass := s }
  | "document_class", .text s => some { c with documentClass := s }
  | "spec_version", .text s => some { c with specVersion := some s }
  | "context_source", .text s => some { c with contextSource := some s }
  | _, _ => none

def read (text : String) : Except ConfigError Configuration :=
  match (readSettings? text).bind (·.foldlM (fun c (key, value) ↦ c.set? key value) {}) with
  | some c => .ok c
  | none => .error .malformed

def load (surroundings : Surroundings) (path : String) : Except ConfigError Configuration :=
  match surroundings.file? path with
  | some text => read text
  | none => .error (.unreadable path)

/-- The profile and the name of the class of elements. Without a slash there is no profile. -/
def elementClassParts (c : Configuration) : String × String :=
  match Text.splitOnce? '/' c.elementClass.toList with
  | some (profile, name) => (String.ofList profile, String.ofList name)
  | none => ("", c.elementClass)

end Configuration

end OntoGraph.Settings
