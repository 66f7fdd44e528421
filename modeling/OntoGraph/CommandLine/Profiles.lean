import OntoGraph.CommandLine.Run
import OntoGraph.Json.Printer
import OntoGraph.Ontology.Snapshot
import OntoGraph.Session

/-!
# Snapshots of an ontology

The tool compiles an ontology and writes what it found: the entities grouped by profile in one
file, and the same entities by IRI in another.
-/

namespace OntoGraph.CommandLine

open Ontology

namespace Profiles

def form : Form where
  tool := "spdx-profiles"
  summary := "Write SPDX profile snapshots"
  options := [
    { name := "ontology"
      summary := "Ontology source: a Turtle or JSON-LD file, or an http(s) URL"
      isRequired := true
      mayBeEmpty := true },
    { name := "metadata", summary := "Markdown-derived metadata document (model.json)" },
    { name := "out", summary := "Output directory for the snapshots", assumed := some "public" }]

/-- What the tool is asked to do. -/
structure Request where
  ontology : Source
  metadata : Option String
  /-- The folder that the files are written to. -/
  out : String

def Request.read (words : List String) : Except UsageError Request := do
  let a ← form.read words
  return {
    ontology := .ofArgument ((a.options.get? "ontology").getD "")
    metadata := a.options.get? "metadata"
    out := (a.options.get? "out").getD "public" }

def summaryLine (m : Model) : String :=
  "SPDX ontology v" ++ m.info.version.getD "unknown" ++ ": "
    ++ toString m.profiles.size ++ " profiles, "
    ++ toString m.classCount ++ " classes, "
    ++ toString m.propertyCount ++ " properties, "
    ++ toString m.vocabularyCount ++ " vocabularies, "
    ++ toString m.individualCount ++ " individuals"

def joinPath (folder name : String) : String :=
  if folder.endsWith "/" then folder ++ name else folder ++ "/" ++ name

def snapshot (m : Model) : Json :=
  .object [("ontology", m.info.toJson), ("profiles", m.profilesJson)]

def run (surroundings : Surroundings) (request : Request) : Run :=
  match loadModel surroundings request.ontology request.metadata with
  | .error _ => .failure ("Failed to load ontology from " ++ request.ontology.name)
  | .ok m =>
    { actions :=
        [.print (summaryLine m), .makeFolder request.out]
          ++ writeAndSay (joinPath request.out "profiles.json") (snapshot m).indented
          ++ writeAndSay (joinPath request.out "iris.json") m.indexJson.indented
          ++ [.print "Snapshots complete."] }

def runWords (surroundings : Surroundings) (words : List String) : Run :=
  match Request.read words with
  | .ok request => run surroundings request
  | .error error => .ofUsageError form error

end Profiles

end OntoGraph.CommandLine
