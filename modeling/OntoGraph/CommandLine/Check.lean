import OntoGraph.CommandLine.Run
import OntoGraph.Rdf.NTriples
import OntoGraph.Session

/-!
# Checking a document

The tool reads a document into a session over an ontology, reports on every node, and writes the
document out again if it is asked to. It fails if any check fails.
-/

namespace OntoGraph.CommandLine

open Ontology OntoGraph.Graph Document Settings

namespace Check

def form : Form where
  tool := "spdx-check"
  summary := "Validate an SPDX JSON-LD document"
  options := [
    { name := "ontology"
      summary := "Ontology source: a Turtle or JSON-LD file, or an http(s) URL"
      isRequired := true
      mayBeEmpty := true },
    { name := "metadata", summary := "Markdown-derived metadata document (model.json)" },
    { name := "config", summary := "Editor configuration (TOML)" },
    { name := "export", summary := "Write the re-exported document here" },
    { name := "ntriples", summary := "Write the re-exported graph as N-Triples here" }]
  operand := some ("document", "The document to check")

/-- What the tool is asked to do. -/
structure Request where
  ontology : Source
  metadata : Option String
  config : Option String
  /-- Where the document is written to. -/
  documentOut : Option String
  /-- Where the triples are written to. -/
  triplesOut : Option String
  document : String

def Request.read (words : List String) : Except UsageError Request := do
  let a ← form.read words
  return {
    ontology := .ofArgument ((a.options.get? "ontology").getD "")
    metadata := a.options.get? "metadata"
    config := a.options.get? "config"
    documentOut := a.options.get? "export"
    triplesOut := a.options.get? "ntriples"
    document := a.operand.getD "" }

def Request.configuration (r : Request) (surroundings : Surroundings) :
    Except ConfigError Configuration :=
  match r.config with
  | some path => Configuration.load surroundings path
  | none => .ok {}

def status : Severity → String
  | .pass => "PASS"
  | .warning => "WARN"
  | .failure => "FAIL"

def findingLines (f : Finding) : List String :=
  ("[" ++ status f.severity ++ "] " ++ f.check ++ " " ++ f.node ++ ": " ++ f.message)
    :: f.details.map ("       " ++ ·)

def droppedLines (dropped : Nat) : List String :=
  if dropped = 0 then []
  else ["[WARN] import/cardinality: " ++ toString dropped
    ++ " value(s) beyond maxCount were dropped"]

def reportLines (dropped : Nat) (r : Report) : List String :=
  let dropped := droppedLines dropped
  ["SPDX Document Report", "====================", ""] ++ dropped ++ r.flatMap findingLines
    ++ ["", "Summary: " ++ toString (r.count .pass) ++ " passed, "
      ++ toString (r.count .warning + dropped.length) ++ " warnings, "
      ++ toString (r.count .failure) ++ " failed"]

def reportRun (request : Request) (summary : ImportSummary) (e : ExportedDocument) : Run :=
  let written := (request.documentOut.map fun path ↦ writeAndSay path e.text).getD []
    ++ (request.triplesOut.map fun path ↦ writeAndSay path e.store.toNTriples).getD []
  let actions := (reportLines summary.dropped e.report).map Action.print ++ written
  if e.report.isClean then { actions := actions ++ [.print "Validation PASSED."] }
  else
    ⟨actions, failureCode, some ("Validation FAILED: " ++ toString (e.report.count .failure)
      ++ " check(s) did not pass.")⟩

/-- The run of the tool. `urns` gives names to the nodes of the document that have none. -/
def run (surroundings : Surroundings) (urns : Nat → String) (request : Request) : Run :=
  match request.configuration surroundings with
  | .error _ => .failure ("Failed to read configuration " ++ request.config.getD "")
  | .ok config =>
    match Session.openOn surroundings config request.ontology request.metadata with
    | .error _ => .failure ("Failed to open an editor session on " ++ request.ontology.name)
    | .ok session =>
      match session.importFile surroundings request.document {} urns with
      | .error error =>
        .failure ("Failed to import " ++ request.document ++ ": " ++ error.message)
      | .ok (summary, session) => reportRun request summary session.exportAll

def runWords (surroundings : Surroundings) (urns : Nat → String) (words : List String) : Run :=
  match Request.read words with
  | .ok request => run surroundings urns request
  | .error error => .ofUsageError form error

end Check

end OntoGraph.CommandLine
