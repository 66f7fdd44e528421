import OntoGraph.CommandLine.Check
import OntoGraph.CommandLine.Profiles
import OntoGraph.Graph.Urn

/-!
# The command line

The first word selects a tool, `check` or `profiles`; the others are its command line. Files are
read before the tool runs, and what the run consists of is carried out afterwards.
-/

namespace OntoGraph.Main

open CommandLine Ontology

def readText (path : String) : IO (Option String) :=
  try some <$> IO.FS.readFile path catch _ => return none

def readPaths (paths : List String) : IO Surroundings := do
  let texts ← paths.mapM fun path ↦ return (path, ← readText path)
  return { file? := fun path ↦ (texts.lookup path).join }

def pathsOf : Source → List String
  | .path file => [file]
  | _ => []

/-- What a check sees. The configuration may name a further file. -/
def readForCheck (words : List String) : IO Surroundings := do
  match Check.Request.read words with
  | .error _ => return {}
  | .ok request =>
    let paths :=
      request.document :: pathsOf request.ontology ++ request.metadata.toList
        ++ request.config.toList
    match request.configuration (← readPaths paths) with
    | .ok config => readPaths (paths ++ config.contextSource.toList)
    | .error _ => readPaths paths

/-- What the writing of snapshots sees. -/
def readForProfiles (words : List String) : IO Surroundings :=
  match Profiles.Request.read words with
  | .error _ => return {}
  | .ok request => readPaths (pathsOf request.ontology ++ request.metadata.toList)

def perform : Action → IO Unit
  | .print line => IO.println line
  | .makeFolder path => IO.FS.createDirAll path
  | .write path text => IO.FS.writeFile path text

def carryOut (run : Run) : IO UInt32 := do
  try
    run.actions.forM perform
    run.complaint.forM fun complaint ↦ IO.eprintln complaint
    return run.exitCode.toUInt32
  catch error =>
    IO.eprintln (toString error)
    return failureCode.toUInt32

def randomNumber (size : USize) : IO Nat := do
  return (← IO.getRandomBytes size).foldl (fun n byte ↦ 256 * n + byte.toNat) 0

end OntoGraph.Main

open OntoGraph OntoGraph.CommandLine OntoGraph.Main in
/-- Runs the tool that the first word selects. -/
def main : List String → IO UInt32
  | "check" :: words => do
    let first ← randomNumber 15
    carryOut (Check.runWords (← readForCheck words) (fun n ↦ Graph.urn (first + n)) words)
  | "profiles" :: words => do
    carryOut (Profiles.runWords (← readForProfiles words) words)
  | _ => do
    IO.eprintln "usage: check ... | profiles ..."
    return usageCode.toUInt32
