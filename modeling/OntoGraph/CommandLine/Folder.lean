import OntoGraph.CommandLine.Run
import OntoGraph.Surroundings

/-!
# Folders

A folder as a value: the texts of files by path, and the folders inside. Runs can be carried out on
it in place of a disk.
-/

namespace OntoGraph.CommandLine

/-- The steps of a path from the folder that it starts in. -/
def pathSteps (path : String) : List String :=
  ((path.splitOn "/").filter fun step ↦ step ≠ "" ∧ step ≠ ".").foldl
    (fun steps step ↦ if step = ".." then steps.dropLast else steps ++ [step]) []

def pathOf (steps : List String) : String := String.intercalate "/" steps

def enclosing (steps : List String) : List String :=
  (List.range steps.length).map fun n ↦ pathOf (steps.take n)

/-- Files and folders. The folder itself has the empty path. -/
structure Folder where
  files : SortedMap String := ∅
  folders : List String := [""]
  deriving DecidableEq

namespace Folder

def file? (folder : Folder) (path : String) : Option String :=
  if path.endsWith "/" then none else folder.files.get? (pathOf (pathSteps path))

/-- What tools see of a folder. Servers are out of reach. -/
def surroundings (folder : Folder) : Surroundings := { file? := folder.file? }

/-- The folder with one more folder inside and those around it, unless a file is in the way. -/
def makeFolder? (folder : Folder) (path : String) : Option Folder :=
  let steps := pathSteps path
  let places := enclosing steps ++ [pathOf steps]
  if places.any folder.files.contains then none
  else some { folder with folders := (folder.folders ++ places).eraseDups }

/-- The folder in which a file has a text. The folder around the file has to be there. -/
def write? (folder : Folder) (path text : String) : Option Folder :=
  let steps := pathSteps path
  let place := pathOf steps
  if path.endsWith "/" ∨ folder.folders.contains place
      ∨ !folder.folders.contains (pathOf steps.dropLast) then none
  else some { folder with files := folder.files.insert place text }

/-- The folder that holds some files, and the folders around them. -/
def ofFiles (files : List (String × String)) : Folder :=
  files.foldl (fun folder (path, text) ↦
    let folder := (folder.makeFolder? (pathOf (pathSteps path).dropLast)).getD folder
    (folder.write? path text).getD folder) {}

/-- Carries out actions in turn. The result has the printed lines, the folder afterwards, and
whether all went well. -/
def perform (folder : Folder) : List Action → List String × Folder × Bool
  | [] => ([], folder, true)
  | .print line :: rest =>
    let (lines, result) := perform folder rest
    (line :: lines, result)
  | .makeFolder path :: rest =>
    match folder.makeFolder? path with
    | some folder => perform folder rest
    | none => ([], folder, false)
  | .write path text :: rest =>
    match folder.write? path text with
    | some folder => perform folder rest
    | none => ([], folder, false)

end Folder

/-- How a run on a folder ends. -/
structure Outcome where
  exitCode : Nat
  lines : List String
  folder : Folder
  deriving DecidableEq

def Run.onFolder (run : Run) (folder : Folder) : Outcome :=
  let (lines, folder, isDone) := folder.perform run.actions
  { exitCode := if isDone then run.exitCode else failureCode, lines, folder }

end OntoGraph.CommandLine
