import OntoGraph.CommandLine.Arguments

/-!
# Runs of tools

A run of a tool reads its input first and acts afterwards, so that it is determined by what it
finds: a list of actions to carry out in turn, and the code to exit with. A run that fails to carry
out an action stops there and exits with the code for failure.
-/

namespace OntoGraph.CommandLine

/-- What a tool does beside reading. -/
inductive Action where
  /-- Puts a line on the standard output. -/
  | print (line : String)
  /-- Makes a folder with all folders around it, unless it is there. -/
  | makeFolder (path : String)
  /-- Writes a file. -/
  | write (path text : String)
  deriving DecidableEq, Repr

def failureCode : Nat := 1

def usageCode : Nat := 2

/-- What a run does and how it ends. -/
structure Run where
  actions : List Action
  exitCode : Nat := 0
  /-- What is wrong, for the standard error output. -/
  complaint : Option String := none
  deriving DecidableEq, Repr

namespace Run

/-- A run that fails before it acts. -/
def failure (complaint : String) : Run := ⟨[], failureCode, some complaint⟩

def ofUsageError (form : Form) : UsageError → Run
  | .help => { actions := form.help.map .print }
  | error => ⟨[], usageCode, some (error.message ++ "\n\n" ++ form.usage)⟩

end Run

def writeAndSay (path text : String) : List Action :=
  [.write path text, .print ("  Written: " ++ path)]

end OntoGraph.CommandLine
