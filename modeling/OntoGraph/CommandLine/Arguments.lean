import OntoGraph.SortedMap
import OntoGraph.Text.Scan

/-!
# Command lines

A tool takes named options, each with a value, and at most one operand. An option is written
`--name value` or `--name=value`. After the word `--` every word is an operand. The first word that
does not fit decides what is wrong, and asking for help counts as such a word.
-/

namespace OntoGraph.CommandLine

/-- An option that a tool takes. -/
structure OptionForm where
  name : String
  summary : String
  isRequired : Bool := false
  /-- May the value be the empty text? -/
  mayBeEmpty : Bool := false
  /-- The value that the tool assumes. -/
  assumed : Option String := none
  deriving DecidableEq, Repr

/-- What a tool takes. -/
structure Form where
  tool : String
  summary : String
  options : List OptionForm
  /-- The name and the summary of the operand, which is required where there is one. -/
  operand : Option (String × String) := none
  deriving DecidableEq, Repr

/-- Why the words of a command line are not taken. -/
inductive UsageError where
  /-- The user asks for help. -/
  | help
  | unknownOption (word : String)
  | missingValue (name : String)
  | emptyValue (name : String)
  | repeated (name : String)
  | unexpected (word : String)
  | missing (name : String)
  deriving DecidableEq, Repr

def UsageError.message : UsageError → String
  | .help => "help is asked for"
  | .unknownOption word => "unexpected option " ++ word
  | .missingValue name => "option --" ++ name ++ " needs a value"
  | .emptyValue name => "the value of " ++ name ++ " must not be empty"
  | .repeated name => "option --" ++ name ++ " is given twice"
  | .unexpected word => "unexpected argument " ++ word
  | .missing name => "missing argument " ++ name

/-- The words of a command line by their role. -/
structure Arguments where
  options : SortedMap String := ∅
  operand : Option String := none
  deriving DecidableEq

def isOptionLike (word : String) : Bool := word.startsWith "-" && word != "-"

/-- The name of an option, and its value if that is in the same word. -/
def splitOption (word : String) : String × Option String :=
  let text := word.toList.drop 2
  match Text.splitOnce? '=' text with
  | some (name, value) => (String.ofList name, some (String.ofList value))
  | none => (String.ofList text, none)

namespace Form

def option? (form : Form) (name : String) : Option OptionForm :=
  form.options.find? (·.name = name)

def setOption (a : Arguments) (o : OptionForm) (value : String) : Except UsageError Arguments :=
  if value = "" ∧ !o.mayBeEmpty then .error (.emptyValue o.name)
  else if a.options.contains o.name then .error (.repeated o.name)
  else .ok { a with options := a.options.insert o.name value }

def setOperand (form : Form) (a : Arguments) (word : String) : Except UsageError Arguments :=
  match form.operand, a.operand with
  | some (name, _), none =>
    if word = "" then .error (.emptyValue name) else .ok { a with operand := some word }
  | _, _ => .error (.unexpected word)

def take (form : Form) (a : Arguments) : List String → Except UsageError Arguments
  | [] => .ok a
  | word :: rest =>
    if word = "--" then rest.foldlM (form.setOperand) a
    else if word.startsWith "--" then
      match splitOption word with
      | ("help", none) => .error .help
      | ("help", some _) => .error (.unexpected word)
      | (name, attached) =>
        match form.option? name, attached, rest with
        | none, _, _ => .error (.unknownOption word)
        | some o, some value, rest => setOption a o value >>= fun a ↦ form.take a rest
        | some _, none, [] => .error (.missingValue name)
        | some o, none, value :: rest =>
          if isOptionLike value then .error (.missingValue name)
          else setOption a o value >>= fun a ↦ form.take a rest
    else if isOptionLike word then
      .error (if word.startsWith "-h" then .help else .unknownOption word)
    else form.setOperand a word >>= fun a ↦ form.take a rest

def firstMissing? (form : Form) (a : Arguments) : Option String :=
  ((form.options.filter fun o ↦ o.isRequired && !a.options.contains o.name).map (·.name)).head?
    <|> if a.operand.isSome then none else form.operand.map (·.1)

def read (form : Form) (words : List String) : Except UsageError Arguments := do
  let a ← form.take {} words
  match form.firstMissing? a with
  | some name => throw (.missing name)
  | none => return a

/-! ## Help -/

def optionText (o : OptionForm) : String :=
  "--" ++ o.name ++ " <" ++ o.name.toUpper ++ ">"

def operandText (name : String) : String := "<" ++ name.toUpper ++ ">"

def usage (form : Form) : String :=
  String.intercalate " " <|
    ["Usage:", form.tool, "[OPTIONS]"] ++ (form.options.filter (·.isRequired)).map optionText
      ++ (form.operand.map fun operand ↦ operandText operand.1).toList

/-- Lines of two columns, the second of which starts two blanks after the longest entry of the
first. -/
def columns (indentation : String) (rows : List (String × String)) : List String :=
  let width := (rows.map (·.1.length)).foldl max 0
  rows.map fun (left, right) ↦
    indentation ++ left ++ String.ofList (List.replicate (width + 2 - left.length) ' ') ++ right

def help (form : Form) : List String :=
  let operands := match form.operand with
    | some (name, summary) => ["Arguments:"] ++ columns "  " [(operandText name, summary)] ++ [""]
    | none => []
  let options := form.options.map fun o ↦
    ("    " ++ optionText o,
      o.summary ++ ((o.assumed.map fun value ↦ " [default: " ++ value ++ "]").getD ""))
  [form.summary, "", form.usage, ""] ++ operands ++ ["Options:"]
    ++ columns "  " (options ++ [("-h, --help", "Print help")])

end Form

end OntoGraph.CommandLine
