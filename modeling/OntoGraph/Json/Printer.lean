import OntoGraph.Json.Basic
import OntoGraph.Text.Quoted

/-!
# Printing JSON

Compact text has no white space. Indented text puts every item and member on a line of its own,
two spaces further in than the bracket that holds it; empty arrays and objects stay on one line.
-/

namespace OntoGraph.Json

def escapedCharacter (c : Char) : List Char :=
  match c with
  | '"' => ['\\', '"']
  | '\\' => ['\\', '\\']
  | '\x08' => ['\\', 'b']
  | '\x0c' => ['\\', 'f']
  | '\n' => ['\\', 'n']
  | '\r' => ['\\', 'r']
  | '\t' => ['\\', 't']
  | c =>
    if c.toNat < 0x20 then
      let digits := Text.hexadecimal c.toNat
      ['\\', 'u'] ++ List.replicate (4 - digits.length) '0' ++ digits
    else [c]

def stringText (s : String) : String :=
  String.ofList ('"' :: s.toList.flatMap escapedCharacter ++ ['"'])

mutual

def compact : Json → String
  | .null => "null"
  | .bool b => if b then "true" else "false"
  | .number spelling => spelling
  | .string s => stringText s
  | .array items => "[" ++ compactItems items ++ "]"
  | .object members => "\x7b" ++ compactMembers members ++ "\x7d"

def compactItems : List Json → String
  | [] => ""
  | [item] => compact item
  | item :: items => compact item ++ "," ++ compactItems items

def compactMembers : List (String × Json) → String
  | [] => ""
  | [(name, value)] => stringText name ++ ":" ++ compact value
  | (name, value) :: members =>
    stringText name ++ ":" ++ compact value ++ "," ++ compactMembers members

end

def newLine (depth : Nat) : String := "\n" ++ String.ofList (List.replicate (2 * depth) ' ')

mutual

def indentedAt (depth : Nat) : Json → String
  | .array [] => "[]"
  | .array items =>
    "[" ++ newLine (depth + 1) ++ indentedItems (depth + 1) items ++ newLine depth ++ "]"
  | .object [] => "\x7b\x7d"
  | .object members =>
    "\x7b" ++ newLine (depth + 1) ++ indentedMembers (depth + 1) members ++ newLine depth ++ "\x7d"
  | .null => "null"
  | .bool b => if b then "true" else "false"
  | .number spelling => spelling
  | .string s => stringText s

def indentedItems (depth : Nat) : List Json → String
  | [] => ""
  | [item] => indentedAt depth item
  | item :: items => indentedAt depth item ++ "," ++ newLine depth ++ indentedItems depth items

def indentedMembers (depth : Nat) : List (String × Json) → String
  | [] => ""
  | [(name, value)] => stringText name ++ ": " ++ indentedAt depth value
  | (name, value) :: members =>
    stringText name ++ ": " ++ indentedAt depth value ++ "," ++ newLine depth
      ++ indentedMembers depth members

end

def indented (json : Json) : String := indentedAt 0 json

end OntoGraph.Json
