/-!
# Tables of comma-separated values

A record is a line of fields between commas. A field that starts with a quote runs to the next
single quote mark, whatever it holds; a quote mark inside is written twice. Lines may end in any
of the usual ways, and empty lines hold no record.
-/

namespace OntoGraph.Catalog

/-- Where a reader stands in a record. -/
inductive FieldState where
  /-- Before the first field of a record. -/
  | recordStart
  /-- Before a field. -/
  | fieldStart
  /-- In a field without quotes, or after the closing quote of one. -/
  | inField
  /-- Between quotes. -/
  | inQuotes
  /-- After a quote between quotes. -/
  | afterQuote
  deriving DecidableEq

/-- A table while it is read. Characters, fields and records are kept last first. -/
structure TableReader where
  state : FieldState := .recordStart
  field : List UInt8 := []
  fields : List (List UInt8) := []
  records : List (List (List UInt8)) := []

namespace TableReader

def endField (r : TableReader) : TableReader :=
  { r with state := .fieldStart, field := [], fields := r.field.reverse :: r.fields }

def endRecord (r : TableReader) : TableReader :=
  let r := r.endField
  { r with state := .recordStart, fields := [], records := r.fields.reverse :: r.records }

def push (r : TableReader) (state : FieldState) (b : UInt8) : TableReader :=
  { r with state, field := b :: r.field }

def readUnquoted (r : TableReader) (b : UInt8) : TableReader :=
  if b = ','.toUInt8 then r.endField
  else if b = '\n'.toUInt8 ∨ b = '\r'.toUInt8 then r.endRecord
  else r.push .inField b

def read (r : TableReader) (b : UInt8) : TableReader :=
  match r.state with
  | .recordStart =>
    if b = '\n'.toUInt8 ∨ b = '\r'.toUInt8 then r
    else if b = '"'.toUInt8 then { r with state := .inQuotes }
    else r.readUnquoted b
  | .fieldStart => if b = '"'.toUInt8 then { r with state := .inQuotes } else r.readUnquoted b
  | .inField => r.readUnquoted b
  | .inQuotes => if b = '"'.toUInt8 then { r with state := .afterQuote } else r.push .inQuotes b
  | .afterQuote => if b = '"'.toUInt8 then r.push .inQuotes b else r.readUnquoted b

def finish (r : TableReader) : List (List (List UInt8)) :=
  (if r.state = .recordStart then r else r.endRecord).records.reverse

end TableReader

/-- The table without a byte order mark. -/
def withoutMark : List UInt8 → List UInt8
  | 0xEF :: 0xBB :: 0xBF :: rest => rest
  | bytes => bytes

/-- The records of a table, as fields of bytes. -/
def records (table : List UInt8) : List (List (List UInt8)) :=
  ((withoutMark table).foldl TableReader.read {}).finish

end OntoGraph.Catalog
