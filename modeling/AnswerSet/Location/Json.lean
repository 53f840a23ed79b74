import AnswerSet.Location.Basic
import AnswerSet.Json.Describe

/-!
# Locations as JSON

A location is written as an object with the fields `begin` and `end`, a position
as one with `filename`, `line` and `column`. Both are also read from arrays that
list the fields in this order. Objects may hold further fields, which are
ignored. The fields that are present are read in the order of their keys before
any missing one is reported.
-/

namespace AnswerSet

/-- What a part of a location is read as. -/
inductive Location.Part where
  | location
  | position
  | count
  | filename
  deriving DecidableEq, Repr

/-- How a part is named in messages. -/
def Location.Part.name : Location.Part → String
  | .location => "struct Location"
  | .position => "struct Position"
  | .count => "usize"
  | .filename => "a string"

/-- Why a JSON value is not a location. -/
inductive Location.DecodeError where
  | wrongType (found : Json) (expected : Location.Part)
  | negative (n : Int)
  | missing (field : String)
  | tooShort (length : Nat) (expected : Location.Part) (arity : Nat)
  | tooLong (length : Nat)

/-- The text shown for a fault. -/
def Location.DecodeError.message : Location.DecodeError → String
  | .wrongType found expected =>
      "invalid type: " ++ found.describe ++ ", expected " ++ expected.name
  | .negative n => "invalid value: " ++ (Json.ofInt n).describe ++ ", expected usize"
  | .missing field => "missing field `" ++ field ++ "`"
  | .tooShort length expected arity =>
      "invalid length " ++ toString length ++ ", expected " ++ expected.name ++ " with " ++
        toString arity ++ " elements"
  | .tooLong length =>
      "invalid length " ++ toString length ++ ", expected fewer elements in array"

namespace Location

/-- Reads a field that may be absent. -/
def fieldOf {α : Type} (decode : Json → Except DecodeError α)
    (fields : List (String × Json)) (key : String) : Except DecodeError (Option α) :=
  (fields.lookup key).mapM decode

/-- Insists on a field. -/
def require {α : Type} (key : String) : Option α → Except DecodeError α
  | some a => .ok a
  | none => .error (.missing key)

end Location

namespace Position

/-- A position as an object. -/
def toJson (p : Position) : Json :=
  .object [("filename", .str p.filename), ("line", .ofInt p.line.toNat),
    ("column", .ofInt p.column.toNat)]

/-- A line or column number. -/
def countOfJson : Json → Except Location.DecodeError UInt64
  | .num (.int n) =>
      match Json.uint64? n with
      | some n => .ok n
      | none => .error (if n < 0 then .negative n else .wrongType (.num (.int n)) .count)
  | other => .error (.wrongType other .count)

/-- A file name. -/
def filenameOfJson : Json → Except Location.DecodeError String
  | .str s => .ok s
  | other => .error (.wrongType other .filename)

/-- Reads a position from an object or from an array of its fields. -/
def ofJson : Json → Except Location.DecodeError Position
  | .obj fields => do
      let column ← Location.fieldOf countOfJson fields "column"
      let filename ← Location.fieldOf filenameOfJson fields "filename"
      let line ← Location.fieldOf countOfJson fields "line"
      let filename ← Location.require "filename" filename
      let line ← Location.require "line" line
      let column ← Location.require "column" column
      return ⟨filename, line, column⟩
  | .arr [] => .error (.tooShort 0 .position 3)
  | .arr [f] => do
      let _ ← filenameOfJson f
      throw (.tooShort 1 .position 3)
  | .arr [f, l] => do
      let _ ← filenameOfJson f
      let _ ← countOfJson l
      throw (.tooShort 2 .position 3)
  | .arr (f :: l :: c :: more) => do
      let filename ← filenameOfJson f
      let line ← countOfJson l
      let column ← countOfJson c
      if more.isEmpty then return ⟨filename, line, column⟩
      else throw (.tooLong (more.length + 3))
  | other => .error (.wrongType other .position)

end Position

namespace Location

/-- A location as an object. -/
def toJson (l : Location) : Json :=
  .object [("begin", l.first.toJson), ("end", l.last.toJson)]

/-- Reads a location from an object or from an array of its two positions. -/
def ofJson : Json → Except DecodeError Location
  | .obj fields => do
      let first ← fieldOf Position.ofJson fields "begin"
      let last ← fieldOf Position.ofJson fields "end"
      let first ← require "begin" first
      let last ← require "end" last
      return ⟨first, last⟩
  | .arr [] => .error (.tooShort 0 .location 2)
  | .arr [b] => do
      let _ ← Position.ofJson b
      throw (.tooShort 1 .location 2)
  | .arr (b :: e :: more) => do
      let first ← Position.ofJson b
      let last ← Position.ofJson e
      if more.isEmpty then return ⟨first, last⟩
      else throw (.tooLong (more.length + 2))
  | other => .error (.wrongType other .location)

end Location

end AnswerSet
