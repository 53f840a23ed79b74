/-!
# JSON values

An object lists its fields in strictly increasing order of their keys, compared
by code point. `Json.object` builds such a list from fields in any order; of two
fields with one key the later wins. Numbers keep the difference between integers
of 64 bits and everything else, which is a binary floating point number.
-/

namespace AnswerSet

/-- A number that is either an exact integer or a binary64 number. -/
inductive Json.Number where
  | int (n : Int)
  | float (x : Float)

/-- A JSON value. -/
inductive Json where
  | null
  | bool (b : Bool)
  | num (n : Json.Number)
  | str (s : String)
  | arr (items : List Json)
  | obj (fields : List (String × Json))

namespace Json

instance : Inhabited Json := ⟨.null⟩

/-- The word for the kind of a value in error messages. -/
def kindName : Json → String
  | .null => "null"
  | .bool _ => "boolean"
  | .num _ => "number"
  | .str _ => "string"
  | .arr _ => "array"
  | .obj _ => "object"

/-- An integer as a JSON number. -/
def ofInt (n : Int) : Json := .num (.int n)

/-- The integer as a signed word of 32 bits, if it fits. -/
def int32? (n : Int) : Option Int32 :=
  if -2147483648 ≤ n ∧ n ≤ 2147483647 then some (Int32.ofInt n) else none

/-- The integer as an unsigned word of 64 bits, if it fits. -/
def uint64? (n : Int) : Option UInt64 :=
  if 0 ≤ n ∧ n ≤ 18446744073709551615 then some n.toNat.toUInt64 else none

/-- A list of strings as an array. -/
def ofTexts (texts : List String) : Json := .arr (texts.map .str)

/-- Puts a field at its place in the order of keys. An existing field with the
same key is replaced. -/
def insertField {α : Type} (key : String) (value : α) :
    List (String × α) → List (String × α)
  | [] => [(key, value)]
  | (k, v) :: rest =>
      if key < k then (key, value) :: (k, v) :: rest
      else if key = k then (key, value) :: rest
      else (k, v) :: insertField key value rest

/-- The fields in the order of their keys; the last field of a key wins. -/
def sortFields {α : Type} (fields : List (String × α)) : List (String × α) :=
  fields.foldl (fun sorted (k, v) => insertField k v sorted) []

/-- The object with the given fields. -/
def object (fields : List (String × Json)) : Json := .obj (sortFields fields)

end Json

end AnswerSet
