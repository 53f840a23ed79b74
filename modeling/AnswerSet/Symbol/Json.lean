import AnswerSet.Symbol.Basic
import AnswerSet.Json.Describe

/-!
# Ground symbols as JSON

The bounds are written as strings, the other symbols as objects with one field
that names the kind of symbol. A function may leave out its arguments and its
sign; it is then a constant.
-/

namespace AnswerSet.Symbol

mutual

/-- A symbol as JSON. -/
def toJson : Symbol → Json
  | .infimum => .str "infimum"
  | .supremum => .str "supremum"
  | .number n => .object [("number", .ofInt n.toInt)]
  | .string s => .object [("string", .str s)]
  | .function name arguments positive =>
      .object [("function", .object [("name", .str name),
        ("arguments", .arr (toJsons arguments)), ("positive", .bool positive)])]

/-- The JSON forms of symbols in order. -/
def toJsons : List Symbol → List Json
  | [] => []
  | a :: as => toJson a :: toJsons as

end

@[simp] theorem toJsons_eq_map (as : List Symbol) : toJsons as = as.map toJson := by
  induction as with
  | nil => rfl
  | cons a as ih => simp [toJsons, ih]

/-- The parts of a symbol that a decoder looks at. -/
inductive Part where
  | whole
  | name
  | arguments
  | sign
  deriving DecidableEq, Repr

/-- Why a JSON value is not a symbol. -/
inductive DecodeError where
  | unexpected (part : Part) (found : Json)
  | outOfRange (n : Json.Number)
  | nameless
  | badTag (tag : String) (found : Json)

/-- The text shown for a fault. -/
def DecodeError.message : DecodeError → String
  | .unexpected .whole found => Json.unexpected "symbol" "tagged object" found
  | .unexpected .name found => Json.unexpected "symbol name" "string" found
  | .unexpected .arguments found => Json.unexpected "symbol arguments" "array" found
  | .unexpected .sign found => Json.unexpected "symbol sign" "boolean" found
  | .outOfRange n => "symbol number " ++ n.text ++ " out of range"
  | .nameless => "symbol function without name"
  | .badTag tag found => "invalid symbol `" ++ tag ++ "` with " ++ found.kindName ++ " payload"

/-- The name of a function. -/
def nameOf (fields : List (String × Json)) : Except DecodeError String :=
  match fields.lookup "name" with
  | some (.str name) => .ok name
  | some other => .error (.unexpected .name other)
  | none => .error .nameless

/-- The sign of a function. -/
def signOf (fields : List (String × Json)) : Except DecodeError Bool :=
  match fields.lookup "positive" with
  | some (.bool positive) => .ok positive
  | some other => .error (.unexpected .sign other)
  | none => .ok true

/-- A number or a string. -/
def scalarOf (tag : String) : Json → Except DecodeError Symbol
  | .num (.int n) =>
      if tag = "number" then
        match Json.int32? n with
        | some n => .ok (.number n)
        | none => .error (.outOfRange (.int n))
      else .error (.badTag tag (.num (.int n)))
  | .num (.float x) =>
      .error (if tag = "number" then .outOfRange (.float x) else .badTag tag (.num (.float x)))
  | .str s => if tag = "string" then .ok (.string s) else .error (.badTag tag (.str s))
  | other => .error (.badTag tag other)

mutual

/-- Reads a symbol. -/
def ofJson : Json → Except DecodeError Symbol
  | .str s =>
      if s = "infimum" then .ok .infimum
      else if s = "supremum" then .ok .supremum
      else .error (.unexpected .whole (.str s))
  | .obj [(tag, .obj fields)] =>
      if tag = "function" then do
        let name ← nameOf fields
        let arguments ← argumentsOf fields
        let positive ← signOf fields
        return .function name arguments positive
      else .error (.badTag tag (.obj fields))
  | .obj [(tag, payload)] => scalarOf tag payload
  | other => .error (.unexpected .whole other)

/-- The arguments of a function. -/
def argumentsOf : List (String × Json) → Except DecodeError (List Symbol)
  | [] => .ok []
  | (key, v) :: rest =>
      if key = "arguments" then
        match v with
        | .arr items => ofJsons items
        | other => .error (.unexpected .arguments other)
      else argumentsOf rest

/-- Reads symbols in order up to the first that is none. -/
def ofJsons : List Json → Except DecodeError (List Symbol)
  | [] => .ok []
  | v :: vs => do
      let a ← ofJson v
      let as ← ofJsons vs
      return a :: as

end

end AnswerSet.Symbol
