import AnswerSet.Schema.Check
import AnswerSet.Tree.Basic

/-!
# Trees as JSON

A node is an object that names its kind under `type` and has one field per
attribute. Reading is strict: the kind must be known, every attribute present and
no other field there. Unknown fields are reported before missing ones, fields are
read in schema order, and domains are checked when all fields have been read.
-/

namespace AnswerSet

/-- The fields of a node whose children are given by their JSON forms. -/
def nodeFields (k : Kind) (values : List (Value Json)) : List (String × Json) :=
  ("type", .str k.name) ::
    (k.attrs.zip values).map fun (a, v) => (a.key, v.toJson)

/-- A tree as JSON. -/
def Tree.toJson {α : Type} : Tree α → Json :=
  Tree.fold fun _ k values => .object (nodeFields k values)

/-- The kind that an object names. -/
def kindOf (fields : List (String × Json)) : Except Error Kind :=
  match fields.lookup "type" with
  | some (.str name) =>
      match Kind.ofName? name with
      | some k => .ok k
      | none => .error (.invalidArgument (.unknownType name))
  | some other => .error (.invalidArgument (.typeNotString other))
  | none => .error (.invalidArgument .noType)

/-- The key belongs to no attribute of the kind. -/
def isForeign (k : Kind) (key : String) : Bool :=
  key != "type" && !k.attrs.any fun a => a.key == key

/-- Refuses the first foreign field. -/
def checkFields (k : Kind) (fields : List (String × Json)) : Except Error Unit :=
  match fields.find? fun (key, _) => isForeign k key with
  | some (key, _) => .error (.invalidArgument (.unknownField k key))
  | none => .ok ()

/-- Reads an integer; truth values count as one and zero. -/
def intOfJson (k : Kind) (a : Attr) : Json → Except Error Int32
  | .bool b => .ok (if b then 1 else 0)
  | .num (.int n) =>
      match Json.int32? n with
      | some n => .ok n
      | none => .error (.invalidArgument (.notInt32 k a (.int n)))
  | .num (.float x) => .error (.invalidArgument (.notInt32 k a (.float x)))
  | other => .error (.invalidArgument (.wrongField k a "integer" other))

/-- Reads a text. -/
def textOfJson (k : Kind) (a : Attr) : Json → Except Error String
  | .str s => .ok s
  | other => .error (.invalidArgument (.wrongField k a "string" other))

/-- Reads a list of texts. -/
def textsOfJson (k : Kind) (a : Attr) : Json → Except Error (List String)
  | .arr items => items.mapM (textOfJson k a)
  | other => .error (.invalidArgument (.wrongField k a "array" other))

/-- Reads a symbol. -/
def symbolOfJson (v : Json) : Except Error Symbol :=
  (Symbol.ofJson v).mapError fun e => .invalidArgument (.badSymbol e)

/-- Reads a location. -/
def locationOfJson (k : Kind) (a : Attr) (v : Json) : Except Error Location :=
  (Location.ofJson v).mapError fun e => .invalidArgument (.badLocation k a e)

namespace Tree

mutual

/-- Reads a tree. -/
def ofJson : Json → Except Error (Tree Unit)
  | .obj fields => do
      let k ← kindOf fields
      checkFields k fields
      let values ← k.slots.mapM fun slot => fieldOf k slot fields
      k.check values
      return .node () k values
  | other => .error (.invalidArgument (.nodeNotObject other))

/-- Reads the field of a slot. -/
def fieldOf (k : Kind) (slot : Slot) : List (String × Json) → Except Error (Value (Tree Unit))
  | [] => .error (.invalidArgument (.missingField k slot.attr))
  | (key, v) :: rest =>
      if key ≠ slot.attr.key then fieldOf k slot rest
      else
        match slot.shape with
        | .int => do return .int (← intOfJson k slot.attr v)
        | .symbol => do return .symbol (← symbolOfJson v)
        | .location => do return .location (← locationOfJson k slot.attr v)
        | .text => do return .text (← textOfJson k slot.attr v)
        | .texts => do return .texts (← textsOfJson k slot.attr v)
        | .node => do return .node (← ofJson v)
        | .optional =>
            match v with
            | .null => .ok (.optional none)
            | _ => do return .optional (some (← ofJson v))
        | .nodes =>
            match v with
            | .arr items => do return .nodes (← ofJsons items)
            | other => .error (.invalidArgument (.wrongField k slot.attr "array" other))

/-- Reads trees in order up to the first that is none. -/
def ofJsons : List Json → Except Error (List (Tree Unit))
  | [] => .ok []
  | v :: vs => do
      let t ← ofJson v
      let ts ← ofJsons vs
      return t :: ts

end

end Tree

end AnswerSet
