import AnswerSet.Json.Reader
import AnswerSet.Location.Json
import AnswerSet.Schema.Kind
import AnswerSet.Symbol.Json

/-!
# Errors

One constructor per cause; the wording, the diagnostic code and the advice are
functions of the cause. An error in an argument says which argument and what was
wrong with it.
-/

namespace AnswerSet

/-- What is wrong with an argument. -/
inductive Cause where
  /-- The list of values does not have one value per slot. -/
  | arity (kind : Kind) (found : Nat)
  /-- A value has another shape than its slot. -/
  | wrongShape (kind : Kind) (slot : Slot) (found : Shape)
  /-- An integer lies outside the domain of its slot. -/
  | outsideDomain (kind : Kind) (slot : Slot) (n : Int32)
  /-- An integer is the number of no member of a family of operators. -/
  | notMember (n : Int32) (family : String)
  /-- An integer is neither of the two truth values. -/
  | notFlag (n : Int32)
  /-- A text is not JSON. -/
  | malformedJson (error : Json.ReadError)
  | nodeNotObject (found : Json)
  | typeNotString (found : Json)
  | noType
  | unknownType (name : String)
  | unknownField (kind : Kind) (key : String)
  | missingField (kind : Kind) (attr : Attr)
  /-- A field, or an item of a field, has the wrong kind of JSON value. -/
  | wrongField (kind : Kind) (attr : Attr) (expected : String) (found : Json)
  | notInt32 (kind : Kind) (attr : Attr) (n : Json.Number)
  | badLocation (kind : Kind) (attr : Attr) (error : Location.DecodeError)
  | badSymbol (error : Symbol.DecodeError)

/-- What is wrong with a node. -/
inductive Fault where
  /-- The list has become too short for an element reference. -/
  | stale (index : Nat) (attr : Attr)
  /-- Somebody refused the node for a reason of their own. -/
  | refused (reason : String)
  /-- There is no instance with the identity. -/
  | absent
  /-- A guard of an aggregate has no comparison with a term. -/
  | unprintable

/-- Why an operation failed. -/
inductive Error where
  | invalidArgument (cause : Cause)
  | unknownAttribute (kind : Kind) (attr : Attr)
  | typeMismatch (expected found : Shape)
  | invalidNode (fault : Fault)
  | outOfBounds (index length : Nat)

/-- Why there is no answer. -/
inductive Stop where
  /-- The operation has failed. -/
  | failed (e : Error)
  /-- The operation does not come back. -/
  | endless

/-- The answer of something that need not come back. -/
def Stop.orEndless {α : Type} : Option α → Except Stop α
  | some answer => .ok answer
  | none => .error .endless

@[simp] theorem Stop.orEndless_eq_ok_iff {α : Type} {answer? : Option α} {a : α} :
    Stop.orEndless answer? = .ok a ↔ answer? = some a := by
  cases answer? <;> simp [orEndless]

/-- An operation that may fail is one that need not come back. -/
instance : MonadLift (Except Error) (Except Stop) := ⟨Except.mapError .failed⟩

/-- A field of a kind as the subject of a message. -/
def fieldSubject (kind : Kind) (attr : Attr) : String :=
  "`" ++ kind.name ++ "` field `" ++ attr.key ++ "`"

/-- An attribute of a kind as the subject of a message. -/
def attributeSubject (kind : Kind) (attr : Attr) : String :=
  "`" ++ kind.name ++ "` attribute `" ++ attr.key ++ "`"

/-- The text shown for a cause. -/
def Cause.message : Cause → String
  | .arity kind found =>
      "`" ++ kind.name ++ "` expects " ++ toString kind.slots.length ++ " arguments, got " ++
        toString found
  | .wrongShape kind slot found =>
      attributeSubject kind slot.attr ++ " expects " ++ slot.shape.name ++ ", got " ++ found.name
  | .outsideDomain kind slot n =>
      attributeSubject kind slot.attr ++ " does not accept " ++ toString n.toInt ++
        slot.domain.description
  | .notMember n family => toString n.toInt ++ " is not a valid " ++ family
  | .notFlag n => toString n.toInt ++ " is not a boolean"
  | .malformedJson error => "malformed JSON: " ++ error.message
  | .nodeNotObject found => Json.unexpected "node" "object" found
  | .typeNotString found => Json.unexpected "node `type`" "string" found
  | .noType => "node without `type` field"
  | .unknownType name => "unknown node type `" ++ name ++ "`"
  | .unknownField kind key => "`" ++ kind.name ++ "` has no field `" ++ key ++ "`"
  | .missingField kind attr => "`" ++ kind.name ++ "` is missing field `" ++ attr.key ++ "`"
  | .wrongField kind attr expected found =>
      Json.unexpected (fieldSubject kind attr) expected found
  | .notInt32 kind attr n => fieldSubject kind attr ++ ": " ++ n.text ++ " is not a 32-bit integer"
  | .badLocation kind attr error => fieldSubject kind attr ++ ": " ++ error.message
  | .badSymbol error => error.message

/-- The text shown for a fault. -/
def Fault.message : Fault → String
  | .stale index attr =>
      "element " ++ toString index ++ " of `" ++ attr.key ++ "` no longer exists"
  | .refused reason => reason
  | .absent => "node is not in the store"
  | .unprintable => "aggregate guard has no comparison with a term"

namespace Error

/-- The text shown for an error. -/
def message : Error → String
  | .invalidArgument cause => "Invalid argument: " ++ cause.message
  | .unknownAttribute kind attr =>
      "`" ++ kind.name ++ "` has no attribute `" ++ attr.key ++ "`"
  | .typeMismatch expected found =>
      "Type mismatch: expected " ++ expected.name ++ ", found " ++ found.name
  | .invalidNode fault => "Invalid node: " ++ fault.message
  | .outOfBounds index length =>
      "Index " ++ toString index ++ " out of bounds for list of length " ++ toString length

/-- The diagnostic code of an error. -/
def code : Error → String
  | .invalidArgument _ => "asp_ast::invalid_argument"
  | .unknownAttribute _ _ => "asp_ast::unknown_attribute"
  | .typeMismatch _ _ => "asp_ast::type_mismatch"
  | .invalidNode _ => "asp_ast::invalid_node"
  | .outOfBounds _ _ => "asp_ast::index_out_of_bounds"

/-- Advice on how to avoid an error. -/
def help? : Error → Option String
  | .unknownAttribute _ _ =>
      some "use `Node::attributes` to list the attributes of a node type"
  | _ => none

end Error

end AnswerSet
