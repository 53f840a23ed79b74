import AnswerSet.Error
import AnswerSet.Order
import AnswerSet.Symbol.Order

/-!
# Attribute values

A value holds its child nodes through a type parameter. Inside a store the
children are identities, inside a tree they are trees, and while a tree is
processed they are results; the operations below do not care which.
-/

namespace AnswerSet

/-- The value of one attribute. -/
inductive Value (ν : Type) where
  | int (n : Int32)
  | symbol (s : Symbol)
  | location (l : Location)
  | text (s : String)
  | node (child : ν)
  | optional (child : Option ν)
  | texts (items : List String)
  | nodes (children : List ν)
  deriving DecidableEq

namespace Value

variable {ν μ : Type}

/-- The shape of a value. -/
def shape : Value ν → Shape
  | .int _ => .int
  | .symbol _ => .symbol
  | .location _ => .location
  | .text _ => .text
  | .node _ => .node
  | .optional _ => .optional
  | .texts _ => .texts
  | .nodes _ => .nodes

/-- The child nodes in order. -/
def children : Value ν → List ν
  | .node child => [child]
  | .optional child => child.toList
  | .nodes children => children
  | _ => []

/-- Replaces every child. -/
def map (f : ν → μ) : Value ν → Value μ
  | .int n => .int n
  | .symbol s => .symbol s
  | .location l => .location l
  | .text s => .text s
  | .node child => .node (f child)
  | .optional child => .optional (child.map f)
  | .texts items => .texts items
  | .nodes children => .nodes (children.map f)

/-- Replaces every child by an action, from left to right. -/
def mapM {m : Type → Type} [Monad m] (f : ν → m μ) : Value ν → m (Value μ)
  | .int n => pure (.int n)
  | .symbol s => pure (.symbol s)
  | .location l => pure (.location l)
  | .text s => pure (.text s)
  | .node child => do return .node (← f child)
  | .optional none => pure (.optional none)
  | .optional (some child) => do return .optional (some (← f child))
  | .texts items => pure (.texts items)
  | .nodes children => do return .nodes (← children.mapM f)

@[simp] theorem children_map (f : ν → μ) (v : Value ν) :
    (v.map f).children = v.children.map f := by
  cases v with
  | optional child => cases child <;> rfl
  | _ => rfl

theorem map_map {ξ : Type} (f : μ → ξ) (g : ν → μ) (v : Value ν) :
    (v.map g).map f = v.map (f ∘ g) := by
  cases v with
  | optional child => cases child <;> rfl
  | nodes children => simp [map]
  | _ => rfl

/-- The value is a location. -/
def isLocation : Value ν → Bool
  | .location _ => true
  | _ => false

/-- The integer in a value lies in the domain; other values always do. -/
def inDomain (domain : IntDomain) : Value ν → Bool
  | .int n => domain.contains n
  | _ => true

/-- The value may stand in the slot. -/
def fits (slot : Slot) (v : Value ν) : Bool :=
  v.shape = slot.shape && v.inDomain slot.domain

/-- Equality, given an equality of children. -/
def sameWith (same : ν → μ → Bool) : Value ν → Value μ → Bool
  | .int m, .int n => m == n
  | .symbol s, .symbol t => s == t
  | .location k, .location l => k == l
  | .text s, .text t => s == t
  | .node a, .node b => same a b
  | .optional a, .optional b => sameOptions same a b
  | .texts as, .texts bs => as == bs
  | .nodes as, .nodes bs => sameLists same as bs
  | _, _ => false

/-- Order, given an order of children. Values of different shapes are ordered by
their shapes. -/
def compareWith (compare : ν → μ → Ordering) : Value ν → Value μ → Ordering
  | .int m, .int n => Ord.compare m.toInt n.toInt
  | .symbol s, .symbol t => s.compare t
  | .location k, .location l => k.compare l
  | .text s, .text t => Ord.compare s t
  | .node a, .node b => compare a b
  | .optional a, .optional b => compareOptions compare a b
  | .texts as, .texts bs => compareLists Ord.compare as bs
  | .nodes as, .nodes bs => compareLists compare as bs
  | v, w => v.shape.compare w.shape

/-! ## Partial views -/

/-- The integer of a value. -/
def int? : Value ν → Option Int32
  | .int n => some n
  | _ => none

/-- The text of a value. -/
def text? : Value ν → Option String
  | .text s => some s
  | _ => none

/-- The symbol of a value. -/
def symbol? : Value ν → Option Symbol
  | .symbol s => some s
  | _ => none

/-- The location of a value. -/
def location? : Value ν → Option Location
  | .location l => some l
  | _ => none

/-- The only child of a value that has one. -/
def node? : Value ν → Option ν
  | .node child => some child
  | .optional child => child
  | _ => none

/-- The children of a list of nodes. -/
def nodes? : Value ν → Option (List ν)
  | .nodes children => some children
  | _ => none

/-- The items of a list of texts. -/
def texts? : Value ν → Option (List String)
  | .texts items => some items
  | _ => none

/-! ## Conversions -/

/-- The error of a value that should have another shape. -/
def mismatch (expected : Shape) (v : Value ν) : Error := .typeMismatch expected v.shape

/-- Reads an integer. -/
def toInt : Value ν → Except Error Int32
  | .int n => .ok n
  | v => .error (v.mismatch .int)

/-- Reads a truth value. -/
def toFlag (v : Value ν) : Except Error Bool := do
  let n ← v.toInt
  if n = 0 then return false
  else if n = 1 then return true
  else throw (.invalidArgument (.notFlag n))

/-- The member of a family of operators with the given number. -/
def memberOf (ε : Type) [Enumerated ε] (n : Int32) : Except Error ε :=
  match Enumerated.ofNumber? ε n with
  | some e => .ok e
  | none => .error (.invalidArgument (.notMember n (Enumerated.typeName ε)))

/-- Reads an operator. -/
def toMember (ε : Type) [Enumerated ε] (v : Value ν) : Except Error ε := do
  memberOf ε (← v.toInt)

/-- Reads a symbol. -/
def toSymbol : Value ν → Except Error Symbol
  | .symbol s => .ok s
  | v => .error (v.mismatch .symbol)

/-- Reads a location. -/
def toLocation : Value ν → Except Error Location
  | .location l => .ok l
  | v => .error (v.mismatch .location)

/-- Reads a text. -/
def toText : Value ν → Except Error String
  | .text s => .ok s
  | v => .error (v.mismatch .text)

/-- Reads a node. -/
def toNode : Value ν → Except Error ν
  | .node child => .ok child
  | v => .error (v.mismatch .node)

/-- Reads a node that may be absent. -/
def toOptional : Value ν → Except Error (Option ν)
  | .optional child => .ok child
  | v => .error (v.mismatch .optional)

/-- Reads a list of texts. -/
def toTexts : Value ν → Except Error (List String)
  | .texts items => .ok items
  | v => .error (v.mismatch .texts)

/-- Reads a list of nodes. -/
def toNodes : Value ν → Except Error (List ν)
  | .nodes children => .ok children
  | v => .error (v.mismatch .nodes)

/-! ## Forms -/

/-- A list between brackets. -/
def listText (items : List String) : String := "[" ++ joinWith ", " items ++ "]"

/-- The text of a value whose children are given by their texts. -/
def display : Value String → String
  | .int n => toString n.toInt
  | .symbol s => s.text
  | .location l => l.text
  | .text s => s
  | .node child => child
  | .optional child => child.getD ""
  | .texts items => listText items
  | .nodes children => listText children

/-- The JSON form of a value whose children are given by theirs. -/
def toJson : Value Json → Json
  | .int n => .ofInt n.toInt
  | .symbol s => s.toJson
  | .location l => l.toJson
  | .text s => .str s
  | .node child => child
  | .optional child => child.getD .null
  | .texts items => .ofTexts items
  | .nodes children => .arr children

end Value

end AnswerSet
