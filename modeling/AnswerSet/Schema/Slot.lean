import AnswerSet.Location.Basic
import AnswerSet.Schema.Attr
import AnswerSet.Schema.Operator
import AnswerSet.Symbol.Basic

/-!
# Slots

A slot pairs an attribute with the type of its contents. The type fixes the shape
of the stored value and, for integers, the domain. Operators, flags and counts are
all stored as integers.
-/

namespace AnswerSet

/-- The shape of a value. Values of different shapes are ordered as declared. -/
inductive Shape where
  | int
  | symbol
  | location
  | text
  | node
  | optional
  | texts
  | nodes
  deriving DecidableEq, Repr

namespace Shape

/-- The name of a shape in messages. -/
def name : Shape → String
  | .int => "int"
  | .symbol => "symbol"
  | .location => "location"
  | .text => "string"
  | .node => "ast"
  | .optional => "optional ast"
  | .texts => "string list"
  | .nodes => "ast list"

/-- All shapes in declaration order. -/
def all : List Shape :=
  [.int, .symbol, .location, .text, .node, .optional, .texts, .nodes]

/-- Shapes in declaration order. -/
def compare (a b : Shape) : Ordering := Ord.compare a.ctorIdx b.ctorIdx

end Shape

/-- The integers that a slot accepts. -/
inductive IntDomain where
  | any
  | flag
  | unsigned
  | choice (name : String) (count : Nat)
  deriving DecidableEq, Repr

namespace IntDomain

/-- The domain holds the integer. -/
def contains : IntDomain → Int32 → Bool
  | .any, _ => true
  | .flag, n => n == 0 || n == 1
  | .unsigned, n => 0 ≤ n.toInt
  | .choice _ count, n => 0 ≤ n.toInt && n.toInt < count

/-- What a rejected integer should have been. -/
def description : IntDomain → String
  | .any => ""
  | .flag => " as a boolean"
  | .unsigned => " as an unsigned value"
  | .choice name _ => " as " ++ name

end IntDomain

/-- The type of the contents of a slot. -/
inductive SlotType where
  | location
  | symbol
  | unsigned
  | flag
  | choice (e : Enumeration)
  | text
  | texts
  | node
  | optional
  | nodes
  deriving DecidableEq, Repr

namespace SlotType

/-- The shape in which contents are stored. -/
def shape : SlotType → Shape
  | .location => .location
  | .symbol => .symbol
  | .unsigned | .flag | .choice _ => .int
  | .text => .text
  | .texts => .texts
  | .node => .node
  | .optional => .optional
  | .nodes => .nodes

/-- The domain of stored integers. -/
def domain : SlotType → IntDomain
  | .unsigned => .unsigned
  | .flag => .flag
  | .choice e => .choice e.name e.count
  | _ => .any

end SlotType

/-- One entry of the schema of a kind. -/
structure Slot where
  attr : Attr
  type : SlotType
  deriving DecidableEq, Repr

namespace Slot

/-- The shape in which the slot stores its contents. -/
abbrev shape (slot : Slot) : Shape := slot.type.shape

/-- The domain of stored integers. -/
abbrev domain (slot : Slot) : IntDomain := slot.type.domain

end Slot

end AnswerSet
