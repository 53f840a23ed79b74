import AnswerSet.Store.Basic

/-!
# Typed construction

The schema of a kind gives a type of argument lists, one argument per slot. A node
built from such a list follows the schema, so building cannot fail.
-/

namespace AnswerSet

/-- The type of the argument for a slot. -/
abbrev SlotType.Arg : SlotType → Type
  | .location => Location
  | .symbol => Symbol
  | .unsigned => UInt16
  | .flag => Bool
  | .choice e => e.Member
  | .text => String
  | .texts => List String
  | .node => NodeId
  | .optional => Option NodeId
  | .nodes => List NodeId

/-- The value that stores an argument. -/
def SlotType.store : (t : SlotType) → t.Arg → Value NodeId
  | .location, l => .location l
  | .symbol, s => .symbol s
  | .unsigned, n => .int (Int32.ofNat n.toNat)
  | .flag, b => .int (if b then 1 else 0)
  | .choice _, e => .int (Enumerated.number e)
  | .text, s => .text s
  | .texts, items => .texts items
  | .node, child => .node child
  | .optional, child => .optional child
  | .nodes, children => .nodes children

/-- One argument per slot. -/
abbrev Args : List Slot → Type
  | [] => Unit
  | slot :: slots => slot.type.Arg × Args slots

/-- The values of an argument list in schema order. -/
def Args.values : (slots : List Slot) → Args slots → List (Value NodeId)
  | [], _ => []
  | slot :: slots, (arg, args) => slot.type.store arg :: Args.values slots args

/-- Adds a node of a kind. -/
def Kind.build (k : Kind) (args : Args k.slots) : StateM Store NodeId :=
  Store.alloc ⟨k, Args.values k.slots args⟩

end AnswerSet
