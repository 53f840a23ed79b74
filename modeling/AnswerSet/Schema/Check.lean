import AnswerSet.Value

/-!
# Checking values against the schema

A complete list of values is checked slot by slot: its length, then for each slot
the shape of the value and after it the domain. A single assignment reports an
attribute that the kind does not own before a wrong shape, and a wrong shape
before an integer outside the domain.
-/

namespace AnswerSet

namespace Kind

variable {ν : Type}

/-- Checks one value against its slot, the shape before the domain. -/
def checkValue (k : Kind) (slot : Slot) (v : Value ν) : Except Error Unit :=
  if v.shape ≠ slot.shape then .error (.invalidArgument (.wrongShape k slot v.shape))
  else
    match v with
    | .int n =>
        if slot.domain.contains n then .ok ()
        else .error (.invalidArgument (.outsideDomain k slot n))
    | _ => .ok ()

/-- Checks values against slots in order. -/
def checkSlots (k : Kind) : List Slot → List (Value ν) → Except Error Unit
  | slot :: slots, v :: vs => do
      k.checkValue slot v
      k.checkSlots slots vs
  | _, _ => .ok ()

/-- Checks a complete list of values for a kind. -/
def check (k : Kind) (values : List (Value ν)) : Except Error Unit :=
  if k.slots.length ≠ values.length then .error (.invalidArgument (.arity k values.length))
  else k.checkSlots k.slots values

/-- The slot of an attribute and its place in the schema. -/
def locate (k : Kind) (a : Attr) : Except Error (Nat × Slot) :=
  match k.slot? a with
  | some found => .ok found
  | none => .error (.unknownAttribute k a)

/-- Replaces the value of one attribute. Here a wrong shape is a type mismatch. -/
def assign (k : Kind) (values : List (Value ν)) (a : Attr) (v : Value ν) :
    Except Error (List (Value ν)) := do
  let (i, slot) ← k.locate a
  if v.shape ≠ slot.shape then throw (v.mismatch slot.shape)
  k.checkValue slot v
  return values.set i v

/-- The value of an attribute. -/
def valueOf? (k : Kind) (values : List (Value ν)) (a : Attr) : Option (Value ν) := do
  values[← k.slotIndex? a]?

end Kind

end AnswerSet
