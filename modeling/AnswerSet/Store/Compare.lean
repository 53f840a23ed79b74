import AnswerSet.Store.Basic
import AnswerSet.Tree.Order

/-!
# Comparing nodes

Two nodes are compared in lockstep: one instance equals itself, else the kinds are compared and
then the values slot by slot, without the locations. What comes after a difference is not looked
at. In a store with cycles a comparison need not come back, and it does not if one of the two is
no instance at all.
-/

namespace AnswerSet.Store

/-- Two identities belong to one instance. -/
def sameInstance (a b : NodeId) : Bool := a == b

mutual

/-- Structural equality of nodes, if it comes back. -/
def same? (s : Store) (a b : NodeId) : Option Bool := do
  let m ← s.node? a
  let n ← s.node? b
  if sameInstance a b then return true
  else if m.kind = n.kind then s |>.sameSlots? (structural m.values) (structural n.values)
  else return false
partial_fixpoint

/-- Equality of lists of values. -/
def sameSlots? (s : Store) (vs ws : List (Value NodeId)) : Option Bool :=
  match vs, ws with
  | [], [] => some true
  | v :: vs, w :: ws => do if ← s |>.sameValues? v w then s |>.sameSlots? vs ws else return false
  | _, _ => some false
partial_fixpoint

/-- Equality of values. Lists of nodes that are not equally long differ, whatever is in them. -/
def sameValues? (s : Store) (v w : Value NodeId) : Option Bool :=
  match v, w with
  | .node a, .node b => s |>.same? a b
  | .optional (some a), .optional (some b) => s |>.same? a b
  | .nodes as, .nodes bs => if as.length = bs.length then s |>.sameNodes? as bs else some false
  | v, w => some (v.sameWith (fun _ _ => false) w)
partial_fixpoint

/-- Equality of lists of nodes. -/
def sameNodes? (s : Store) (as bs : List NodeId) : Option Bool :=
  match as, bs with
  | [], [] => some true
  | a :: as, b :: bs => do if ← s |>.same? a b then s |>.sameNodes? as bs else return false
  | _, _ => some false
partial_fixpoint

end

mutual

/-- Structural order of nodes, if it comes back. -/
def compare? (s : Store) (a b : NodeId) : Option Ordering := do
  let m ← s.node? a
  let n ← s.node? b
  if sameInstance a b then return .eq
  else
    match m.kind.compare n.kind with
    | .eq => s |>.compareSlots? (structural m.values) (structural n.values)
    | difference => return difference
partial_fixpoint

/-- The lexicographic order of lists of values. -/
def compareSlots? (s : Store) (vs ws : List (Value NodeId)) : Option Ordering :=
  match vs, ws with
  | [], [] => some .eq
  | [], _ :: _ => some .lt
  | _ :: _, [] => some .gt
  | v :: vs, w :: ws => do
      match ← s |>.compareValues? v w with
      | .eq => s |>.compareSlots? vs ws
      | difference => return difference
partial_fixpoint

/-- Order of values. -/
def compareValues? (s : Store) (v w : Value NodeId) : Option Ordering :=
  match v, w with
  | .node a, .node b => s |>.compare? a b
  | .optional (some a), .optional (some b) => s |>.compare? a b
  | .nodes as, .nodes bs => s |>.compareNodes? as bs
  | v, w => some (v.compareWith (fun _ _ => .eq) w)
partial_fixpoint

/-- The lexicographic order of lists of nodes. -/
def compareNodes? (s : Store) (as bs : List NodeId) : Option Ordering :=
  match as, bs with
  | [], [] => some .eq
  | [], _ :: _ => some .lt
  | _ :: _, [] => some .gt
  | a :: as, b :: bs => do
      match ← s |>.compare? a b with
      | .eq => s |>.compareNodes? as bs
      | difference => return difference
partial_fixpoint

end

variable (s : Store)

/-- Structural equality of nodes. -/
def same (a b : NodeId) : Except Stop Bool := Stop.orEndless (s.same? a b)

/-- Structural order of nodes. -/
def compare (a b : NodeId) : Except Stop Ordering := Stop.orEndless (s.compare? a b)

/-- Equality of values in a store. Here locations count. -/
def sameValues (v w : Value NodeId) : Except Stop Bool := Stop.orEndless (s.sameValues? v w)

/-- Order of values in a store. Here locations count. -/
def compareValues (v w : Value NodeId) : Except Stop Ordering :=
  Stop.orEndless (s.compareValues? v w)

variable {s} {a : NodeId} {n : Node}

/-- An instance equals itself in every store, also if it is on a cycle. -/
theorem same_self (h : s.node? a = some n) : s.same a a = .ok true := by
  have hself : sameInstance a a = true := beq_self_eq_true a
  rw [same, same?, h]
  simp [hself]

theorem compare_self (h : s.node? a = some n) : s.compare a a = .ok .eq := by
  have hself : sameInstance a a = true := beq_self_eq_true a
  rw [compare, compare?, h]
  simp [hself]

end AnswerSet.Store
