import AnswerSet.Pool.Product
import AnswerSet.Store.Unfold

/-!
# Expanding pools

A pool stands for several alternatives. Expanding a node gives the nodes that
arise from choosing one alternative for every pool below it. Elements of sets and
conditional literals in lists are different: all their alternatives stand side by
side in one list.

Pools inside conditions and pools elsewhere can be expanded separately. A node
without pools in an expanded region is its own only alternative, and every part
that is not expanded is shared with the node.
-/

namespace AnswerSet

/-- The regions in which pools are expanded. -/
structure Regions where
  /-- Outside of conditions. -/
  other : Bool
  /-- Inside conditions. -/
  condition : Bool
  deriving DecidableEq, Repr

/-- Pools are expanded everywhere. -/
def Regions.everywhere : Regions := ⟨true, true⟩

/-- The attribute holds a condition. The conditional literal of a head aggregate
element is none: only its own condition is. -/
def isCondition (kind : Kind) (a : Attr) : Bool :=
  a = .condition && kind ≠ .headAggregateElement

/-- The attribute holds the elements of a set. -/
def isSetLike (kind : Kind) (a : Attr) : Bool :=
  a = .elements &&
    [Kind.aggregate, .bodyAggregate, .headAggregate, .disjunction, .disjoint,
      .theoryAtom].contains kind

/-- The alternatives of a node in a region that is expanded or not. `none` says
that the node stands for itself. -/
abbrev Expansion := Bool → StateM Store (Option (List NodeId))

/-- A child with its expansion. -/
abbrev ExpandedChild := Tree NodeId × Expansion

/-- The alternatives of a child; by itself if it stands for itself. -/
def alternativesOf (enabled : Bool) (child : ExpandedChild) : StateM Store (List NodeId) := do
  return (← child.2 enabled).getD [child.1.label]

/-- The segments that an item may put into a list. -/
def segmentsOf (setLike : Bool) (item : Tree NodeId) :
    Option (List NodeId) → List (List NodeId)
  | none => [[item.label]]
  | some alternatives =>
      if setLike || item.kind = .conditionalLiteral then [alternatives]
      else alternatives.map fun a => [a]

/-- The alternatives of a list. -/
def expandList (setLike enabled : Bool) (items : List ExpandedChild) :
    StateM Store (Option (List (List NodeId))) := do
  let expanded ← items.mapM fun item => item.2 enabled
  if expanded.all Option.isNone then return none
  let choices := (items.zip expanded).map fun (item, e) => segmentsOf setLike item.1 e
  return some ((product choices).map List.flatten)

/-- The alternatives of a value. -/
def expandValue (setLike enabled : Bool) :
    Value ExpandedChild → StateM Store (Option (List (Value NodeId)))
  | .node child => do return (← child.2 enabled).map fun as => as.map .node
  | .optional (some child) => do
      return (← child.2 enabled).map fun as => as.map fun a => .optional (some a)
  | .nodes items => do return (← expandList setLike enabled items).map fun ls => ls.map .nodes
  | _ => return none

/-- The alternatives of the values of a node that is no pool to be expanded. -/
def expandValues (regions : Regions) (kind : Kind) (enabled : Bool)
    (values : List (Value ExpandedChild)) : StateM Store (Option (List (List (Value NodeId)))) := do
  let expanded ← (kind.attrs.zip values).mapM fun (a, v) =>
    expandValue (isSetLike kind a) (if isCondition kind a then regions.condition else enabled) v
  if expanded.all Option.isNone then return none
  let choices := (values.zip expanded).map fun (v, e) =>
    e.getD [v.map fun child => child.1.label]
  return some (product choices)

/-- The alternatives of a tree. -/
def Tree.expand (regions : Regions) : Tree NodeId → Expansion :=
  Tree.elim fun _ kind values enabled => do
    if enabled && kind = .pool then
      match kind.valueOf? values .arguments with
      | some (.nodes arguments) =>
          return some (← arguments.mapM (alternativesOf enabled)).flatten
      | _ => return none
    else
      match ← expandValues regions kind enabled values with
      | some alternatives => return some (← alternatives.mapM fun vs => Store.alloc ⟨kind, vs⟩)
      | none => return none

/-- The alternatives of a tree; its root if it stands for itself. -/
def Tree.unpool (t : Tree NodeId) (regions : Regions) : StateM Store (List NodeId) := do
  return (← t.expand regions regions.other).getD [t.label]

/-- Expands the pools of a node. -/
def RunM.unpool (id : NodeId) (regions : Regions) : RunM (List NodeId) := do
  (← unfolding id).unpool regions

/-- What comes of expanding the pools of a node. -/
def Store.unpool (s : Store) (id : NodeId) (regions : Regions) :
    Except Stop (List NodeId × Store) :=
  (RunM.unpool id regions).outcome s

theorem Store.unpool_eq (s : Store) (id : NodeId) (regions : Regions) :
    s.unpool id regions = do return ((← s.unfold id).unpool regions).run s :=
  RunM.outcome_unfolding id (fun t => t.unpool regions) s

end AnswerSet
