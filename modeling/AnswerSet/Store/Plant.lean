import AnswerSet.Store.Unfold

/-!
# Planting trees

Planting allocates one fresh instance per node of a tree, children before their
parents. Nothing is shared between the planted instances, whatever the labels of
the tree say. A deep copy plants the unfolding of a node.
-/

namespace AnswerSet

/-- Allocates every node of a tree; the answer is the identity of the root. -/
def Tree.plant {α : Type} : Tree α → StateM Store NodeId :=
  Tree.fold fun _ k values => do
    let values ← values.mapM (Value.mapM fun child => child)
    Store.alloc ⟨k, values⟩

/-- Adds a copy of a node and of everything below it. -/
def RunM.deepCopy (id : NodeId) : RunM NodeId := do
  (← unfolding id).plant

/-- Adds the node that a JSON value describes. -/
def StoreM.ofJson (v : Json) : StoreM NodeId := do
  (← Tree.ofJson v).plant

namespace Store

variable (s : Store)

/-- What comes of copying a node. -/
def deepCopy (id : NodeId) : Except Stop (NodeId × Store) := (RunM.deepCopy id).outcome s

/-- What comes of reading a node. -/
def ofJson (v : Json) : Except Error (NodeId × Store) := (StoreM.ofJson v).outcome s

theorem deepCopy_eq (id : NodeId) :
    s.deepCopy id = do return (← s.unfold id).plant.run s :=
  RunM.outcome_unfolding id Tree.plant s

theorem ofJson_eq (v : Json) : s.ofJson v = do return (← Tree.ofJson v).plant.run s := by
  rw [ofJson, StoreM.ofJson, StoreM.outcome_bind, StoreM.outcome_lift]
  cases Tree.ofJson v <;> rfl

end Store

end AnswerSet
