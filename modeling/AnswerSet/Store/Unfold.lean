import AnswerSet.Store.Basic
import AnswerSet.Tree.Code
import AnswerSet.Tree.Inspect
import AnswerSet.Tree.Json

/-!
# Unfolding

The unfolding of a node is the tree below it, labelled with the identities of the
instances. A shared instance occurs in it once per path. Printing, the JSON form and
inspection follow a node to its leaves, so they are operations on the unfolding.

In a store without cycles no path is longer than the number of instances, so a
node that has no unfolding within this depth has none at all: whoever follows its
children does not come back.
-/

namespace AnswerSet.Store

/-- The unfolding of a node if it is at most `depth` nodes deep. -/
def unfoldWithin (s : Store) : (depth : Nat) → NodeId → Option (Tree NodeId)
  | 0, _ => none
  | depth + 1, id => do
      let n ← s.node? id
      let values ← n.values.mapM (Value.mapM (s.unfoldWithin depth))
      return .node id n.kind values

/-- The unfolding of a node, if there is one. -/
def unfolding? (s : Store) (id : NodeId) : Option (Tree NodeId) := s.unfoldWithin s.size id

/-- The unfolding of a node, for those who follow it to its end. -/
def unfold (s : Store) (id : NodeId) : Except Stop (Tree NodeId) :=
  Stop.orEndless (s.unfolding? id)

/-- The surface text of a node. -/
def code (s : Store) (id : NodeId) : Except Stop String := do
  match (← s.unfold id).code? with
  | some text => return text
  | none => throw (.failed (.invalidNode .unprintable))

/-- The kind of a node with its surface text. -/
def inspect (s : Store) (id : NodeId) : Except Stop String := do
  match (← s.unfold id).inspect? with
  | some text => return text
  | none => throw (.failed (.invalidNode .unprintable))

/-- The JSON form of a node. -/
def toJson (s : Store) (id : NodeId) : Except Stop Json := do
  return (← s.unfold id).toJson

/-- The surface text of a value. -/
def valueText (s : Store) (v : Value NodeId) : Except Stop String := do
  return (← v.mapM s.code).display

/-- How a value is built. -/
def valueInspect (s : Store) (v : Value NodeId) : Except Stop String := do
  return (← v.mapM s.inspect).inspect

end AnswerSet.Store

namespace AnswerSet.RunM

/-- Does not come back. -/
def endless {α : Type} : RunM α := fun _ => none

/-- The unfolding of a node, for an operation that follows it to its end. -/
def unfolding (id : NodeId) : RunM (Tree NodeId) := fun s =>
  (s.unfolding? id).map fun t => (.ok t, s)

theorem exec_unfolding {α : Type} (id : NodeId) (f : Tree NodeId → StateM Store α) (s : Store) :
    (do f (← unfolding id) : RunM α).exec s =
      (s.unfolding? id).map fun t => (.ok ((f t).run s).1, ((f t).run s).2) := by
  have hrun : (unfolding id).run.run s = (s.unfolding? id).map fun t => (.ok t, s) := rfl
  rw [exec, ExceptT.run_bind, StateT.run_bind, hrun]
  cases s.unfolding? id <;> rfl

theorem outcome_unfolding {α : Type} (id : NodeId) (f : Tree NodeId → StateM Store α) (s : Store) :
    (do f (← unfolding id) : RunM α).outcome s = do return (f (← s.unfold id)).run s := by
  rw [outcome, exec_unfolding, Store.unfold]
  cases s.unfolding? id <;> rfl

end AnswerSet.RunM
