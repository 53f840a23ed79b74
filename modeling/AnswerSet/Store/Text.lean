import AnswerSet.Store.Plant
import AnswerSet.Tree.Reader

/-!
# Nodes as JSON text

A node is written as the text of its JSON form and read from a text that holds such a
form. What is read is planted, so it shares nothing with older instances.
-/

namespace AnswerSet

/-- Adds the node that a JSON text describes. -/
def StoreM.ofText (text : String) : StoreM NodeId := do
  (← Tree.ofText text).plant

namespace Store

variable (s : Store)

/-- The JSON text of a node. -/
def toText (id : NodeId) : Except Stop String := do
  return (← s.unfold id).toText

/-- What comes of reading a node from a text. -/
def ofText (text : String) : Except Error (NodeId × Store) := (StoreM.ofText text).outcome s

theorem ofText_eq (text : String) :
    s.ofText text = do return (← Tree.ofText text).plant.run s := by
  rw [ofText, StoreM.ofText, StoreM.outcome_bind, StoreM.outcome_lift]
  cases Tree.ofText text <;> rfl

end Store

end AnswerSet
