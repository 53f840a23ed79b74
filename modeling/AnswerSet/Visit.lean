import AnswerSet.Store.Basic

/-!
# Visiting

A visitor is asked about every node, parents before their children and children in
schema order; where it answers `false` the nodes below are skipped. The visitor
keeps a state, so its answers may depend on everything it has seen.

The nodes that are still to be visited are kept on a stack. On a cycle that the visitor enters
again and again the visit does not come back.
-/

namespace AnswerSet.Store

variable {σ : Type}

/-- Visits the nodes on a stack, the first one next. -/
def visitAll (s : Store) (visitor : NodeId → StateM σ Bool) (stack : List NodeId) (state : σ) :
    Option σ :=
  match stack with
  | [] => some state
  | id :: rest =>
      match (visitor id).run state with
      | (true, state) => s |>.visitAll visitor (s.children id ++ rest) state
      | (false, state) => s |>.visitAll visitor rest state
partial_fixpoint

/-- Visits a node and the nodes below it; the answer is the last state of the
visitor. -/
def visit (s : Store) (visitor : NodeId → StateM σ Bool) (id : NodeId) (state : σ) :
    Except Stop σ :=
  Stop.orEndless (s.visitAll visitor [id] state)

end AnswerSet.Store
