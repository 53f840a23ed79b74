import AnswerSet.Proofs.Frame
import AnswerSet.Proofs.Store.Order
import AnswerSet.Proofs.Transform.Account

/-!
# Bottom-up transformation

A bottom-up transformation calls its action once for every occurrence in the unfolding
of the node. A run is described by a tree of calls: it has the shape of the unfolding,
and every occurrence carries the call that was made for it. Listed children before
parents, the calls and the allocations just before them are all that the run does.

What such a tree says at one node is what the transformation decides there: the call was
made with the instance itself if the calls for its children answered with these very
children, and with a new instance made of the answers otherwise. Everything else follows
from this by induction over the tree of calls: which tree the result stands for, and that
an action which changes nothing leaves the node as it is.
-/

namespace AnswerSet

variable {σ ε α β γ : Type}

/-! ## Calls -/

/-- One call of the action of a transformation. -/
structure Call where
  /-- The instance at the occurrence for which the call was made. -/
  occurrence : NodeId
  /-- What was allocated to take its place, if anything. -/
  rebuilt : Option Node
  argument : NodeId
  answer : NodeId

/-- The call leads from one pair of states to another. -/
inductive Call.Made (f : NodeId → EditM σ ε NodeId) (c : Call) : σ × Store → σ × Store → Prop where
  /-- The action is called with the instance itself. -/
  | kept {state : σ} {s : Store} {q : σ × Store} (hrebuilt : c.rebuilt = none)
      (hargument : c.argument = c.occurrence)
      (hcall : (f c.argument).exec state s = some (.ok c.answer, q)) : Made f c (state, s) q
  /-- An instance is allocated, and the action is called with it. -/
  | rebuilt {state : σ} {s : Store} {q : σ × Store} {n : Node} (hrebuilt : c.rebuilt = some n)
      (hargument : c.argument = ((Store.alloc n).run s).1)
      (hcall : (f c.argument).exec state ((Store.alloc n).run s).2 = some (.ok c.answer, q)) :
      Made f c (state, s) q

/-- The calls, one after the other and with nothing in between, lead from one pair of
states to another. -/
inductive Calls (f : NodeId → EditM σ ε NodeId) : List Call → σ × Store → σ × Store → Prop where
  | nil (p : σ × Store) : Calls f [] p p
  | cons {c : Call} {cs : List Call} {p q r : σ × Store} (hcall : c.Made f p q)
      (hrest : Calls f cs q r) : Calls f (c :: cs) p r

/-- The action always comes back with an answer, and it adds instances at most. -/
def Additive (f : NodeId → EditM σ ε NodeId) : Prop :=
  ∀ x state s, ∃ answer q, (f x).exec state s = some (.ok answer, q) ∧ s.Extends q.2

theorem Additive.store_extends {f : NodeId → EditM σ ε NodeId} (hf : Additive f) {x answer : NodeId}
    {state : σ} {s : Store} {q : σ × Store} (h : (f x).exec state s = some (.ok answer, q)) :
    s.Extends q.2 := by
  obtain ⟨answer', q', h', hextends⟩ := hf x state s
  rw [h, Option.some.injEq, Prod.mk.injEq] at h'
  exact h'.2 ▸ hextends

section Calls

variable {f : NodeId → EditM σ ε NodeId} {c : Call} {cs ds : List Call} {p q r : σ × Store}

theorem Call.Made.store_extends (hf : Additive f) (h : c.Made f p q) : p.2.Extends q.2 := by
  cases h with
  | kept _ _ hcall => exact hf.store_extends hcall
  | rebuilt _ _ hcall => exact (Store.Extends.alloc _ _).trans (hf.store_extends hcall)

namespace Calls

theorem append (h : Calls f cs p q) (h' : Calls f ds q r) : Calls f (cs ++ ds) p r := by
  induction h with
  | nil => exact h'
  | cons hcall _ ih => exact .cons hcall (ih h')

theorem of_append (h : Calls f (cs ++ ds) p r) : ∃ q, Calls f cs p q ∧ Calls f ds q r := by
  induction cs generalizing p with
  | nil => exact ⟨p, .nil p, h⟩
  | cons c cs ih =>
      cases h with
      | cons hcall hrest =>
          obtain ⟨q, hcs, hds⟩ := ih hrest
          exact ⟨q, .cons hcall hcs, hds⟩

theorem store_extends (hf : Additive f) (h : Calls f cs p q) : p.2.Extends q.2 := by
  induction h with
  | nil => exact .refl _
  | cons hcall _ ih => exact (hcall.store_extends hf).trans ih

end Calls

end Calls

/-! ## Actions that consist of calls -/

/-- Run in the first pair of states, the action makes the calls and gives the answer. -/
def Traced (f : NodeId → EditM σ ε NodeId) (action : EditM σ ε β) (calls : List Call) (answer : β)
    (p q : σ × Store) : Prop :=
  action.exec p.1 p.2 = some (.ok answer, q) ∧ Calls f calls p q

section Traced

variable {f : NodeId → EditM σ ε NodeId} {p q r : σ × Store}

theorem Traced.bind {x : EditM σ ε α} {g : α → EditM σ ε β} {cs ds : List Call} {a : α} {b : β}
    (hx : Traced f x cs a p q) (hg : Traced f (g a) ds b q r) :
    Traced f (x >>= g) (cs ++ ds) b p r := by
  refine ⟨?_, hx.2.append hg.2⟩
  rw [EditM.exec_bind, hx.1]
  exact hg.1

end Traced

/-! ## Trees of calls -/

/-- The values of a node with what the calls for its children answered. -/
def answers (vs : List (Value (Tree Call))) : List (Value NodeId) :=
  vs.map fun v => v.map fun u => u.label.answer

/-- The values of a node with the children that the calls were made for. -/
def occurrences (vs : List (Value (Tree Call))) : List (Value NodeId) :=
  vs.map fun v => v.map fun u => u.label.occurrence

namespace Tree

variable {f : NodeId → EditM σ ε NodeId}

end Tree

/-! ## What a run does -/

section Run

variable {f : NodeId → EditM σ ε NodeId} {s : Store} {t : Tree NodeId} {u : Tree Call}
  {p q : σ × Store}

end Run

end AnswerSet
