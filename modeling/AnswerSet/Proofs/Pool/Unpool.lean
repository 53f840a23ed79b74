import AnswerSet.Proofs.Store.Unchecked

/-!
# Unpooling in a store

A node of a valid store that stands for a tree is unpooled into nodes that stand for the
alternatives of this tree. The store only grows and stays valid, so nodes can be unpooled
one after the other, and alternatives can be unpooled again.
-/

namespace AnswerSet.Store

variable {s : Store}

/-- Unpools nodes one after the other. The alternatives of each follow those of the nodes
before it. -/
def unpoolAll (s : Store) (regions : Regions) : List NodeId → Except Stop (List NodeId × Store)
  | [] => .ok ([], s)
  | id :: ids => do
      let (first, s) ← s.unpool id regions
      let (rest, s) ← s.unpoolAll regions ids
      return (first ++ rest, s)

theorem unpool_denotes (hs : s.Valid) {id : NodeId} {p : Tree Unit} (h : s.Denotes id p)
    (regions : Regions) :
    ∃ answers s', s.unpool id regions = .ok (answers, s') ∧ s.Extends s' ∧ s'.Valid ∧
      List.Forall₂ s'.Denotes answers (p.alternatives regions regions.other) := by
  obtain ⟨t, ht, rfl⟩ := h
  obtain rfl := label_of_unfolding? ht
  have hvalid := hs.unfolding? ht
  obtain ⟨hextends, hdenotes⟩ := Tree.yields_expand regions hvalid ht regions.other
  have hevolves := (Tree.evolving_expand regions hvalid regions.other s hs).1
  exact ⟨_, _, unpool_of_unfolding? ht regions, hextends, hevolves.valid hs, hdenotes (.refl _)⟩

theorem unpoolAll_denotes (hs : s.Valid) {ids : List NodeId} {ps : List (Tree Unit)}
    (h : List.Forall₂ s.Denotes ids ps) (regions : Regions) :
    ∃ answers s', s.unpoolAll regions ids = .ok (answers, s') ∧ s.Extends s' ∧ s'.Valid ∧
      List.Forall₂ s'.Denotes answers
        (ps.flatMap fun p => p.alternatives regions regions.other) := by
  induction ids generalizing s ps with
  | nil =>
      obtain rfl := List.forall₂_nil_left_iff.1 h
      exact ⟨[], s, rfl, .refl s, hs, .nil⟩
  | cons id ids ih =>
      obtain ⟨p, ps, hp, hps, rfl⟩ := List.forall₂_cons_left_iff.1 h
      obtain ⟨first, s₁, hfirst, hs₁, hvalid₁, hdenotes₁⟩ := unpool_denotes hs hp regions
      obtain ⟨rest, s₂, hrest, hs₂, hvalid₂, hdenotes₂⟩ :=
        ih hvalid₁ (hps.imp fun _ _ hq => hs₁.denotes hq)
      refine ⟨first ++ rest, s₂, ?_, hs₁.trans hs₂, hvalid₂, ?_⟩
      · simp [unpoolAll, hfirst, hrest, bind, Except.bind, pure, Except.pure]
      · rw [List.flatMap_cons]
        exact List.rel_append (hdenotes₁.imp fun _ _ hq => hs₂.denotes hq) hdenotes₂

end AnswerSet.Store
