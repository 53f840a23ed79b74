import AnswerSet.Program
import AnswerSet.Proofs.Store.Unchecked

/-!
# Invariants that survive allocation

Apart from writing a slot there is one way to change a store, adding an instance. A
property of stores that no new instance can spoil is therefore an invariant of
copying, reading, expanding and transforming, in every store and however they end,
provided that the actions they are given keep it too.

The property used most is that of extending a base store: it says that all instances
of the base are as they were.
-/

namespace AnswerSet

/-! ## Judgements of invariance -/

/-- A store with the property changes into one with the property. -/
def Store.keeping (I : Store → Prop) : Discipline where
  Before := I
  Leads s s' := I s → I s'
  refl _ h := h
  trans h h' hs := h' (h hs)
  keeps h hs := h hs

/-- Run in a store with the property, the action ends in one. -/
abbrev Store.invariant (I : Store → Prop) : Judgement (StateM Store) := (keeping I).onStore

/-- Run in a store with the property and any state of the caller, the action ends in a
store with the property if it comes back, also if it fails. -/
abbrev EditM.invariant {σ ε : Type} (I : Store → Prop) : Judgement (EditM σ ε) :=
  (Store.keeping I).onEdit

/-- No new instance spoils the property. -/
def Store.AllocStable (I : Store → Prop) : Prop :=
  ∀ s n, I s → I ((Store.alloc n).run s).2

theorem Store.allocStable_extends (base : Store) : AllocStable base.Extends :=
  fun s n hs => hs.trans (.alloc s n)

variable {I : Store → Prop}

theorem Store.invariant_alloc (hI : AllocStable I) (n : Node) :
    (invariant I).Holds (alloc n) fun _ => True :=
  fun s _ => ⟨hI s n, trivial⟩

/-! ## Copying and expanding -/

namespace Tree

open Store (invariant AllocStable)

theorem invariant_plant {α : Type} (hI : AllocStable I) (t : Tree α) :
    (invariant I).Holds t.plant fun _ => True := by
  induction t using induct with
  | step l k vs ih =>
      rw [plant_node]
      refine (invariant I).holds_bind (Judgement.holds_mapM fun v hv =>
        Judgement.holds_valueMapM fun t ht => ih v hv t ht) fun values _ => ?_
      exact Store.invariant_alloc hI ⟨k, values⟩

/-- The alternatives of a value, for children whose expansion keeps the invariant. -/
theorem invariant_expandValue {v : Value ExpandedChild} (setLike enabled : Bool)
    (h : ∀ child ∈ v.children, (invariant I).Holds (child.2 enabled) fun _ => True) :
    (invariant I).Holds (expandValue setLike enabled v) fun _ => True := by
  cases v with
  | node child =>
      exact (invariant I).holds_bind (h child (by simp [Value.children])) fun _ _ =>
        (invariant I).holds_pure trivial
  | optional child =>
      cases child with
      | none => exact (invariant I).holds_pure trivial
      | some child =>
          exact (invariant I).holds_bind (h child (by simp [Value.children])) fun _ _ =>
            (invariant I).holds_pure trivial
  | nodes items =>
      have hlist : (invariant I).Holds (expandList setLike enabled items) fun _ => True := by
        refine (invariant I).holds_bind (Judgement.holds_mapM h) fun expanded _ => ?_
        split
        · exact (invariant I).holds_pure trivial
        · exact (invariant I).holds_pure trivial
      exact (invariant I).holds_bind hlist fun _ _ => (invariant I).holds_pure trivial
  | _ => exact (invariant I).holds_pure trivial

theorem invariant_expand (hI : AllocStable I) (regions : Regions) (t : Tree NodeId)
    (enabled : Bool) : (invariant I).Holds (t.expand regions enabled) fun _ => True := by
  induction t using induct generalizing enabled with
  | step id k vs ih =>
      have hexpansions : ∀ v ∈ expansions regions vs, ∀ child ∈ v.children, ∀ enabled,
          (invariant I).Holds (child.2 enabled) fun _ => True := by
        intro v hv child hchild enabled
        obtain ⟨w, hw, rfl⟩ := List.mem_map.1 hv
        rw [Value.children_map] at hchild
        obtain ⟨t, htw, rfl⟩ := List.mem_map.1 hchild
        exact ih w hw t htw enabled
      by_cases hpool : enabled = true ∧ k = .pool
      · obtain ⟨rfl, rfl⟩ := hpool
        rw [expand_pool]
        split
        · rename_i arguments harguments
          have halternatives : ∀ argument ∈ arguments,
              (invariant I).Holds (alternativesOf true argument) fun _ => True := by
            intro argument hargument
            have hargument := hexpansions _ (Kind.mem_of_valueOf? harguments) argument hargument
            exact (invariant I).holds_bind (hargument true) fun _ _ =>
              (invariant I).holds_pure trivial
          exact (invariant I).holds_bind (Judgement.holds_mapM halternatives) fun _ _ =>
            (invariant I).holds_pure trivial
        · exact (invariant I).holds_pure trivial
      · rw [expand_of_not_pool _ _ _ hpool]
        have hvalues : (invariant I).Holds
            (expandValues regions k enabled (expansions regions vs)) fun _ => True := by
          refine (invariant I).holds_bind (Judgement.holds_mapM fun pair hpair =>
            invariant_expandValue _ _ fun child hchild =>
              hexpansions pair.2 (List.of_mem_zip hpair).2 child hchild _) fun expanded _ => ?_
          split
          · exact (invariant I).holds_pure trivial
          · exact (invariant I).holds_pure trivial
        refine (invariant I).holds_bind hvalues fun answer _ => ?_
        cases answer with
        | none => exact (invariant I).holds_pure trivial
        | some alternatives =>
            exact (invariant I).holds_bind (Judgement.holds_mapM fun values _ =>
              Store.invariant_alloc hI ⟨k, values⟩) fun _ _ => (invariant I).holds_pure trivial

theorem invariant_unpool (hI : AllocStable I) (regions : Regions) (t : Tree NodeId) :
    (invariant I).Holds (t.unpool regions) fun _ => True :=
  (invariant I).holds_bind (t.invariant_expand hI regions regions.other) fun _ _ =>
    (invariant I).holds_pure trivial

end Tree

/-! ## Transforming -/

section Transform

open EditM (invariant)
open Store (AllocStable)

variable {σ ε : Type} {f : NodeId → EditM σ ε NodeId} {g : NodeId → EditM σ ε (Option NodeId)}

theorem invariant_rebuild (hI : AllocStable I) (id : NodeId) (k : Kind)
    (before after : List (Value NodeId)) :
    (invariant (σ := σ) (ε := ε) I).Holds (rebuild id k before after) fun _ => True := by
  unfold rebuild
  split
  · exact (invariant I).holds_pure trivial
  · exact Discipline.holds_lift (Store.invariant_alloc hI _)

theorem invariant_transformChildren (hI : AllocStable I)
    (hf : ∀ id, (invariant I).Holds (f id) fun _ => True) (id : NodeId) :
    (invariant I).Holds (transformChildren f id) fun _ => True := by
  refine Discipline.holds_read fun s _ => ?_
  cases s.node? id with
  | none => exact (invariant I).holds_pure trivial
  | some n =>
      refine (invariant I).holds_bind (Judgement.holds_mapM fun v _ =>
        Judgement.holds_valueMapM fun child _ => hf child) fun values _ => ?_
      exact invariant_rebuild hI id n.kind n.values values

theorem invariant_transformBottomUp (hI : AllocStable I)
    (hf : ∀ id, (invariant I).Holds (f id) fun _ => True) (id : NodeId) :
    (invariant I).Holds (transformBottomUp f id) fun _ => True :=
  Discipline.holds_transformer (fun _ hself id =>
    (invariant I).holds_bind (invariant_transformChildren hI hself id) fun _ _ => hf _) id

theorem invariant_transformTopDown (hI : AllocStable I)
    (hg : ∀ id, (invariant I).Holds (g id) fun _ => True) (id : NodeId) :
    (invariant I).Holds (transformTopDown g id) fun _ => True :=
  Discipline.holds_transformer (fun _ hself id =>
    (invariant I).holds_bind (hg id) fun answer _ => by
      cases answer with
      | some replacement => exact (invariant I).holds_pure trivial
      | none => exact invariant_transformChildren hI hself id) id

/-! ## Transferring -/

theorem governs_unpool (hI : AllocStable I) (id : NodeId) (regions : Regions) :
    (Store.keeping I).Governs (RunM.unpool id regions) :=
  Discipline.governs_unfolding fun t s hs _ => (t.invariant_unpool hI regions s hs).1

theorem Builder.invariant_unpooling (hI : AllocStable I) {builder : Builder σ}
    (hadd : ∀ id, (invariant I).Holds (builder.add id) fun _ => True) (regions : Regions)
    (id : NodeId) : (invariant I).Holds ((builder.unpooling regions).add id) fun _ => True := by
  refine (invariant I).holds_bind (Discipline.holds_ofRun (governs_unpool hI id regions))
    fun alternatives _ => ?_
  exact Discipline.holds_forM fun alternative _ => hadd alternative

theorem invariant_transfer {τ : Type} [StatementSource τ] {builder : Builder σ}
    (hadd : ∀ id, (invariant I).Holds (builder.add id) fun _ => True) (source : τ) :
    (invariant I).Holds (transfer source builder) fun _ => True := by
  unfold transfer
  generalize StatementSource.statements source = statements
  generalize 0 = count
  induction statements generalizing count with
  | nil => exact (invariant I).holds_pure trivial
  | cons id rest ih => exact (invariant I).holds_bind (hadd id) fun _ _ => ih (count + 1)

end Transform

end AnswerSet
