import AnswerSet.Proofs.Frame
import AnswerSet.Proofs.Json.RoundTrip
import AnswerSet.Proofs.Store.Order

/-!
# Deep copies

A deep copy stands for the same tree as its original and consists of fresh instances
only, each of which occurs in it once. What the older nodes reach and what the copy
reaches are therefore two separate parts of the store, and what is written into one of
them is not seen in the other.
-/

namespace AnswerSet

namespace Store

variable {s s' : Store} {id copy : NodeId} {t u : Tree NodeId}

theorem deepCopy_of_unfolding? (h : s.unfolding? id = some t) :
    s.deepCopy id = .ok (t.plant.run s) := by
  rw [deepCopy_eq, unfold_eq_ok_iff.2 h]
  rfl

/-- Nodes that stand for one tree are equal and have one JSON form. -/
theorem same_of_plain_eq (hu : s.unfolding? copy = some u) (ht : s.unfolding? id = some t)
    (h : u.plain = t.plain) : s.same copy id = .ok true ∧ s.toJson copy = s.toJson id := by
  constructor
  · rw [same_of_unfolding? hu ht, Except.ok.injEq, Tree.same_iff_erase_eq, ← u.erase_plain, h,
      t.erase_plain]
  · rw [toJson_of_unfolding? hu, toJson_of_unfolding? ht, Tree.toJson_eq_of_plain_eq h]

/-- An older node unfolds to instances that are older. -/
theorem node?_ne_none_of_mem_labels (ht : s.unfolding? id = some t) {x : NodeId}
    (hx : x ∈ t.labels) : s.node? x ≠ none := by
  have hgrounded : s.Grounded id := exists_unfolding?_iff.1 ⟨t, ht⟩
  obtain ⟨n, hn⟩ := (hgrounded.of_reaches ((mem_labels_iff_reaches ht).1 hx)).exists_node
  rw [hn]
  exact Option.some_ne_none n

/-- Writing into newer instances does not show in what an older node stands for. -/
theorem Extends.unfolding?_runAll (h : s.Extends s') (ht : s.unfolding? id = some t)
    {ms : List Mutation} (hms : ∀ m ∈ ms, m.owner ∈ s.freshIds s') :
    (Mutation.runAll ms s').unfolding? id = some t := by
  refine unfolding?_of_agree (h.unfolding? ht) fun x hx => ?_
  apply Mutation.node?_runAll_of_ne
  rintro m hm rfl
  have hfresh := (mem_freshIds.1 (hms m hm)).1
  exact node?_ne_none_of_mem_labels ht hx (node?_eq_none_iff.2 hfresh)

/-- Writing elsewhere does not show in a node that consists of fresh instances. -/
theorem unfolding?_runAll_of_fresh (hu : s'.unfolding? copy = some u)
    (hlabels : u.labels = s.freshIds s') {ms : List Mutation}
    (hms : ∀ m ∈ ms, m.owner ∉ s.freshIds s') :
    (Mutation.runAll ms s').unfolding? copy = some u := by
  refine unfolding?_of_agree hu fun x hx => ?_
  apply Mutation.node?_runAll_of_ne
  rintro m hm rfl
  exact hms m hm (hlabels ▸ hx)

end Store

/-- What holds of a node, its deep copy and their unfoldings in the stores before and after
the copy is made. -/
structure Store.IsolatedCopy (s s' : Store) (id copy : NodeId) (t u : Tree NodeId) : Prop where
  copied : s.deepCopy id = .ok (copy, s')
  /-- The copy stands for the same tree, locations included. -/
  unfoldings : s.unfolding? id = some t ∧ s'.unfolding? copy = some u ∧ u.plain = t.plain
  same : s'.same copy id = .ok true
  form : s.toJson id = .ok t.toJson ∧ s'.toJson id = .ok t.toJson ∧ s'.toJson copy = .ok t.toJson
  /-- The copy consists of new instances, and none of them is shared within it. -/
  fresh : ∀ x, s'.Reaches copy x → x ∈ s.freshIds s' ∧ u.labels.count x = 1
  /-- It shares no instance with its original, nor with any other older node. -/
  apart : ∀ older x, s.Holds older → s'.Reaches older x → ¬ s'.Reaches copy x
  /-- Whatever is written into new instances, all older nodes stand for what they did. -/
  kept : ∀ ms : List Mutation, (∀ m ∈ ms, m.owner ∈ s.freshIds s') → ∀ older, s.Holds older →
    ∃ w, s.unfolding? older = some w ∧ (Mutation.runAll ms s').unfolding? older = some w
  /-- Whatever is written into other instances, the copy stands for what it did. -/
  detached : ∀ ms : List Mutation, (∀ m ∈ ms, m.owner ∉ s.freshIds s') →
    (Mutation.runAll ms s').unfolding? copy = some u

/-- Every node of a store without cycles can be copied, and the copy is isolated. -/
theorem deepCopy_is_isolated {s : Store} (hclosed : s.Closed) (hacyclic : s.Acyclic)
    {id : NodeId} {n : Node} (hn : s.node? id = some n) :
    ∃ s' copy t u, s.IsolatedCopy s' id copy t u := by
  have hunfolds (older : NodeId) (h : s.Holds older) : ∃ w, s.unfolding? older = some w := by
    obtain ⟨m, hm⟩ := Option.isSome_iff_exists.1 h
    exact (hclosed.grounded hacyclic hm).exists_unfolding?
  obtain ⟨t, ht⟩ := (hclosed.grounded hacyclic hn).exists_unfolding?
  have hcopied := Store.deepCopy_of_unfolding? ht
  obtain ⟨u, hu, hplain, hlabels, hextends⟩ := t.plant_unfolds s
  generalize t.plant.run s = planted at hcopied hu hlabels hextends
  obtain ⟨copy, s'⟩ := planted
  have ht' := hextends.unfolding? ht
  obtain ⟨hsame, hform⟩ := Store.same_of_plain_eq hu ht' hplain
  have hfresh (x : NodeId) (hx : s'.Reaches copy x) : x ∈ s.freshIds s' :=
    hlabels ▸ (Store.mem_labels_iff_reaches hu).2 hx
  refine ⟨s', copy, t, u, hcopied, ⟨ht, hu, hplain⟩, hsame, ⟨?_, ?_, ?_⟩, ?_, ?_, ?_, ?_⟩
  · exact Store.toJson_of_unfolding? ht
  · exact Store.toJson_of_unfolding? ht'
  · rw [hform, Store.toJson_of_unfolding? ht']
  · intro x hx
    rw [hlabels]
    exact ⟨hfresh x hx, List.count_eq_one_of_mem Store.nodup_freshIds (hfresh x hx)⟩
  · intro older x holder hreach hcopy
    obtain ⟨w, hw⟩ := hunfolds older holder
    have hlabel := (Store.mem_labels_iff_reaches (hextends.unfolding? hw)).2 hreach
    exact Store.node?_ne_none_of_mem_labels hw hlabel
      (Store.node?_eq_none_iff.2 (Store.mem_freshIds.1 (hfresh x hcopy)).1)
  · intro ms hms older holder
    obtain ⟨w, hw⟩ := hunfolds older holder
    exact ⟨w, hw, hextends.unfolding?_runAll hw hms⟩
  · intro ms hms
    exact Store.unfolding?_runAll_of_fresh hu hlabels hms

/-- The copy of `f(1,1)` has its arguments apart, and renaming the original, once with
success and once without, does not show in it. -/
theorem deepCopy_is_isolated_sharedTerm :
    Store.sharedTerm.Closed ∧ Store.sharedTerm.Acyclic ∧
      ∃ s' copy t u, Store.sharedTerm.IsolatedCopy s' ⟨1⟩ copy t u ∧
        (Mutation.runAll [.set ⟨1⟩ .name (.text "g"), .set ⟨1⟩ .name (.int 0)] s').unfolding? copy =
          some u := by
  have hs : Store.sharedTerm.WellFormed := .of_inOrder (by decide)
  have hn : Store.sharedTerm.node? ⟨1⟩ = some _ := rfl
  obtain ⟨s', copy, t, u, h⟩ := deepCopy_is_isolated hs.closed hs.acyclic hn
  refine ⟨hs.closed, hs.acyclic, s', copy, t, u, h, h.detached _ fun m hm hfresh => ?_⟩
  have howner : m.owner = ⟨1⟩ := by
    rcases List.mem_pair.1 hm with rfl | rfl <;> rfl
  have hle := (Store.mem_freshIds.1 hfresh).1
  rw [howner] at hle
  exact absurd hle (by decide)

end AnswerSet
