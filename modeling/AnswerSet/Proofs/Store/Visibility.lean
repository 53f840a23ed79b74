import AnswerSet.Proofs.Frame
import AnswerSet.Proofs.Pool.Unpool
import AnswerSet.Proofs.Store.Order

/-!
# Who sees a write

A write changes one slot of one instance. It is seen by the nodes that reach the instance,
and by no others: a path to the instance runs over instances that have not changed, so the
write neither opens nor closes one. A node that does not reach the instance stands for the
same tree as before. A node that does stands for the tree it stood for, with the new tree
of the instance at every place where the old one was.
-/

namespace AnswerSet

/-! ## Replacing occurrences -/

namespace Tree

/-- The tree with another one at every occurrence of an instance. -/
def replace (t : Tree NodeId) (x : NodeId) (u : Tree NodeId) : Tree NodeId :=
  t.fold fun l k vs => if l = x then u else .node l k vs

theorem replace_node (l : NodeId) (k : Kind) (vs : List (Value (Tree NodeId))) (x : NodeId)
    (u : Tree NodeId) :
    (node l k vs).replace x u =
      if l = x then u else .node l k (vs.map fun v => v.map fun t => t.replace x u) :=
  fold_node _ l k vs

end Tree

/-! ## Stores that differ in one instance -/

namespace Store

variable {s s' : Store} {x m : NodeId}

/-- The stores hold the same instances except for one identity. -/
def AgreeOff (s s' : Store) (x : NodeId) : Prop := ∀ y, y ≠ x → s'.node? y = s.node? y

namespace AgreeOff

theorem symm (h : s.AgreeOff s' x) : s'.AgreeOff s x := fun y hy => (h y hy).symm

theorem child (h : s.AgreeOff s' x) {c : NodeId} (hm : m ≠ x) (hchild : s.Child m c) :
    s'.Child m c := by
  rw [child_iff] at hchild ⊢
  rwa [h m hm]

/-- Up to its first arrival at the instance a path uses the others only. -/
theorem reaches (h : s.AgreeOff s' x) (hreach : s.Reaches m x) : s'.Reaches m x := by
  induction hreach using Relation.ReflTransGen.head_induction_on with
  | refl => exact .refl
  | @head m c hchild _ ih =>
      by_cases hm : m = x
      · rw [hm]
        exact .refl
      · exact .head (h.child hm hchild) ih

theorem reaches_iff (h : s.AgreeOff s' x) : s'.Reaches m x ↔ s.Reaches m x :=
  ⟨h.symm.reaches, h.reaches⟩

theorem unfolding?_of_not_reaches (h : s.AgreeOff s' x) (hreach : ¬ s.Reaches m x)
    {t : Tree NodeId} (ht : s.unfolding? m = some t) : s'.unfolding? m = some t := by
  refine unfolding?_of_agree ht fun y hy => h y ?_
  rintro rfl
  exact hreach ((mem_labels_iff_reaches ht).1 hy)

/-- A node that does not reach the instance has the same unfolding, if it has one. -/
theorem unfolding?_eq (h : s.AgreeOff s' x) (hreach : ¬ s.Reaches m x) :
    s'.unfolding? m = s.unfolding? m := by
  cases ht : s.unfolding? m with
  | some t => exact h.unfolding?_of_not_reaches hreach ht
  | none =>
      cases ht' : s'.unfolding? m with
      | none => rfl
      | some t' =>
          have hreach' : ¬ s'.Reaches m x := fun hr => hreach (h.symm.reaches hr)
          rw [h.symm.unfolding?_of_not_reaches hreach' ht'] at ht
          cases ht

/-- The new unfolding of the instance takes the place of the old one everywhere. -/
theorem unfolding?_replace (h : s.AgreeOff s' x) {u : Tree NodeId}
    (hu : s'.unfolding? x = some u) {t : Tree NodeId} (ht : s.unfolding? m = some t) :
    s'.unfolding? m = some (t.replace x u) := by
  induction t using Tree.induct generalizing m with
  | step l k vs ih =>
      obtain ⟨n, values, hn, heq, hvalues⟩ := unfolding?_eq_some_iff.1 ht
      cases heq
      rw [Tree.replace_node]
      by_cases hl : l = x
      · rw [if_pos hl, hl, hu]
      · rw [if_neg hl]
        refine unfolding?_eq_some_iff.2 ⟨n, _, (h l hl).trans hn, rfl, ?_⟩
        have hchildren : List.Forall₂
            (Value.Rel fun c t => s'.unfolding? c = some (t.replace x u)) n.values vs :=
          Value.forall₂_rel_imp_mem hvalues fun _ _ c _ w hw t ht hc => ih w hw t ht hc
        refine List.forall₂_map_right_iff.2 (hchildren.imp fun v w hvw => ?_)
        exact Value.rel_map_right_iff.2 hvw

end AgreeOff

/-- Nodes that do not reach the instance compare in the same way with each other. -/
theorem AgreeOff.compared (h : s.AgreeOff s' x) (hs : s.WellFormed) {o : NodeId}
    (hm : ¬ s.Reaches m x) (ho : ¬ s.Reaches o x) :
    s'.same m o = s.same m o ∧ s'.compare m o = s.compare m o := by
  have hnode {y : NodeId} (hy : ¬ s.Reaches y x) : s'.node? y = s.node? y := by
    apply h y
    rintro rfl
    exact hy .refl
  by_cases habsent : s.node? m = none ∨ s.node? o = none
  · obtain ⟨hsame, hcompare⟩ := compared_of_absent habsent
    rw [← hnode hm, ← hnode ho] at habsent
    rw [hsame, hcompare]
    exact compared_of_absent habsent
  · obtain ⟨hk, hl⟩ := not_or.1 habsent
    obtain ⟨t, ht⟩ := hs.exists_unfolding?_of_holds (Option.isSome_iff_ne_none.2 hk)
    obtain ⟨u, hu⟩ := hs.exists_unfolding?_of_holds (Option.isSome_iff_ne_none.2 hl)
    have ht' := (h.unfolding?_eq hm).trans ht
    have hu' := (h.unfolding?_eq ho).trans hu
    rw [same_of_unfolding? ht hu, same_of_unfolding? ht' hu', compare_of_unfolding? ht hu,
      compare_of_unfolding? ht' hu']
    exact ⟨rfl, rfl⟩

/-! ## Writing a slot -/

section Write

variable {a : Attr} {v : Value NodeId}

/-- The written slot is one that the instance has. -/
theorem WritesOnly.exists_slot (h : s.WritesOnly s' x a v) :
    ∃ n i, s.node? x = some n ∧ n.kind.slotIndex? a = some i ∧ i < n.values.length ∧
      s'.node? x = some { n with values := n.values.set i v } := by
  obtain ⟨n, i, hn, hindex, hn'⟩ := h.slot
  refine ⟨n, i, hn, hindex, ?_, hn'⟩
  have hread := h.read
  rw [get_of_node? hn'] at hread
  by_contra hlength
  simp [Node.get, Kind.valueOf?, hindex, hlength] at hread

/-- Nodes in a slot of an instance do not reach the instance. -/
theorem not_reaches_of_mem_values (hacyclic : s.Acyclic) {n : Node} (hn : s.node? x = some n)
    {w : Value NodeId} (hw : w ∈ n.values) {c : NodeId} (hc : c ∈ w.children) :
    ¬ s.Reaches c x := by
  intro hreach
  have hchild : s.Child x c := child_iff.2 ⟨n, hn, mem_children_iff.2 ⟨w, hw, hc⟩⟩
  exact hacyclic x (Relation.TransGen.head' hchild hreach)

/-- The unfolding of the instance differs in the written slot only. The trees there are
those that the new value stood for already. -/
theorem WritesOnly.unfolding?_owner (h : s.WritesOnly s' x a v) (hacyclic : s.Acyclic)
    (hclosed' : s'.Closed) (hacyclic' : s'.Acyclic) {t : Tree NodeId}
    (ht : s.unfolding? x = some t) :
    ∃ i w, t.kind.slotIndex? a = some i ∧ i < t.values.length ∧
      s.UnfoldsValue v w ∧ s'.UnfoldsValue v w ∧
      s'.unfolding? x = some (.node x t.kind (t.values.set i w)) := by
  obtain ⟨n, i, hn, hindex, hi, hn'⟩ := h.exists_slot
  obtain ⟨m, ws, hm, rfl, hws⟩ := unfolding?_eq_some_iff.1 ht
  obtain rfl : n = m := Option.some.inj (hn.symm.trans hm)
  have hagree : s.AgreeOff s' x := h.others
  -- Neither the old values nor the new one lead back to the instance.
  have hold : ∀ w ∈ n.values, ∀ c ∈ w.children, s'.unfolding? c = s.unfolding? c :=
    fun w hw c hc => hagree.unfolding?_eq (not_reaches_of_mem_values hacyclic hn hw hc)
  have hmem : v ∈ n.values.set i v := List.mem_set hi v
  have hnew : ∀ c ∈ v.children, s'.unfolding? c = s.unfolding? c := fun c hc =>
    (hagree.symm.unfolding?_eq (not_reaches_of_mem_values hacyclic' hn' hmem hc)).symm
  obtain ⟨w, hw⟩ : ∃ w, Value.Rel (fun c u => s'.unfolding? c = some u) v w := by
    refine Value.exists_rel fun c hc => ?_
    have hheld := hclosed' hn' c (mem_children_iff.2 ⟨v, hmem, hc⟩)
    obtain ⟨m, hm⟩ := Option.isSome_iff_exists.1 hheld
    exact (hclosed'.grounded hacyclic' hm).exists_unfolding?
  have hws' : List.Forall₂ (Value.Rel fun c u => s'.unfolding? c = some u) n.values ws :=
    Value.forall₂_rel_imp_mem hws fun w hw c hc _ _ u _ hu => (hold w hw c hc).trans hu
  refine ⟨i, w, hindex, hws.length_eq ▸ hi, ?_, Value.mapM_eq_some_iff.2 hw, ?_⟩
  · exact Value.mapM_eq_some_iff.2 (hw.imp_mem fun c hc u _ hu => (hnew c hc).symm.trans hu)
  · exact unfolding?_eq_some_iff.2 ⟨_, _, hn', rfl, forall₂_set hws' hw i⟩

/-- What a write of an attribute of an instance means for the trees that nodes stand for. -/
structure SeenThroughOwner (s s' : Store) (x : NodeId) (a : Attr) (v : Value NodeId) : Prop where
  /-- The same nodes reach the instance as before. -/
  reaches_iff : ∀ m, s'.Reaches m x ↔ s.Reaches m x
  /-- The unfolding of the instance differs in the written slot only, where the trees of
  the new value are now. -/
  owner : ∃ t i w, s.unfolding? x = some t ∧ t.kind.slotIndex? a = some i ∧ i < t.values.length ∧
    s.UnfoldsValue v w ∧ s'.UnfoldsValue v w ∧
    s'.unfolding? x = some (.node x t.kind (t.values.set i w))
  /-- Wherever the instance occurs below a node, its new unfolding stands for its old one. -/
  seen : ∀ m, s.Reaches m x → ∃ t u, s.unfolding? m = some t ∧ s'.unfolding? x = some u ∧
    s'.unfolding? m = some (t.replace x u)
  /-- Other nodes have the same unfolding, -/
  unseen : ∀ m, ¬ s.Reaches m x → s'.unfolding? m = s.unfolding? m
  /-- the same surface text and JSON form, -/
  forms : ∀ m, ¬ s.Reaches m x → s'.code m = s.code m ∧ s'.inspect m = s.inspect m ∧
    s'.toJson m = s.toJson m
  /-- compare in the same way with each other, -/
  comparisons : ∀ m o, ¬ s.Reaches m x → ¬ s.Reaches o x →
    s'.same m o = s.same m o ∧ s'.compare m o = s.compare m o
  /-- and are unpooled into nodes that stand for the same trees. -/
  unpooling : ∀ m regions, s.Holds m → ¬ s.Reaches m x →
    ∃ answers r answers' r' ps, s.unpool m regions = .ok (answers, r) ∧
      s'.unpool m regions = .ok (answers', r') ∧
      List.Forall₂ r.Denotes answers ps ∧ List.Forall₂ r'.Denotes answers' ps

theorem WritesOnly.seenThroughOwner (h : s.WritesOnly s' x a v) (hs : s.WellFormed)
    (hvalid' : s'.Valid) (hclosed' : s'.Closed) (hacyclic' : s'.Acyclic) :
    s.SeenThroughOwner s' x a v := by
  have hagree : s.AgreeOff s' x := h.others
  obtain ⟨n, i, hn, -, -, hn'⟩ := h.exists_slot
  obtain ⟨t, ht⟩ := hs.exists_unfolding? hn
  obtain ⟨u, hu⟩ := (hclosed'.grounded hacyclic' hn').exists_unfolding?
  have hunfold (m : NodeId) (hm : ¬ s.Reaches m x) : s'.unfold m = s.unfold m := by
    rw [unfold, unfold, hagree.unfolding?_eq hm]
  refine ⟨fun m => hagree.reaches_iff, ⟨t, ?_⟩, fun m hm => ?_, fun m => hagree.unfolding?_eq,
    fun m hm => ?_, fun m o hm ho => ?_, fun m regions hheld hm => ?_⟩
  · obtain ⟨i, w, hrest⟩ := h.unfolding?_owner hs.acyclic hclosed' hacyclic' ht
    exact ⟨i, w, ht, hrest⟩
  · obtain ⟨t', ht'⟩ : ∃ t', s.unfolding? m = some t' := by
      rcases Relation.ReflTransGen.cases_head hm with rfl | ⟨c, hchild, -⟩
      · exact ⟨t, ht⟩
      · obtain ⟨k, hk, -⟩ := child_iff.1 hchild
        exact hs.exists_unfolding? hk
    exact ⟨t', u, ht', hu, hagree.unfolding?_replace hu ht'⟩
  · rw [code, code, inspect, inspect, toJson, toJson, hunfold m hm]
    exact ⟨rfl, rfl, rfl⟩
  · exact hagree.compared hs hm ho
  · obtain ⟨t', ht'⟩ := hs.exists_unfolding?_of_holds hheld
    have hafter := (hagree.unfolding?_eq hm).trans ht'
    obtain ⟨answers, r, hrun, -, -, hdenotes⟩ :=
      unpool_denotes hs.valid (denotes_of_unfolding? ht') regions
    obtain ⟨answers', r', hrun', -, -, hdenotes'⟩ :=
      unpool_denotes hvalid' (denotes_of_unfolding? hafter) regions
    exact ⟨answers, r, answers', r', _, hrun, hrun', hdenotes, hdenotes'⟩

end Write

end Store

/-- A call that writes and succeeds, in a well-formed store and without making a cycle, is
seen by the nodes that reach the instance it writes, and by no others. -/
theorem writes_are_seen_through_owner {s s' : Store} (hs : s.WellFormed) {α : Type}
    {op : Operation α} {x : NodeId} {a : Attr} {answer : α} (htarget : op.target? = some (x, a))
    (hrun : op.run.exec s = some (.ok answer, s')) (hclosed' : s'.Closed)
    (hacyclic' : s'.Acyclic) :
    ∃ v, op.written? s = some v ∧ s.SeenThroughOwner s' x a v := by
  obtain ⟨v, hwritten, hwrites⟩ := Operation.writesOnly_of_target? hs.valid htarget hrun
  have hvalid' : s'.Valid := (op.evolution_governs hs.valid hrun).valid hs.valid
  exact ⟨v, hwritten, hwrites.seenThroughOwner hs hvalid' hclosed' hacyclic'⟩

/-- The number in `f(1,1)` becomes `2`. Both arguments of the term change, since they are one
instance. -/
theorem writes_are_seen_through_owner_sharedTerm :
    let op : Operation Unit := .set ⟨0⟩ .symbol (.symbol (.number 2))
    let two : Tree NodeId := .node ⟨0⟩ .symbolicTerm [.location .default, .symbol (.number 2)]
    Store.sharedTerm.WellFormed ∧ op.target? = some (⟨0⟩, .symbol) ∧
      ∃ s', op.run.exec Store.sharedTerm = some (.ok (), s') ∧ s'.Closed ∧ s'.Acyclic ∧
        Store.sharedTerm.SeenThroughOwner s' ⟨0⟩ .symbol (.symbol (.number 2)) ∧
        s'.unfolding? ⟨1⟩ = some (.node ⟨1⟩ .function
          [.location .default, .text "f", .nodes [two, two], .int 0]) := by
  intro op two
  have hs : Store.sharedTerm.WellFormed := .of_inOrder (by decide)
  have hrun : op.run.exec Store.sharedTerm = some (.ok (), _) := rfl
  have hs' : Store.WellFormed (Store.sharedTerm.put ⟨0⟩
      ⟨.symbolicTerm, [.location .default, .symbol (.number 2)]⟩) := .of_inOrder (by decide)
  obtain ⟨v, hv, hseen⟩ := writes_are_seen_through_owner hs rfl hrun hs'.closed hs'.acyclic
  cases hv
  exact ⟨hs, rfl, _, hrun, hs'.closed, hs'.acyclic, hseen, rfl⟩

end AnswerSet
