import AnswerSet.Proofs.Store.Reach
import AnswerSet.Proofs.Tree
import AnswerSet.Store.Unfold

/-!
# Unfoldings

An instance has an unfolding exactly when it is grounded, so the bound on the depth
never cuts a finite unfolding short. Without the bound the unfolding satisfies the
equation one expects: a node with the kind of the instance whose values are the
values of the instance with every child replaced by its own unfolding. The rest of
the theory rests on this equation and on induction over trees; the bound does not
appear again.
-/

namespace AnswerSet.Store

variable {s s' : Store} {id : NodeId} {t u : Tree NodeId}

/-! ## Removing the bound -/

theorem unfoldWithin_succ_iff {depth : Nat} :
    s.unfoldWithin (depth + 1) id = some t ↔
      ∃ n values, s.node? id = some n ∧ t = .node id n.kind values ∧
        List.Forall₂ (Value.Rel fun c u => s.unfoldWithin depth c = some u) n.values values := by
  have hvalues (n : Node) (values : List (Value (Tree NodeId))) :
      n.values.mapM (Value.mapM (s.unfoldWithin depth)) = some values ↔
        List.Forall₂ (Value.Rel fun c u => s.unfoldWithin depth c = some u) n.values values := by
    simp only [mapM_eq_some_iff, Value.mapM_eq_some_iff]
  simp only [unfoldWithin, Option.bind_eq_bind, Option.bind_eq_some_iff, Option.pure_def,
    Option.some.injEq, hvalues]
  constructor
  · rintro ⟨n, hn, values, hvalues, rfl⟩
    exact ⟨n, values, hn, rfl, hvalues⟩
  · rintro ⟨n, values, hn, rfl, hvalues⟩
    exact ⟨n, hn, values, hvalues, rfl⟩

theorem unfoldWithin_mono {depth depth' : Nat} (hle : depth ≤ depth')
    (h : s.unfoldWithin depth id = some t) : s.unfoldWithin depth' id = some t := by
  induction depth generalizing depth' id t with
  | zero => simp [unfoldWithin] at h
  | succ depth ih =>
      obtain ⟨d, rfl⟩ : ∃ d, depth' = d + 1 := ⟨depth' - 1, by omega⟩
      obtain ⟨n, values, hn, rfl, hvalues⟩ := unfoldWithin_succ_iff.1 h
      refine unfoldWithin_succ_iff.2 ⟨n, values, hn, rfl, hvalues.imp fun v w hvw => ?_⟩
      exact hvw.imp fun c u => ih (by omega)

theorem mem_children_iff {n : Node} {c : NodeId} :
    c ∈ n.children ↔ ∃ v ∈ n.values, c ∈ v.children := by
  simp [Node.children]

theorem grounded_of_unfoldWithin {depth : Nat} (h : s.unfoldWithin depth id = some t) :
    s.Grounded id := by
  induction depth generalizing id t with
  | zero => simp [unfoldWithin] at h
  | succ depth ih =>
      obtain ⟨n, values, hn, rfl, hvalues⟩ := unfoldWithin_succ_iff.1 h
      refine .intro hn fun c hc => ?_
      obtain ⟨v, hv, hcv⟩ := mem_children_iff.1 hc
      obtain ⟨_, _, u, _, hu⟩ := Value.exists_child_of_rel hvalues hv hcv
      exact ih hu

/-- A grounded instance unfolds within any depth beyond the number of instances below
it. -/
theorem exists_unfoldWithin (h : s.Grounded id) {depth : Nat}
    (hdepth : s.countBelow id < depth) : ∃ t, s.unfoldWithin depth id = some t := by
  induction depth generalizing id with
  | zero => omega
  | succ depth ih =>
      obtain ⟨n, hn⟩ := h.exists_node
      have hchildren : ∀ v ∈ n.values, ∀ c ∈ v.children, ∃ u, s.unfoldWithin depth c = some u := by
        intro v hv c hc
        have hchild : s.Child id c := child_iff.2 ⟨n, hn, mem_children_iff.2 ⟨v, hv, hc⟩⟩
        obtain ⟨m, hm⟩ := (h.of_child hchild).exists_node
        have hdrop := countBelow_lt_of_child hchild hm (h.of_child hchild).not_above_self
        exact ih (h.of_child hchild) (by omega)
      obtain ⟨values, hvalues⟩ := Value.exists_forall₂_rel hchildren
      exact ⟨_, unfoldWithin_succ_iff.2 ⟨n, values, hn, rfl, hvalues⟩⟩

theorem Grounded.exists_unfolding? (h : s.Grounded id) : ∃ t, s.unfolding? id = some t := by
  obtain ⟨n, hn⟩ := h.exists_node
  exact exists_unfoldWithin h (countBelow_lt_size hn h.not_above_self)

/-- The bound on the depth cuts no unfolding short. -/
theorem unfolding?_of_unfoldWithin {depth : Nat} (h : s.unfoldWithin depth id = some t) :
    s.unfolding? id = some t := by
  obtain ⟨u, hu⟩ := (grounded_of_unfoldWithin h).exists_unfolding?
  have ht := unfoldWithin_mono (Nat.le_max_left depth s.size) h
  have hu' := unfoldWithin_mono (Nat.le_max_right depth s.size) hu
  rw [hu, ← ht, hu']

/-- An instance has an unfolding exactly when every path below it ends. -/
theorem exists_unfolding?_iff : (∃ t, s.unfolding? id = some t) ↔ s.Grounded id :=
  ⟨fun ⟨_, h⟩ => grounded_of_unfoldWithin h, Grounded.exists_unfolding?⟩

/-- The equation of unfoldings, without a bound. -/
theorem unfolding?_eq_some_iff :
    s.unfolding? id = some t ↔
      ∃ n values, s.node? id = some n ∧ t = .node id n.kind values ∧
        List.Forall₂ (Value.Rel fun c u => s.unfolding? c = some u) n.values values := by
  constructor
  · intro h
    obtain ⟨d, hd⟩ : ∃ d, s.size = d + 1 := by
      obtain ⟨n, hn⟩ := (grounded_of_unfoldWithin h).exists_node
      exact ⟨s.size - 1, by have := index_lt_of_node? hn; omega⟩
    rw [unfolding?, hd] at h
    obtain ⟨n, values, hn, rfl, hvalues⟩ := unfoldWithin_succ_iff.1 h
    exact ⟨n, values, hn, rfl, hvalues.imp fun v w hvw =>
      hvw.imp fun c u => unfolding?_of_unfoldWithin⟩
  · rintro ⟨n, values, hn, rfl, hvalues⟩
    have h : s.unfoldWithin (s.size + 1) id = some (.node id n.kind values) :=
      unfoldWithin_succ_iff.2 ⟨n, values, hn, rfl, hvalues⟩
    exact unfolding?_of_unfoldWithin h

/-! ## Consequences -/

theorem label_of_unfolding? (h : s.unfolding? id = some t) : t.label = id := by
  obtain ⟨n, values, -, rfl, -⟩ := unfolding?_eq_some_iff.1 h
  rfl

theorem WellFormed.exists_unfolding? (h : s.WellFormed) {n : Node} (hn : s.node? id = some n) :
    ∃ t, s.unfolding? id = some t :=
  (h.grounded hn).exists_unfolding?

theorem unfold_eq_ok_iff : s.unfold id = .ok t ↔ s.unfolding? id = some t :=
  Stop.orEndless_eq_ok_iff

/-- Instances that stay as they are keep their unfoldings. -/
theorem Extends.unfolding? (h : s.Extends s') (ht : s.unfolding? id = some t) :
    s'.unfolding? id = some t := by
  induction t using Tree.induct generalizing id with
  | step l k values ih =>
      obtain ⟨n, values', hn, heq, hvalues⟩ := unfolding?_eq_some_iff.1 ht
      cases heq
      exact unfolding?_eq_some_iff.2 ⟨n, values, h hn, rfl,
        Value.forall₂_rel_imp_mem hvalues fun _ _ c _ w hw u hu hc => ih w hw u hu hc⟩

/-- An unfolding depends on the instances that occur in it and on no others. -/
theorem unfolding?_of_agree (ht : s.unfolding? id = some t)
    (h : ∀ x ∈ t.labels, s'.node? x = s.node? x) : s'.unfolding? id = some t := by
  induction t using Tree.induct generalizing id with
  | step l k values ih =>
      obtain ⟨n, values', hn, heq, hvalues⟩ := unfolding?_eq_some_iff.1 ht
      cases heq
      rw [Tree.labels_node] at h
      refine unfolding?_eq_some_iff.2 ⟨n, values, (h l (by simp)).trans hn, rfl,
        Value.forall₂_rel_imp_mem hvalues fun _ _ c _ w hw u hu hc => ih w hw u hu hc ?_⟩
      intro x hx
      have hchild : u ∈ values.flatMap Value.children := List.mem_flatMap.2 ⟨w, hw, hu⟩
      exact h x (List.mem_append_left _ (List.mem_flatMap.2 ⟨u, hchild, hx⟩))

/-- Every node of an unfolding follows the schema if every instance does. -/
theorem Valid.unfolding? (hs : s.Valid) (ht : s.unfolding? id = some t) : t.Valid := by
  induction t using Tree.induct generalizing id with
  | step l k values ih =>
      obtain ⟨n, values', hn, heq, hvalues⟩ := unfolding?_eq_some_iff.1 ht
      cases heq
      refine Tree.valid_node_iff.2 ⟨(hs hn).of_rel hvalues, fun w hw u hu => ?_⟩
      obtain ⟨v, hv, c, -, hc⟩ := Value.exists_child_of_rel_right hvalues hw hu
      exact ih w hw u hu hc

/-- The labels of an unfolding are the instances that the node reaches. -/
theorem mem_labels_iff_reaches {x : NodeId} (ht : s.unfolding? id = some t) :
    x ∈ t.labels ↔ s.Reaches id x := by
  induction t using Tree.induct generalizing id with
  | step l k values ih =>
      obtain ⟨n, values', hn, heq, hvalues⟩ := unfolding?_eq_some_iff.1 ht
      cases heq
      rw [Tree.labels_node, List.mem_append, List.mem_flatMap, List.mem_singleton]
      constructor
      · rintro (⟨u, hu, hx⟩ | rfl)
        · obtain ⟨w, hw, huw⟩ := List.mem_flatMap.1 hu
          obtain ⟨v, hv, c, hc, hcu⟩ := Value.exists_child_of_rel_right hvalues hw huw
          have hchild : s.Child l c := child_iff.2 ⟨n, hn, mem_children_iff.2 ⟨v, hv, hc⟩⟩
          exact .head hchild ((ih w hw u huw hcu).1 hx)
        · exact .refl
      · intro hreach
        rcases Relation.ReflTransGen.cases_head hreach with rfl | ⟨c, hchild, hrest⟩
        · exact .inr rfl
        · obtain ⟨m, hm, hc⟩ := child_iff.1 hchild
          rw [hn, Option.some.injEq] at hm
          subst hm
          obtain ⟨v, hv, hcv⟩ := mem_children_iff.1 hc
          obtain ⟨w, hw, u, huw, hcu⟩ := Value.exists_child_of_rel hvalues hv hcv
          exact .inl ⟨u, List.mem_flatMap.2 ⟨w, hw, huw⟩, (ih w hw u huw hcu).2 hrest⟩

/-! ## Subtrees of unfoldings -/

/-- The tree is the unfolding of the instance at its root. -/
def Unfolds (s : Store) (t : Tree NodeId) : Prop := s.unfolding? t.label = some t

theorem unfolds_of_unfolding? (h : s.unfolding? id = some t) : s.Unfolds t := by
  rw [Unfolds, label_of_unfolding? h, h]

theorem Unfolds.child (h : s.Unfolds t) (v : Value (Tree NodeId)) (hv : v ∈ t.values)
    (c : Tree NodeId) (hc : c ∈ v.children) : s.Unfolds c := by
  obtain ⟨n, values, hn, heq, hvalues⟩ := unfolding?_eq_some_iff.1 h
  rw [heq, Tree.values_node] at hv
  obtain ⟨_, _, x, _, hx⟩ := Value.exists_child_of_rel_right hvalues hv hc
  exact unfolds_of_unfolding? hx

/-- Every subtree of an unfolding is the unfolding of the instance at its root. -/
theorem Unfolds.subtrees (h : s.Unfolds t) : ∀ w ∈ t.subtrees, s.Unfolds w := by
  induction t using Tree.induct with
  | step id k vs ih =>
      intro w hw
      rw [Tree.subtrees_node, List.mem_append, List.mem_singleton] at hw
      rcases hw with hw | rfl
      · obtain ⟨u, hu, hwu⟩ := List.mem_flatMap.1 hw
        obtain ⟨v, hv, huv⟩ := List.mem_flatMap.1 hu
        exact ih v hv u huv (h.child v hv u huv) w hwu
      · exact h

/-- The instance at the root of an unfolding has the roots of the subtrees as children. -/
theorem Unfolds.node? (h : s.Unfolds t) :
    s.node? t.label = some ⟨t.kind, t.values.map fun v => v.map Tree.label⟩ := by
  obtain ⟨n, values, hn, heq, hvalues⟩ := unfolding?_eq_some_iff.1 h
  have hchildren : n.values = values.map fun v => v.map Tree.label :=
    Value.eq_map_iff.2 (hvalues.imp fun v w hvw => hvw.imp fun c u hu =>
      (label_of_unfolding? hu).symm)
  rw [hn, heq, Tree.kind_node, Tree.values_node, ← hchildren]

theorem kind_of_unfolding? {n : Node} (ht : s.unfolding? id = some t) (hn : s.node? id = some n) :
    t.kind = n.kind := by
  obtain ⟨m, values, hm, rfl, -⟩ := unfolding?_eq_some_iff.1 ht
  rw [hn, Option.some.injEq] at hm
  rw [hm, Tree.kind_node]

theorem Unfolds.children_eq {id : NodeId} {k : Kind} {vs : List (Value (Tree NodeId))}
    (h : s.Unfolds (.node id k vs)) :
    s.children id = (vs.flatMap Value.children).map Tree.label := by
  have hn : s.node? id = some ⟨k, vs.map fun v => v.map Tree.label⟩ := h.node?
  rw [children, hn]
  simp [Node.children, List.flatMap_map, List.map_flatMap, Value.children_map]

/-! ## Trees that nodes stand for -/

/-- The unfolding of the node is the tree, up to labels. -/
def Denotes (s : Store) (id : NodeId) (t : Tree Unit) : Prop :=
  ∃ u, s.unfolding? id = some u ∧ u.plain = t

theorem denotes_of_unfolding? (h : s.unfolding? id = some t) : s.Denotes id t.plain :=
  ⟨t, h, rfl⟩

theorem Extends.denotes (h : s.Extends s') {p : Tree Unit} (hp : s.Denotes id p) :
    s'.Denotes id p := by
  obtain ⟨u, hu, rfl⟩ := hp
  exact ⟨u, h.unfolding? hu, rfl⟩

theorem denotes_unique {p q : Tree Unit} (hp : s.Denotes id p) (hq : s.Denotes id q) : p = q := by
  obtain ⟨u, hu, rfl⟩ := hp
  obtain ⟨w, hw, rfl⟩ := hq
  rw [hu, Option.some.injEq] at hw
  rw [hw]

/-- Nodes of a valid store stand for trees that follow the schema. -/
theorem Valid.of_denotes (hs : s.Valid) {p : Tree Unit} (hp : s.Denotes id p) : p.Valid := by
  obtain ⟨u, hu, rfl⟩ := hp
  exact Tree.valid_plain (hs.unfolding? hu)

/-- A node stands for a tree if it has the kind of the root and its children stand for
the subtrees. -/
theorem denotes_node_iff {k : Kind} {ps : List (Value (Tree Unit))} :
    s.Denotes id (.node () k ps) ↔
      ∃ n, s.node? id = some n ∧ n.kind = k ∧ List.Forall₂ (Value.Rel s.Denotes) n.values ps := by
  constructor
  · rintro ⟨u, hu, hplain⟩
    obtain ⟨n, values, hn, rfl, hvalues⟩ := unfolding?_eq_some_iff.1 hu
    rw [Tree.plain_node] at hplain
    cases hplain
    refine ⟨n, hn, rfl, List.forall₂_map_right_iff.2 (hvalues.imp fun v w hvw => ?_)⟩
    exact Value.rel_map_right_iff.2 (hvw.imp fun c u hu => denotes_of_unfolding? hu)
  · rintro ⟨n, hn, rfl, hps⟩
    have hchildren : ∀ v ∈ n.values, ∀ c ∈ v.children, ∃ u, s.unfolding? c = some u := by
      intro v hv c hc
      obtain ⟨_, _, p, _, u, hu, _⟩ := Value.exists_child_of_rel hps hv hc
      exact ⟨u, hu⟩
    obtain ⟨values, hvalues⟩ := Value.exists_forall₂_rel hchildren
    refine ⟨_, unfolding?_eq_some_iff.2 ⟨n, values, hn, rfl, hvalues⟩, ?_⟩
    rw [Tree.plain_node]
    congr 1
    refine Value.rel_right_unique (R := s.Denotes) (fun c p q => denotes_unique)
      (List.forall₂_map_right_iff.2 (hvalues.imp fun v w hvw => ?_)) hps
    exact Value.rel_map_right_iff.2 (hvw.imp fun c u hu => denotes_of_unfolding? hu)

end AnswerSet.Store
