import AnswerSet.Proofs.Schema
import AnswerSet.Tree.Basic

/-!
# Labels and schemas of trees

Two nodes stand for the same thing if their unfoldings agree up to labels: `plain`
forgets the labels and keeps everything else, locations included. `labels` lists
them, one for each occurrence of a node, children before their parents.

A tree is valid if every node in it follows the schema of its kind.
-/

namespace AnswerSet.Tree

variable {α β : Type}

/-! ## Forgetting labels -/

theorem map_node (f : α → β) (l : α) (k : Kind) (vs : List (Value (Tree α))) :
    (node l k vs).map f = .node (f l) k (vs.map fun v => v.map (Tree.map f)) :=
  fold_node _ l k vs

@[simp] theorem label_map (f : α → β) (t : Tree α) : (t.map f).label = f t.label := by
  cases t with
  | node l k vs => rw [map_node]; rfl

@[simp] theorem kind_map (f : α → β) (t : Tree α) : (t.map f).kind = t.kind := by
  cases t with
  | node l k vs => rw [map_node]; rfl

/-- The tree without its labels. -/
def plain (t : Tree α) : Tree Unit := t.map fun _ => ()

theorem plain_node (l : α) (k : Kind) (vs : List (Value (Tree α))) :
    (node l k vs).plain = .node () k (vs.map fun v => v.map plain) :=
  map_node _ l k vs

@[simp] theorem kind_plain (t : Tree α) : t.plain.kind = t.kind := kind_map _ t

/-- Trees agree up to labels when their roots do and their children agree. -/
theorem plain_eq_of_rel {l : α} {m : β} {k : Kind} {vs : List (Value (Tree α))}
    {ws : List (Value (Tree β))}
    (h : List.Forall₂ (Value.Rel fun t u => t.plain = u.plain) vs ws) :
    (node l k vs).plain = (node m k ws).plain := by
  rw [plain_node, plain_node, Value.map_eq_map_iff.2 h]

/-- A fold that does not look at labels does not see them replaced. -/
theorem fold_map {γ : Type} (f : α → γ) (rule : Kind → List (Value β) → β) (t : Tree α) :
    (t.map f).fold (fun _ => rule) = t.fold fun _ => rule := by
  induction t using induct with
  | step l k vs ih =>
      rw [map_node, fold_node, fold_node, List.map_map]
      congr 1
      refine List.map_congr_left fun v hv => ?_
      exact (Value.map_map _ _ v).trans (Value.map_congr fun t ht => ih v hv t ht)

theorem fold_plain (rule : Kind → List (Value β) → β) (t : Tree α) :
    t.plain.fold (fun _ => rule) = t.fold fun _ => rule :=
  fold_map _ rule t

@[simp] theorem plain_plain (t : Tree α) : t.plain.plain = t.plain :=
  fold_plain (Tree.node ()) t

/-- A tree that has no labels is plain. -/
theorem plain_eq_self (t : Tree Unit) : t.plain = t := by
  induction t using induct with
  | step l k vs ih =>
      have hvs : vs.map (fun v => v.map plain) = vs := by
        conv_rhs => rw [← List.map_id vs]
        refine List.map_congr_left fun v hv => ?_
        have hv' : v.map plain = v.map id := Value.map_congr fun t ht => ih v hv t ht
        rw [hv', Value.map_id, id]
      rw [plain_node, hvs]

/-! ## Listing labels -/

/-- The labels of all occurrences, children before their parents. -/
def labels : Tree α → List α :=
  fold fun l _ vs => (vs.flatMap Value.children).flatten ++ [l]

theorem labels_node (l : α) (k : Kind) (vs : List (Value (Tree α))) :
    (node l k vs).labels = (vs.flatMap Value.children).flatMap labels ++ [l] := by
  rw [labels, fold_node]
  simp only [List.flatMap_map, Value.children_map, ← List.map_flatMap]
  rfl

/-! ## Subtrees -/

/-- Children without the answers that were paired with them. -/
theorem map_fst_map (f : Tree α → β) (vs : List (Value (Tree α))) :
    ((vs.map fun v => v.map fun t => (t, f t)).map fun v => v.map Prod.fst) = vs := by
  rw [List.map_map]
  refine (List.map_congr_left fun v _ => ?_).trans (List.map_id vs)
  exact (Value.map_map _ _ v).trans (Value.map_id v)

/-- The subtrees at all occurrences, children before their parents. -/
def subtrees : Tree α → List (Tree α) :=
  elim fun l k vs => (vs.flatMap Value.children).flatMap Prod.snd ++
    [.node l k (vs.map fun v => v.map Prod.fst)]

theorem subtrees_node (l : α) (k : Kind) (vs : List (Value (Tree α))) :
    (node l k vs).subtrees = (vs.flatMap Value.children).flatMap subtrees ++ [.node l k vs] := by
  have hchildren : ((vs.map fun v => v.map fun t => (t, t.subtrees)).flatMap
      Value.children).flatMap Prod.snd = (vs.flatMap Value.children).flatMap subtrees := by
    simp only [List.flatMap_map, Value.children_map, ← List.map_flatMap]
  rw [subtrees, elim_node]
  exact congrArg₂ (fun below values => below ++ [node l k values]) hchildren (map_fst_map _ vs)

theorem self_mem_subtrees (t : Tree α) : t ∈ t.subtrees := by
  cases t with
  | node l k vs => rw [subtrees_node]; simp

theorem mem_subtrees_of_child {l : α} {k : Kind} {vs : List (Value (Tree α))}
    {v : Value (Tree α)} (hv : v ∈ vs) {t : Tree α} (ht : t ∈ v.children) {u : Tree α}
    (hu : u ∈ t.subtrees) : u ∈ (node l k vs).subtrees := by
  rw [subtrees_node]
  refine List.mem_append_left _ (List.mem_flatMap.2 ⟨t, ?_, hu⟩)
  exact List.mem_flatMap.2 ⟨v, hv, ht⟩

/-- Every node follows the schema of its kind. -/
def Valid : Tree α → Prop :=
  elim fun _ k vs => k.Admits vs ∧ ∀ v ∈ vs, ∀ child ∈ v.children, child.2

theorem valid_node_iff {l : α} {k : Kind} {vs : List (Value (Tree α))} :
    (node l k vs).Valid ↔ k.Admits vs ∧ ∀ v ∈ vs, ∀ t ∈ v.children, t.Valid := by
  rw [Valid, elim_node, Kind.admits_map_iff]
  refine and_congr_right fun _ => ⟨fun h v hv t ht => ?_, fun h v hv child hchild => ?_⟩
  · exact h _ (List.mem_map_of_mem hv) (t, _) (by
      rw [Value.children_map]
      exact List.mem_map_of_mem ht)
  · obtain ⟨w, hw, rfl⟩ := List.mem_map.1 hv
    rw [Value.children_map] at hchild
    obtain ⟨t, ht, rfl⟩ := List.mem_map.1 hchild
    exact h w hw t ht

/-- What is below a valid tree is valid. -/
theorem Valid.of_mem_subtrees {t w : Tree α} (ht : t.Valid) (hw : w ∈ t.subtrees) : w.Valid := by
  induction t using induct with
  | step l k vs ih =>
      rw [subtrees_node, List.mem_append, List.mem_singleton] at hw
      rcases hw with hw | rfl
      · obtain ⟨t, hmem, hw⟩ := List.mem_flatMap.1 hw
        obtain ⟨v, hv, htv⟩ := List.mem_flatMap.1 hmem
        exact ih v hv t htv ((valid_node_iff.1 ht).2 v hv t htv) hw
      · exact ht

theorem valid_plain {t : Tree α} (ht : t.Valid) : t.plain.Valid := by
  induction t using induct with
  | step l k vs ih =>
      obtain ⟨hadmits, hvalid⟩ := valid_node_iff.1 ht
      rw [plain_node]
      refine valid_node_iff.2 ⟨Kind.admits_map_iff.2 hadmits, ?_⟩
      simp only [List.forall_mem_map, Value.children_map]
      exact fun v hv t ht => ih v hv t ht (hvalid v hv t ht)

end AnswerSet.Tree
