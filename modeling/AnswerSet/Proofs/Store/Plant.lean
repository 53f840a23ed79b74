import AnswerSet.Proofs.Store.Unfold
import AnswerSet.Proofs.Store.Yield
import AnswerSet.Store.Plant

/-!
# Planted trees

Planting a tree adds one instance per node and nothing else. The identities it hands
out are the next free ones in order, children before their parents, so the labels of
the planted unfolding are exactly the identities between the sizes of the store
before and after. Everything about freshness and sharing follows from this list: no
label was in the store before, and none occurs twice.
-/

namespace AnswerSet

namespace Store

variable {s s₁ s₂ : Store} {id : NodeId}

/-! ## Fresh identities -/

/-- The identities that the second store has beyond the first, in order. -/
def freshIds (s s' : Store) : List NodeId :=
  (List.range' s.size (s'.size - s.size)).map NodeId.mk

theorem mem_freshIds {x : NodeId} :
    x ∈ s.freshIds s₁ ↔ s.size ≤ x.index ∧ x.index < s₁.size := by
  simp only [freshIds, List.mem_map, List.mem_range'_1]
  constructor
  · rintro ⟨i, hi, rfl⟩
    exact ⟨hi.1, by simp only; omega⟩
  · intro hx
    exact ⟨x.index, by omega, rfl⟩

theorem nodup_freshIds : (s.freshIds s₁).Nodup :=
  List.Nodup.map (fun _ _ h => NodeId.mk.inj h) List.nodup_range'

@[simp] theorem freshIds_self (s : Store) : s.freshIds s = [] := by
  simp [freshIds]

theorem freshIds_append (h₁ : s.Extends s₁) (h₂ : s₁.Extends s₂) :
    s.freshIds s₁ ++ s₁.freshIds s₂ = s.freshIds s₂ := by
  have hle₁ := h₁.size_le
  have hle₂ := h₂.size_le
  rw [freshIds, freshIds, freshIds, ← List.map_append]
  congr 1
  have hstart : s.size + (s₁.size - s.size) = s₁.size := by omega
  have hcount : s₁.size - s.size + (s₂.size - s₁.size) = s₂.size - s.size := by omega
  rw [← hcount, ← List.range'_append_1, hstart]

theorem freshIds_alloc (s : Store) (n : Node) :
    s.freshIds ((alloc n).run s).2 = [((alloc n).run s).1] := by
  have hsize : ((alloc n).run s).2.size = s.size + 1 := Array.size_push n
  rw [freshIds, hsize]
  simp [alloc, StateT.run]

/-! ## Actions that build trees -/

section Lays

variable {α β γ δ ε : Type}

/-- Run in the store, the action only adds instances. Its answer stands for something
whose labels and contents are as specified, given the identities that are new. -/
def Lays (s : Store) (action : StateM Store β) (post : Store → β → γ → Prop)
    (spec : List NodeId → γ → Prop) : Prop :=
  ∃ c, (s.Yields action fun s' b => post s' b c) ∧ spec (s.freshIds (action.run s).2) c

theorem lays_pure {b : β} {c : γ} {post : Store → β → γ → Prop} {spec : List NodeId → γ → Prop}
    (hpost : ∀ ⦃s'⦄, s.Extends s' → post s' b c) (hspec : spec [] c) :
    s.Lays (pure b) post spec :=
  ⟨c, yields_pure hpost, (freshIds_self s).symm ▸ hspec⟩

theorem Lays.bind {x : StateM Store β} {g : β → StateM Store δ} {mid : Store → β → γ → Prop}
    {midSpec : List NodeId → γ → Prop} {post : Store → δ → ε → Prop}
    {spec : List NodeId → ε → Prop} (hx : s.Lays x mid midSpec)
    (hg : ∀ b c ids ⦃s' : Store⦄, s.Extends s' → (∀ ⦃s''⦄, s'.Extends s'' → mid s'' b c) →
      midSpec ids c → s'.Lays (g b) post fun ids' d => spec (ids ++ ids') d) :
    s.Lays (x >>= g) post spec := by
  obtain ⟨c, hyields, hmid⟩ := hx
  obtain ⟨d, hyields', hspec⟩ := hg (x.run s).1 c _ hyields.1 hyields.2 hmid
  rw [freshIds_append hyields.1 hyields'.1] at hspec
  exact ⟨d, ⟨hyields.1.trans hyields'.1, hyields'.2⟩, hspec⟩

/-- Actions over a list that each lay one thing lay these things side by side. -/
theorem Lays.mapM {f : α → StateM Store β} {post : Store → β → γ → Prop}
    {labels : γ → List NodeId} {R : α → γ → Prop} {as : List α}
    (h : ∀ a ∈ as, ∀ s, Lays s (f a) post fun ids c => ids = labels c ∧ R a c) (s : Store) :
    s.Lays (as.mapM f) (fun s' bs cs => List.Forall₂ (post s') bs cs) fun ids cs =>
      ids = cs.flatMap labels ∧ List.Forall₂ R as cs := by
  induction as generalizing s with
  | nil => exact lays_pure (c := []) (fun _ _ => .nil) ⟨rfl, .nil⟩
  | cons a as ih =>
      rw [List.mapM_cons]
      refine (h a List.mem_cons_self s).bind fun b c ids s₁ _ hpost ⟨hids, hac⟩ => ?_
      have hrest := ih (fun a' ha' => h a' (List.mem_cons_of_mem a ha')) s₁
      refine hrest.bind fun bs cs ids' s₂ hs₂ hpost' ⟨hids', hcs⟩ => ?_
      refine lays_pure (c := c :: cs) (fun s' hs' => ?_) ⟨by simp [hids, hids'], .cons hac hcs⟩
      exact .cons (hpost (hs₂.trans hs')) (hpost' hs')

/-- An action over the children of a value that lays one thing for each child. -/
theorem Lays.valueMapM {f : α → StateM Store β} {post : Store → β → γ → Prop}
    {labels : γ → List NodeId} {R : α → γ → Prop} {v : Value α}
    (h : ∀ a ∈ v.children, ∀ s, Lays s (f a) post fun ids c => ids = labels c ∧ R a c)
    (s : Store) :
    s.Lays (v.mapM f) (fun s' w x => Value.Rel (post s') w x) fun ids x =>
      ids = x.children.flatMap labels ∧ Value.Rel R v x := by
  cases v with
  | node a =>
      refine (h a (by simp [Value.children]) s).bind fun b c ids s₁ _ hpost ⟨hids, hac⟩ => ?_
      exact lays_pure (c := .node c) (fun s' hs' => .node (hpost hs'))
        ⟨by simp [Value.children, hids], .node hac⟩
  | optional child =>
      cases child with
      | none => exact lays_pure (c := .optional none) (fun _ _ => .absent) ⟨rfl, .absent⟩
      | some a =>
          refine (h a (by simp [Value.children]) s).bind fun b c ids s₁ _ hpost ⟨hids, hac⟩ => ?_
          exact lays_pure (c := .optional (some c)) (fun s' hs' => .present (hpost hs'))
            ⟨by simp [Value.children, hids], .present hac⟩
  | nodes as =>
      have hitems : ∀ a ∈ as, ∀ s, Lays s (f a) post fun ids c => ids = labels c ∧ R a c := h
      refine (Lays.mapM hitems s).bind fun bs cs ids s₁ _ hpost ⟨hids, hcs⟩ => ?_
      exact lays_pure (c := .nodes cs) (fun s' hs' => .nodes (hpost hs'))
        ⟨by simp [Value.children, hids], .nodes hcs⟩
  | int n => exact lays_pure (c := .int n) (fun _ _ => .int n) ⟨rfl, .int n⟩
  | symbol a => exact lays_pure (c := .symbol a) (fun _ _ => .symbol a) ⟨rfl, .symbol a⟩
  | location l => exact lays_pure (c := .location l) (fun _ _ => .location l) ⟨rfl, .location l⟩
  | text a => exact lays_pure (c := .text a) (fun _ _ => .text a) ⟨rfl, .text a⟩
  | texts items => exact lays_pure (c := .texts items) (fun _ _ => .texts items) ⟨rfl, .texts items⟩

end Lays

end Store

/-! ## Planting -/

namespace Tree

variable {α : Type} {s : Store}

theorem plant_node (l : α) (k : Kind) (vs : List (Value (Tree α))) :
    (node l k vs).plant =
      vs.mapM (Value.mapM plant) >>= fun values => Store.alloc ⟨k, values⟩ := by
  rw [plant, fold_node, List.mapM_map]
  simp only [Function.comp_def, Value.mapM_map]

/-- Planting a tree lays an unfolding that is the tree up to labels. -/
theorem lays_plant (t : Tree α) (s : Store) :
    s.Lays t.plant (fun s' id u => s'.unfolding? id = some u) fun ids u =>
      ids = u.labels ∧ t.plain = u.plain := by
  induction t using Tree.induct generalizing s with
  | step l k vs ih =>
      rw [plant_node]
      have hvalues := Store.Lays.mapM (fun v hv s =>
        Store.Lays.valueMapM (fun t ht s => ih v hv t ht s) s) s
      refine hvalues.bind fun values ws ids s₁ _ hpost ⟨hids, hws⟩ => ?_
      refine ⟨.node ((Store.alloc ⟨k, values⟩).run s₁).1 k ws, ?_, ?_, ?_⟩
      · refine ⟨.alloc s₁ ⟨k, values⟩, fun s' hs' => ?_⟩
        exact Store.unfolding?_eq_some_iff.2 ⟨⟨k, values⟩, ws,
          hs' (Store.node?_alloc_self s₁ _), rfl, hpost ((Store.Extends.alloc s₁ _).trans hs')⟩
      · rw [Store.freshIds_alloc, labels_node, hids, List.flatMap_assoc]
      · exact plain_eq_of_rel hws

/-- The planted instance unfolds to the tree, its instances are the fresh ones, each
once, and no other instance has changed. -/
theorem plant_unfolds (t : Tree α) (s : Store) :
    ∃ u, (t.plant.run s).2.unfolding? (t.plant.run s).1 = some u ∧ u.plain = t.plain ∧
      u.labels = s.freshIds (t.plant.run s).2 ∧ s.Extends (t.plant.run s).2 := by
  obtain ⟨u, hyields, hlabels, hplain⟩ := lays_plant t s
  exact ⟨u, hyields.2 (.refl _), hplain.symm, hlabels.symm, hyields.1⟩

end Tree

end AnswerSet
