import AnswerSet.Proofs.Store.Order
import AnswerSet.Proofs.Store.Unchecked

/-!
# Stores that grow

A store grows if instances are added to it whose children are there already. Nothing that
was there before can then reach a new instance, so a store that is well-formed stays so
however much it grows.

`Growth` is the logic for actions that do nothing else. A postcondition speaks about the
store after the action and stays true in later ones, which also hold the nodes that the
action has answered with. An action that puts such nodes into a new instance lets the store
grow once more.
-/

namespace AnswerSet

/-! ## Adding instances -/

namespace Store

variable {s s' s'' : Store} {x y : NodeId}

instance : Decidable (s.Holds x) := inferInstanceAs (Decidable ((s.node? x).isSome = true))

theorem Extends.holds (h : s.Extends s') (hx : s.Holds x) : s'.Holds x := by
  obtain ⟨n, hn⟩ := Option.isSome_iff_exists.1 hx
  exact Option.isSome_of_eq_some (h hn)

/-- What was there before has the children that it had. -/
theorem Extends.child_iff_of_holds (h : s.Extends s') (hx : s.Holds x) :
    s'.Child x y ↔ s.Child x y := by
  obtain ⟨n, hn⟩ := Option.isSome_iff_exists.1 hx
  simp [child_iff, hn, h hn]

/-- What was there before reaches only what it reached. -/
theorem Extends.reaches_of_holds (h : s.Extends s') (hclosed : s.Closed) (hx : s.Holds x)
    (hreach : s'.Reaches x y) : s.Reaches x y ∧ s.Holds y := by
  induction hreach with
  | refl => exact ⟨.refl, hx⟩
  | tail _ hchild ih =>
      have hchild := (h.child_iff_of_holds ih.2).1 hchild
      obtain ⟨n, hn, hmem⟩ := child_iff.1 hchild
      exact ⟨ih.1.tail hchild, hclosed hn _ hmem⟩

/-- One instance is added. It follows the schema, and its children are there. -/
inductive Adds (s : Store) : Store → Prop where
  | intro {n : Node} (hn : n.Valid) (hchildren : ∀ c ∈ n.children, s.Holds c) :
      Adds s ((alloc n).run s).2

theorem Adds.closed (h : s.Adds s') (hs : s.Closed) : s'.Closed := by
  obtain ⟨-, hchildren⟩ := h
  intro x m hm c hc
  refine (Extends.alloc s _).holds ?_
  rw [node?_alloc] at hm
  split at hm
  · cases hm
    exact hchildren c hc
  · exact hs hm c hc

/-- A cycle would lead from the new instance to one that was there and back again. -/
theorem Adds.acyclic (h : s.Adds s') (hclosed : s.Closed) (hs : s.Acyclic) : s'.Acyclic := by
  obtain ⟨-, hchildren⟩ := h
  intro x hcycle
  have hextends := Extends.alloc s ‹Node›
  obtain ⟨c, hchild, hback⟩ := Relation.TransGen.head'_iff.1 hcycle
  by_cases hx : s.Holds x
  · have hchild := (hextends.child_iff_of_holds hx).1 hchild
    obtain ⟨m, hm, hmem⟩ := child_iff.1 hchild
    have hback := (hextends.reaches_of_holds hclosed (hclosed hm c hmem) hback).1
    exact hs x (Relation.TransGen.head' hchild hback)
  · obtain ⟨m, hm, hmem⟩ := child_iff.1 hchild
    rw [node?_alloc] at hm
    split at hm
    · cases hm
      exact hx (hextends.reaches_of_holds hclosed (hchildren c hmem) hback).2
    · exact hx (Option.isSome_of_eq_some hm)

theorem Adds.wellFormed (h : s.Adds s') (hs : s.WellFormed) : s'.WellFormed where
  valid := by
    obtain ⟨hn, -⟩ := h
    exact (Evolves.alloc s hn).valid hs.valid
  closed := h.closed hs.closed
  acyclic := h.acyclic hs.closed hs.acyclic

/-- The second store arises from the first by adding instances one after the other. -/
def Grows : Store → Store → Prop := Relation.ReflTransGen Adds

namespace Grows

theorem refl (s : Store) : s.Grows s := Relation.ReflTransGen.refl

theorem trans (h : s.Grows s') (h' : s'.Grows s'') : s.Grows s'' :=
  Relation.ReflTransGen.trans h h'

theorem alloc {n : Node} (hn : n.Valid) (hchildren : ∀ c ∈ n.children, s.Holds c) :
    s.Grows ((Store.alloc n).run s).2 :=
  Relation.ReflTransGen.single ⟨hn, hchildren⟩

theorem store_extends (h : s.Grows s') : s.Extends s' := by
  induction h with
  | refl => exact .refl s
  | tail _ hadds ih =>
      obtain ⟨-, -⟩ := hadds
      exact ih.trans (.alloc _ _)

theorem wellFormed (h : s.Grows s') (hs : s.WellFormed) : s'.WellFormed := by
  induction h with
  | refl => exact hs
  | tail _ hadds ih => exact hadds.wellFormed ih

end Grows

end Store

/-! ## Actions that let the store grow -/

/-- Postconditions of the actions of a monad that add instances to a store at most. They are
relative to a base store, whose instances are there when the action runs, and they hold in
every store that extends the one after the action. -/
structure Growth (m : Type → Type) [Monad m] where
  Holds {α : Type} : Store → m α → (Store → α → Prop) → Prop
  holds_pure {α : Type} {base : Store} {a : α} {post : Store → α → Prop}
    (h : ∀ s, base.Extends s → post s a) : Holds base (pure a) post
  holds_bind {α β : Type} {base : Store} {x : m α} {f : α → m β} {mid : Store → α → Prop}
    {post : Store → β → Prop} (hx : Holds base x mid)
    (hf : ∀ a s, base.Extends s → (∀ s', s.Extends s' → mid s' a) → Holds s (f a) post) :
    Holds base (x >>= f) post
  holds_later {α : Type} {base s : Store} {x : m α} {post : Store → α → Prop}
    (hs : base.Extends s) (h : Holds base x post) : Holds s x post

namespace Growth

variable {m : Type → Type} [Monad m] [LawfulMonad m] (G : Growth m) {α β : Type} {base : Store}

theorem holds_imp {x : m α} {mid post : Store → α → Prop} (hx : G.Holds base x mid)
    (h : ∀ a s, base.Extends s → mid s a → post s a) : G.Holds base x post := by
  rw [← bind_pure x]
  refine G.holds_bind hx fun a s₁ hs₁ hmid => G.holds_pure fun s hs => ?_
  exact h a s (hs₁.trans hs) (hmid s hs)

/-- Actions over a list relate every member to its answer. -/
theorem holds_mapM {f : α → m β} {R : Store → α → β → Prop} {as : List α}
    (h : ∀ a ∈ as, G.Holds base (f a) fun s b => R s a b) :
    G.Holds base (as.mapM f) fun s bs => List.Forall₂ (R s) as bs := by
  induction as generalizing base with
  | nil => exact G.holds_pure fun _ _ => .nil
  | cons a as ih =>
      rw [List.mapM_cons]
      refine G.holds_bind (h a List.mem_cons_self) fun b s₁ hs₁ hb => ?_
      have hrest := ih fun a' ha' => G.holds_later hs₁ (h a' (List.mem_cons_of_mem a ha'))
      refine G.holds_bind hrest fun bs s₂ hs₂ hbs => G.holds_pure fun s₃ hs₃ => ?_
      exact .cons (hb s₃ (hs₂.trans hs₃)) (hbs s₃ hs₃)

/-- An action over the children of a value relates every child to its answer. -/
theorem holds_valueMapM {f : α → m β} {R : Store → α → β → Prop} {v : Value α}
    (h : ∀ a ∈ v.children, G.Holds base (f a) fun s b => R s a b) :
    G.Holds base (v.mapM f) fun s w => Value.Rel (R s) v w := by
  cases v with
  | node a =>
      refine G.holds_bind (h a (by simp [Value.children])) fun b _ _ hb => ?_
      exact G.holds_pure fun s hs => .node (hb s hs)
  | optional child =>
      cases child with
      | none => exact G.holds_pure fun _ _ => .absent
      | some a =>
          refine G.holds_bind (h a (by simp [Value.children])) fun b _ _ hb => ?_
          exact G.holds_pure fun s hs => .present (hb s hs)
  | nodes as =>
      refine G.holds_bind (G.holds_mapM h) fun bs _ _ hbs => ?_
      exact G.holds_pure fun s hs => .nodes (hbs s hs)
  | int n => exact G.holds_pure fun _ _ => .int n
  | symbol a => exact G.holds_pure fun _ _ => .symbol a
  | location l => exact G.holds_pure fun _ _ => .location l
  | text a => exact G.holds_pure fun _ _ => .text a
  | texts items => exact G.holds_pure fun _ _ => .texts items

/-- An action that answers nodes for all children of a node keeps its values in the schema,
and the new children are there. -/
theorem holds_values {f : α → m NodeId} {k : Kind} {vs : List (Value α)} (hvs : k.Admits vs)
    (h : ∀ v ∈ vs, ∀ a ∈ v.children, G.Holds base (f a) fun s b => s.Holds b) :
    G.Holds base (vs.mapM (Value.mapM f)) fun s ws =>
      k.Admits ws ∧ ∀ c ∈ (⟨k, ws⟩ : Node).children, s.Holds c := by
  have hvalues : G.Holds base (vs.mapM (Value.mapM f)) fun s ws =>
      List.Forall₂ (Value.Rel fun _ b => s.Holds b) vs ws :=
    G.holds_mapM fun v hv => G.holds_valueMapM fun a ha => h v hv a ha
  refine G.holds_imp hvalues fun ws s _ hws => ⟨hvs.of_rel hws, fun c hc => ?_⟩
  obtain ⟨w, hw, hcw⟩ := Store.mem_children_iff.1 hc
  obtain ⟨_, _, _, _, hheld⟩ := Value.exists_child_of_rel_right hws hw hcw
  exact hheld

end Growth

/-- Run where the instances of the base are, the action lets the store grow. -/
def Store.growth : Growth (StateM Store) where
  Holds base action post := ∀ s, base.Extends s →
    s.Grows (action.run s).2 ∧ ∀ s', (action.run s).2.Extends s' → post s' (action.run s).1
  holds_pure h s hs := ⟨.refl s, fun s' hs' => h s' (hs.trans hs')⟩
  holds_bind hx hf s hs := by
    obtain ⟨hgrows, hmid⟩ := hx s hs
    obtain ⟨hgrows', hpost⟩ := hf _ _ (hs.trans hgrows.store_extends) hmid _ (.refl _)
    exact ⟨hgrows.trans hgrows', hpost⟩
  holds_later hs h s' hs' := h s' (hs.trans hs')

theorem Store.growth_alloc {base : Store} {n : Node} (hn : n.Valid)
    (hchildren : ∀ c ∈ n.children, base.Holds c) :
    growth.Holds base (alloc n) fun s id => s.node? id = some n :=
  fun s hs => ⟨.alloc hn fun c hc => hs.holds (hchildren c hc), fun _ hs' =>
    hs' (node?_alloc_self s n)⟩

/-- Planting a tree that follows the schema lets the store grow. -/
theorem Tree.growth_plant {α : Type} {t : Tree α} (ht : t.Valid) (base : Store) :
    Store.growth.Holds base t.plant fun s id => s.Holds id := by
  induction t using induct generalizing base with
  | step l k vs ih =>
      obtain ⟨hadmits, hchildren⟩ := valid_node_iff.1 ht
      rw [plant_node]
      refine Store.growth.holds_bind (Store.growth.holds_values hadmits fun v hv t htv =>
        ih v hv t htv (hchildren v hv t htv) base) fun values s _ hvalues => ?_
      obtain ⟨hvalid, hheld⟩ := hvalues s (.refl s)
      exact Store.growth.holds_imp (Store.growth_alloc (n := ⟨k, values⟩) hvalid hheld)
        fun id s' _ hid => Option.isSome_of_eq_some hid

end AnswerSet
