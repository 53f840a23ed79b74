import AnswerSet.Proofs.Schema
import Mathlib.Data.Finset.Card
import Mathlib.Logic.Relation

/-!
# Reachability in a store

The children of its instances make a store a directed graph. Well-formed stores are
those of a program that holds no dangling identity and has built no cycle: every
instance follows the schema, every child is in the store, and nothing lies below
itself.

An instance is grounded if every path below it ends. In a well-formed store all
instances are. A grounded instance does not lie below itself, and the number of
instances below it drops from parent to child, which bounds the depth of the paths
by the size of the store.

A store extends another if it holds all its instances unchanged.
-/

namespace AnswerSet.Store

variable {s s' s'' : Store} {id child : NodeId} {n : Node}

/-! ## The graph -/

/-- One instance is a direct child of another. -/
def Child (s : Store) (parent child : NodeId) : Prop := child ∈ s.children parent

/-- One instance lies strictly below another. -/
def Above (s : Store) : NodeId → NodeId → Prop := Relation.TransGen s.Child

/-- One instance is another or lies below it. -/
def Reaches (s : Store) : NodeId → NodeId → Prop := Relation.ReflTransGen s.Child

/-- Nothing lies below itself. -/
def Acyclic (s : Store) : Prop := ∀ id, ¬ s.Above id id

/-- Every child of an instance is in the store. -/
def Closed (s : Store) : Prop :=
  ∀ ⦃id n⦄, s.node? id = some n → ∀ child ∈ n.children, (s.node? child).isSome

/-- A store in which every instance follows the schema and unfolds into a tree. -/
structure WellFormed (s : Store) : Prop where
  valid : s.Valid
  closed : s.Closed
  acyclic : s.Acyclic

theorem child_iff : s.Child id child ↔ ∃ n, s.node? id = some n ∧ child ∈ n.children := by
  cases h : s.node? id <;> simp [Child, children, h]

theorem node?_eq_none_iff : s.node? id = none ↔ s.size ≤ id.index :=
  Array.getElem?_eq_none_iff

theorem index_lt_of_node? (h : s.node? id = some n) : id.index < s.size :=
  (Array.getElem?_eq_some_iff.1 h).1

/-! ## Grounded instances -/

/-- Every path below the instance ends inside the store. -/
inductive Grounded (s : Store) : NodeId → Prop where
  | intro {id : NodeId} {n : Node} (hn : s.node? id = some n)
      (hchildren : ∀ child ∈ n.children, Grounded s child) : Grounded s id

namespace Grounded

theorem exists_node (h : s.Grounded id) : ∃ n, s.node? id = some n := by
  cases h with
  | intro hn _ => exact ⟨_, hn⟩

theorem of_child (h : s.Grounded id) (hchild : s.Child id child) : s.Grounded child := by
  cases h with
  | intro hn hchildren =>
      obtain ⟨m, hm, hmem⟩ := child_iff.1 hchild
      rw [hn, Option.some.injEq] at hm
      subst hm
      exact hchildren _ hmem

theorem of_reaches {x : NodeId} (h : s.Grounded id) (hreach : s.Reaches id x) :
    s.Grounded x := by
  induction hreach with
  | refl => exact h
  | tail _ hchild ih => exact ih.of_child hchild

-- A cycle through the instance would pass through one of its children.
theorem not_above_self (h : s.Grounded id) : ¬ s.Above id id := by
  induction h with
  | @intro id n hn _ ih =>
      intro hcycle
      obtain ⟨child, hchild, hback⟩ := Relation.TransGen.head'_iff.1 hcycle
      obtain ⟨m, hm, hmem⟩ := child_iff.1 hchild
      rw [hn, Option.some.injEq] at hm
      subst hm
      exact ih child hmem (Relation.TransGen.tail' hback hchild)

end Grounded

open Classical in
/-- The number of instances strictly below an instance. -/
noncomputable def countBelow (s : Store) (id : NodeId) : Nat :=
  ((Finset.range s.size).filter fun i => s.Above id ⟨i⟩).card

open Classical in
theorem countBelow_lt_size (hn : s.node? id = some n) (hself : ¬ s.Above id id) :
    s.countBelow id < s.size := by
  have hid : id.index ∈ Finset.range s.size := Finset.mem_range.2 (index_lt_of_node? hn)
  have hstrict := Finset.card_lt_card
    ((Finset.filter_ssubset (p := fun i => s.Above id ⟨i⟩)).2 ⟨id.index, hid, hself⟩)
  rwa [Finset.card_range] at hstrict

open Classical in
theorem countBelow_lt_of_child {m : Node} (hchild : s.Child id child)
    (hm : s.node? child = some m) (hself : ¬ s.Above child child) :
    s.countBelow child < s.countBelow id := by
  refine Finset.card_lt_card (Finset.ssubset_iff_of_subset ?_ |>.2 ⟨child.index, ?_, ?_⟩)
  · intro i hi
    rw [Finset.mem_filter] at hi ⊢
    exact ⟨hi.1, Relation.TransGen.head hchild hi.2⟩
  · rw [Finset.mem_filter, Finset.mem_range]
    exact ⟨index_lt_of_node? hm, Relation.TransGen.single hchild⟩
  · rw [Finset.mem_filter]
    exact fun h => hself h.2

/-- In a store without dangling identities and cycles every path ends. -/
theorem Closed.grounded (hclosed : s.Closed) (hacyclic : s.Acyclic) (hn : s.node? id = some n) :
    s.Grounded id := by
  -- The number of instances below drops from parent to child.
  induction hcount : s.countBelow id using Nat.strongRecOn generalizing id n with
  | ind count ih =>
      refine .intro hn fun child hmem => ?_
      have hchild : s.Child id child := child_iff.2 ⟨n, hn, hmem⟩
      obtain ⟨m, hm⟩ := Option.isSome_iff_exists.1 (hclosed hn child hmem)
      have hdrop := countBelow_lt_of_child hchild hm (hacyclic child)
      exact ih (s.countBelow child) (hcount ▸ hdrop) hm rfl

theorem WellFormed.grounded (h : s.WellFormed) (hn : s.node? id = some n) : s.Grounded id :=
  h.closed.grounded h.acyclic hn

/-! ## Extension -/

/-- The second store holds all instances of the first unchanged. -/
def Extends (s s' : Store) : Prop :=
  ∀ ⦃id n⦄, s.node? id = some n → s'.node? id = some n

namespace Extends

theorem refl (s : Store) : s.Extends s := fun _ _ h => h

theorem trans (h : s.Extends s') (h' : s'.Extends s'') : s.Extends s'' :=
  fun _ _ hn => h' (h hn)

theorem size_le (h : s.Extends s') : s.size ≤ s'.size := by
  rcases Nat.lt_or_ge s'.size s.size with hlt | hle
  · have hn : s.node? ⟨s'.size⟩ = some s.nodes[s'.size] := Array.getElem?_eq_getElem hlt
    exact absurd (index_lt_of_node? (h hn)) (Nat.lt_irrefl _)
  · exact hle

theorem alloc (s : Store) (n : Node) : s.Extends ((Store.alloc n).run s).2 :=
  fun _ _ h => node?_alloc_of_some n h

theorem grounded (h : s.Extends s') (hid : s.Grounded id) : s'.Grounded id := by
  induction hid with
  | intro hn _ ih => exact .intro (h hn) ih

end Extends

/-! ## Stores in order of construction -/

/-- Every instance follows the schema and refers to older instances only. -/
def inOrder (s : Store) : Bool :=
  (List.range s.size).all fun i =>
    (s.node? ⟨i⟩).any fun n =>
      (n.kind.check n.values).isOk && n.children.all fun child => child.index < i

theorem inOrder_iff :
    s.inOrder = true ↔ ∀ ⦃id n⦄, s.node? id = some n →
      n.Valid ∧ ∀ child ∈ n.children, child.index < id.index := by
  have hcheck (n : Node) : (n.kind.check n.values).isOk = true ↔ n.Valid := by
    rw [Node.Valid, ← Kind.check_eq_ok_iff]
    cases n.kind.check n.values <;> simp [Except.isOk, Except.toBool]
  simp only [inOrder, List.all_eq_true, List.mem_range, Option.any_eq_true, Bool.and_eq_true,
    hcheck, decide_eq_true_eq]
  constructor
  · intro h id n hn
    obtain ⟨m, hm, hvalid, hchildren⟩ := h id.index (index_lt_of_node? hn)
    rw [hn, Option.some.injEq] at hm
    exact hm ▸ ⟨hvalid, hchildren⟩
  · intro h i hi
    have hn : s.node? ⟨i⟩ = some s.nodes[i] := Array.getElem?_eq_getElem hi
    exact ⟨_, hn, h hn⟩

/-- References to older instances only make neither cycles nor dangling identities. -/
theorem WellFormed.of_inOrder (h : s.inOrder = true) : s.WellFormed := by
  rw [inOrder_iff] at h
  have hdrop {a b : NodeId} (hab : s.Above a b) : b.index < a.index := by
    induction hab with
    | single hchild =>
        obtain ⟨n, hn, hmem⟩ := child_iff.1 hchild
        exact (h hn).2 _ hmem
    | tail _ hchild ih =>
        obtain ⟨n, hn, hmem⟩ := child_iff.1 hchild
        exact Nat.lt_trans ((h hn).2 _ hmem) ih
  refine ⟨fun id n hn => (h hn).1, fun id n hn child hmem => ?_, fun id hself => ?_⟩
  · have hlt := Nat.lt_trans ((h hn).2 child hmem) (index_lt_of_node? hn)
    exact Option.isSome_iff_ne_none.2 fun hnone => absurd (node?_eq_none_iff.1 hnone) (by omega)
  · exact Nat.lt_irrefl _ (hdrop hself)

/-- A store with the term `f((1;2))`, its pool and the two numbers below it. -/
def pooledTerm : Store :=
  ⟨#[⟨.symbolicTerm, [.location .default, .symbol (.number 1)]⟩,
     ⟨.symbolicTerm, [.location .default, .symbol (.number 2)]⟩,
     ⟨.pool, [.location .default, .nodes [⟨0⟩, ⟨1⟩]]⟩,
     ⟨.function, [.location .default, .text "f", .nodes [⟨2⟩], .int 0]⟩]⟩

/-- A store with the term `f(1,1)`, whose arguments are one instance. -/
def sharedTerm : Store :=
  ⟨#[⟨.symbolicTerm, [.location .default, .symbol (.number 1)]⟩,
     ⟨.function, [.location .default, .text "f", .nodes [⟨0⟩, ⟨0⟩], .int 0]⟩]⟩

end AnswerSet.Store
