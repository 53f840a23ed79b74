import AnswerSet.Proofs.Pool.Alternatives

/-!
# Alternatives slot by slot

A node that is rebuilt for every choice in its slots has one factor for each slot: the
alternatives of a child, or the choices of segments for the items of a list. These are the
equations of `Tree.alternatives` in terms of trees alone, without the answers for children
that the definition pairs with them.
-/

namespace AnswerSet

/-- All alternatives of the item stand side by side in a list. -/
def Spliced {α : Type} (k : Kind) (a : Attr) (item : Tree α) : Prop :=
  (a = .elements ∧ k.collects = true) ∨ item.kind = .conditionalLiteral

instance {α : Type} (k : Kind) (a : Attr) (item : Tree α) : Decidable (Spliced k a item) :=
  inferInstanceAs (Decidable (_ ∨ _))

namespace Tree

/-- The segments that a tree offers to a list. -/
def segments (regions : Regions) (k : Kind) (a : Attr) (enabled : Bool) (item : Tree Unit) :
    List (List (Tree Unit)) :=
  if Spliced k a item then [item.alternatives regions enabled]
  else (item.alternatives regions enabled).map fun t => [t]

/-- The alternatives of the value in a slot. -/
def slotAlternatives (regions : Regions) (k : Kind) (enabled : Bool) (a : Attr)
    (v : Value (Tree Unit)) : List (Value (Tree Unit)) :=
  valueAlternatives k a (regions.below k a enabled) (v.map fun t => (t, t.alternatives regions))

section Equations

variable (regions : Regions) (k : Kind) (enabled : Bool) (a : Attr)

theorem slotAlternatives_node (t : Tree Unit) :
    slotAlternatives regions k enabled a (.node t) =
      (t.alternatives regions (regions.below k a enabled)).map .node := rfl

theorem slotAlternatives_some (t : Tree Unit) :
    slotAlternatives regions k enabled a (.optional (some t)) =
      (t.alternatives regions (regions.below k a enabled)).map fun u => .optional (some u) := rfl

theorem slotAlternatives_nodes (ts : List (Tree Unit)) :
    slotAlternatives regions k enabled a (.nodes ts) =
      ((product (ts.map (segments regions k a (regions.below k a enabled)))).map
        List.flatten).map .nodes := by
  simp only [slotAlternatives, valueAlternatives, Value.map, List.map_map]
  rfl

/-- A node that is no pool to be expanded is rebuilt for every choice in its slots. -/
theorem alternatives_of_not_pool (vs : List (Value (Tree Unit)))
    (h : ¬ (enabled = true ∧ k = .pool)) :
    (node () k vs).alternatives regions enabled =
      (product ((k.attrs.zip vs).map fun slot =>
        slotAlternatives regions k enabled slot.1 slot.2)).map (.node () k) := by
  rw [alternatives, elim_node, if_neg h, List.zip_map_right, List.map_map]
  rfl

/-- A pool that is expanded has the alternatives of its arguments. -/
theorem alternatives_pool {vs : List (Value (Tree Unit))} {arguments : List (Tree Unit)}
    (h : Kind.pool.valueOf? vs .arguments = some (.nodes arguments)) :
    (node () .pool vs).alternatives regions true =
      arguments.flatMap fun t => t.alternatives regions true := by
  rw [alternatives, elim_node, if_pos ⟨rfl, rfl⟩, Kind.valueOf?_map, h]
  simp only [Value.map, Option.map_some, Option.elim_some, Value.children, List.flatMap_map]

theorem alternatives_congr {regions regions' : Regions}
    (h : regions.condition = regions'.condition) (t : Tree Unit) :
    t.alternatives regions = t.alternatives regions' := by
  simp only [alternatives, Regions.below, h]

end Equations

/-- If every child is its only alternative, then so is the value. -/
theorem slotAlternatives_eq_singleton {regions : Regions} {k : Kind} {enabled : Bool} {a : Attr}
    {v : Value (Tree Unit)}
    (h : ∀ t ∈ v.children, t.alternatives regions (regions.below k a enabled) = [t]) :
    slotAlternatives regions k enabled a v = [v] := by
  cases v with
  | node t => rw [slotAlternatives_node, h t (by simp [Value.children])]; rfl
  | optional child =>
      cases child with
      | none => rfl
      | some t => rw [slotAlternatives_some, h t (by simp [Value.children])]; rfl
  | nodes ts =>
      have hsegments : ts.map (segments regions k a (regions.below k a enabled)) =
          ts.map fun t => [[t]] := by
        refine List.map_congr_left fun t ht => ?_
        rw [segments, h t ht]
        split <;> rfl
      rw [slotAlternatives_nodes, hsegments, product_map_singleton]
      simp [← List.flatMap_def]
  | _ => rfl

/-- Alternatives are of the kind of the node, unless it is a pool. -/
theorem kind_of_mem_alternatives {regions : Regions} {enabled : Bool} {t r : Tree Unit}
    (ht : ¬ (enabled = true ∧ t.kind = .pool)) (hr : r ∈ t.alternatives regions enabled) :
    r.kind = t.kind := by
  cases t with
  | node l k vs =>
      rw [kind_node] at ht
      rw [alternatives_of_not_pool _ _ _ _ ht, List.mem_map] at hr
      obtain ⟨choice, -, rfl⟩ := hr
      rfl

end Tree

end AnswerSet
