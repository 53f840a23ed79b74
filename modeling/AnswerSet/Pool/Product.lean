/-!
# Products of lists

A product makes one choice from every factor. The choices of the first factor vary
slowest. No factors have one empty choice, and an empty factor leaves none.

The choices from one or more factors come from a function of which only their order is known.
`nestedLoops` is such a function.
-/

namespace AnswerSet

variable {α : Type}

/-- The function runs through the choices from one or more factors in lexicographic order:
for each member of the first factor in turn, through the choices from the others. -/
structure Lexicographic (cartesian : List (List α) → List (List α)) : Prop where
  single (factor : List α) : cartesian [factor] = factor.map fun a => [a]
  cons (factor : List α) {rest : List (List α)} (h : rest ≠ []) :
    cartesian (factor :: rest) =
      factor.flatMap fun a => (cartesian rest).map fun choice => a :: choice

/-- The choices that one loop inside the other runs through, the first factor outermost. -/
def nestedLoops : List (List α) → List (List α)
  | [] => [[]]
  | factor :: rest => factor.flatMap fun a => (nestedLoops rest).map fun choice => a :: choice

theorem lexicographic_nestedLoops : Lexicographic (nestedLoops (α := α)) where
  single _ := List.map_eq_flatMap.symm
  cons _ _ _ := rfl

/-- All choices of one member from every factor. Without factors there is nothing to run
through, so the function is not asked. -/
def productBy (cartesian : List (List α) → List (List α)) (factors : List (List α)) :
    List (List α) :=
  if factors.isEmpty then [[]] else cartesian factors

/-- All choices of one member from every factor. -/
def product : List (List α) → List (List α) := productBy nestedLoops

theorem product_eq_nestedLoops (factors : List (List α)) :
    product factors = nestedLoops factors := by
  cases factors <;> rfl

@[simp] theorem product_nil : product ([] : List (List α)) = [[]] := rfl

theorem product_cons (factor : List α) (rest : List (List α)) :
    product (factor :: rest) =
      factor.flatMap fun a => (product rest).map fun choice => a :: choice := by
  rw [product_eq_nestedLoops, product_eq_nestedLoops, nestedLoops]

/-- The product does not depend on the function. -/
theorem productBy_eq_product {cartesian : List (List α) → List (List α)}
    (h : Lexicographic cartesian) (factors : List (List α)) :
    productBy cartesian factors = product factors := by
  induction factors with
  | nil => rfl
  | cons factor rest ih =>
      rw [product_cons, ← ih]
      cases rest with
      | nil => exact (h.single factor).trans List.map_eq_flatMap
      | cons next rest => exact h.cons factor (List.cons_ne_nil next rest)

end AnswerSet
