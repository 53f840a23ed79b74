import AnswerSet.Pool.Product
import Mathlib.Algebra.GroupWithZero.Nat
import Mathlib.Data.List.Nodup

/-!
# Counting and refining products

A product has one choice for every way to pick a member from each factor, and different
choices if no factor repeats a member.

A list is refined by replacing each of its members by a list of others. If every factor of a
product is refined, then the product is, choice by choice, with one exception: the choices of
a product vary fastest in the last factor, so the members of all factors but the last must be
refined into one member each, or the order of the choices is another.
-/

namespace AnswerSet

variable {α β γ : Type}

/-! ## Counting choices -/

/-- There are as many choices as the numbers of members multiply to. -/
theorem length_product (factors : List (List α)) :
    (product factors).length = (factors.map List.length).prod := by
  induction factors with
  | nil => rfl
  | cons factor rest ih =>
      rw [product_cons, List.length_flatMap]
      simp [ih]

/-- Factors without repetitions have choices without repetitions. -/
theorem nodup_product {factors : List (List α)} (h : ∀ factor ∈ factors, factor.Nodup) :
    (product factors).Nodup := by
  induction factors with
  | nil => exact List.nodup_singleton []
  | cons factor rest ih =>
      have hrest : (product rest).Nodup := ih fun f hf => h f (List.mem_cons_of_mem factor hf)
      rw [product_cons]
      refine List.nodup_flatMap.2 ⟨fun a _ => hrest.map List.cons_injective, ?_⟩
      refine (h factor List.mem_cons_self).imp fun {a b} hab => List.disjoint_left.2 ?_
      intro choice ha hb
      obtain ⟨_, _, rfl⟩ := List.mem_map.1 ha
      obtain ⟨_, _, heq⟩ := List.mem_map.1 hb
      exact hab (List.cons.inj heq).1.symm

/-! ## Refining lists -/

/-- The second list has the refinements of the members of the first, in order. -/
def Refines (coarse : List α) (refine : α → List β) (fine : List β) : Prop :=
  fine = coarse.flatMap refine

/-- Every member has one refinement. -/
def Settles (coarse : List α) (refine : α → List β) : Prop :=
  ∀ a ∈ coarse, ∃ b, refine a = [b]

section Map

variable {coarse : List α} {refine : α → List α} {fine : List α} {f : α → β}
  {lifted : β → List β}

theorem Refines.map (h : Refines coarse refine fine)
    (hlifted : ∀ a ∈ coarse, lifted (f a) = (refine a).map f) :
    Refines (coarse.map f) lifted (fine.map f) := by
  rw [Refines, h, List.map_flatMap, List.flatMap_map]
  exact List.flatMap_congr fun a ha => (hlifted a ha).symm

theorem Settles.map (h : Settles coarse refine)
    (hlifted : ∀ a ∈ coarse, lifted (f a) = (refine a).map f) : Settles (coarse.map f) lifted := by
  intro b hb
  obtain ⟨a, ha, rfl⟩ := List.mem_map.1 hb
  obtain ⟨a', ha'⟩ := h a ha
  exact ⟨f a', by rw [hlifted a ha, ha', List.map_singleton]⟩

end Map

/-! ## Refining products -/

section Product

variable {ι : Type} {xs : List ι} {coarse : ι → List α} {refine : ι → α → List β}
  {fine : ι → List β}

/-- If every factor is refined, and members of all factors but the last have one refinement
each, then every choice is refined into the choices of refinements. -/
theorem product_refines (h : ∀ x ∈ xs, Refines (coarse x) (refine x) (fine x))
    (hsettles : ∀ x ∈ xs.dropLast, Settles (coarse x) (refine x)) :
    Refines (product (xs.map coarse)) (fun choice => product (List.zipWith refine xs choice))
      (product (xs.map fine)) := by
  induction xs with
  | nil => rfl
  | cons x rest ih =>
      have hx : fine x = (coarse x).flatMap (refine x) := h x List.mem_cons_self
      cases rest with
      | nil => simp [Refines, product_cons, hx, List.flatMap_assoc]
      | cons y ys =>
          have hrest := ih (fun z hz => h z (List.mem_cons_of_mem x hz))
            fun z hz => hsettles z (List.mem_cons_of_mem x hz)
          have hfirst : Settles (coarse x) (refine x) := hsettles x List.mem_cons_self
          generalize y :: ys = rest at hrest
          rw [Refines] at hrest
          rw [Refines, List.map_cons, List.map_cons, product_cons, product_cons, hrest, hx,
            List.flatMap_assoc, List.flatMap_assoc]
          refine List.flatMap_congr fun a ha => ?_
          obtain ⟨b, hb⟩ := hfirst a ha
          rw [hb, List.flatMap_singleton, List.map_flatMap, List.flatMap_map]
          refine List.flatMap_congr fun choice _ => ?_
          rw [List.zipWith_cons_cons, hb, product_cons, List.flatMap_singleton]

/-- If members of all factors have one refinement each, then every choice has. -/
theorem product_settles (h : ∀ x ∈ xs, Settles (coarse x) (refine x)) :
    Settles (product (xs.map coarse)) fun choice => product (List.zipWith refine xs choice) := by
  induction xs with
  | nil =>
      intro choice _
      exact ⟨[], rfl⟩
  | cons x rest ih =>
      intro choice hchoice
      rw [List.map_cons, product_cons, List.mem_flatMap] at hchoice
      obtain ⟨a, ha, hchoice⟩ := hchoice
      obtain ⟨tail, htail, rfl⟩ := List.mem_map.1 hchoice
      obtain ⟨b, hb⟩ := h x List.mem_cons_self a ha
      obtain ⟨bs, hbs⟩ := ih (fun z hz => h z (List.mem_cons_of_mem x hz)) tail htail
      refine ⟨b :: bs, ?_⟩
      simp only at hbs
      simp only [List.zipWith_cons_cons, product_cons, hb, hbs]
      rfl

end Product

/-! ## Products of segments -/

/-- Replacing the members of all factors replaces those of the choices. -/
theorem product_map_map (f : α → β) (factors : List (List α)) :
    product (factors.map (List.map f)) = (product factors).map (List.map f) := by
  induction factors with
  | nil => rfl
  | cons factor rest ih =>
      simp only [List.map_cons, product_cons, ih, List.flatMap_map, List.map_flatMap, List.map_map]
      rfl

theorem product_append (xs ys : List (List α)) :
    product (xs ++ ys) =
      (product xs).flatMap fun choice => (product ys).map fun rest => choice ++ rest := by
  induction xs with
  | nil => simp
  | cons factor xs ih =>
      simp [product_cons, ih, List.flatMap_assoc, List.map_flatMap, List.flatMap_map,
        Function.comp_def]

/-- The choices of segments for the members of several lists, joined, can be made list by
list. -/
theorem product_flatten (segments : α → List (List β)) (lists : List (List α)) :
    (product (lists.flatten.map segments)).map List.flatten =
      (product (lists.map fun list => (product (list.map segments)).map List.flatten)).map
        List.flatten := by
  induction lists with
  | nil => rfl
  | cons list lists ih =>
      rw [List.flatten_cons, List.map_append, product_append, List.map_cons, product_cons,
        List.map_flatMap, List.flatMap_map, List.map_flatMap]
      refine List.flatMap_congr fun choice _ => ?_
      have hjoin := congrArg (List.map fun rest => choice.flatten ++ rest) ih
      simpa [Function.comp_def] using hjoin

theorem zipWith_right (f : β → γ) {as : List α} {bs : List β} (h : bs.length ≤ as.length) :
    List.zipWith (fun _ b => f b) as bs = bs.map f := by
  have hzip : (as.zip bs).map Prod.snd = bs := List.map_snd_zip h
  rw [← hzip, List.map_map, ← List.map_uncurry_zip_eq_zipWith, hzip]
  rfl

end AnswerSet
