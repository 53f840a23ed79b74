import AnswerSet.Proofs.Pool.Product
import Mathlib.Data.List.Forall2

/-!
# The order of choices

The choices from several factors are numbered like the numerals of a number system in which
every place has a radix of its own: the length of its factor. The last place is the lowest, and
the weight of a place is how many choices the later factors have together. So the members of
choice number `i` stand in their factors at the digits of `i`, every tuple of positions is the
numeral of one number, and the choices are in the lexicographic order of their positions.
-/

namespace AnswerSet

variable {α β : Type}

/-! ## Numbers and positions -/

/-- How many choices there are from the factors. -/
def choiceCount (factors : List (List α)) : Nat := (factors.map List.length).prod

/-- How many choices there are from the factors behind factor number `j`. -/
def weight (factors : List (List α)) (j : Nat) : Nat := choiceCount (factors.drop (j + 1))

/-- Where the members of choice number `i` stand in their factors. -/
def positions (factors : List (List α)) (i : Nat) : List Nat :=
  factors.mapIdx fun j factor => i / weight factors j % factor.length

/-- The number of the choice whose members stand at the given positions. -/
def numberAt : List (List α) → List Nat → Nat
  | _ :: rest, p :: ps => p * choiceCount rest + numberAt rest ps
  | _, _ => 0

theorem choiceCount_cons (factor : List α) (rest : List (List α)) :
    choiceCount (factor :: rest) = factor.length * choiceCount rest := by
  rw [choiceCount, List.map_cons, List.prod_cons, choiceCount]

theorem positions_cons (factor : List α) (rest : List (List α)) (i : Nat) :
    positions (factor :: rest) i =
      i / choiceCount rest % factor.length :: positions rest i := by
  rw [positions, List.mapIdx_cons]
  rfl

/-- What goes beyond all choices of the factors does not reach their places. -/
theorem positions_mod (factors : List (List α)) (i : Nat) :
    positions factors (i % choiceCount factors) = positions factors i := by
  induction factors generalizing i with
  | nil => rfl
  | cons factor rest ih =>
      rw [positions_cons, positions_cons, choiceCount_cons]
      congr 1
      · rw [Nat.mul_comm, Nat.mod_mul_right_div_self, Nat.mod_mod]
      · rw [← ih, Nat.mod_mul_left_mod, ih]

/-- The place of the first factor and the places of the others. -/
theorem positions_cons_of_lt {factor : List α} {rest : List (List α)} {i : Nat}
    (hi : i < choiceCount (factor :: rest)) :
    i / choiceCount rest < factor.length ∧ 0 < choiceCount rest ∧
      positions (factor :: rest) i =
        i / choiceCount rest :: positions rest (i % choiceCount rest) := by
  rw [choiceCount_cons] at hi
  have hpos : 0 < choiceCount rest := Nat.pos_of_mul_pos_left (Nat.zero_lt_of_lt hi)
  have hfirst : i / choiceCount rest < factor.length := (Nat.div_lt_iff_lt_mul hpos).2 hi
  refine ⟨hfirst, hpos, ?_⟩
  rw [positions_cons, positions_mod, Nat.mod_eq_of_lt hfirst]

/-- Greater numbers have greater positions. -/
theorem positions_lt_positions {factors : List (List α)} {i k : Nat} (hik : i < k)
    (hk : k < choiceCount factors) : positions factors i < positions factors k := by
  induction factors generalizing i k with
  | nil =>
      have hone : k < 1 := hk
      omega
  | cons factor rest ih =>
      obtain ⟨-, hpos, hpositions⟩ := positions_cons_of_lt hk
      rw [hpositions, (positions_cons_of_lt (Nat.lt_trans hik hk)).2.2, List.cons_lt_cons_iff]
      have hle : i / choiceCount rest ≤ k / choiceCount rest :=
        Nat.div_le_div_right (Nat.le_of_lt hik)
      rcases Nat.lt_or_eq_of_le hle with hlt | heq
      · exact .inl hlt
      · refine .inr ⟨heq, ih ?_ (Nat.mod_lt k hpos)⟩
        have hi := Nat.div_add_mod i (choiceCount rest)
        have hk := Nat.div_add_mod k (choiceCount rest)
        rw [heq] at hi
        omega

theorem positions_injOn {factors : List (List α)} {i k : Nat} (hi : i < choiceCount factors)
    (hk : k < choiceCount factors) (h : positions factors i = positions factors k) : i = k := by
  rcases Nat.lt_trichotomy i k with hlt | heq | hgt
  · exact absurd (h ▸ positions_lt_positions hlt hk) (List.lt_irrefl _)
  · exact heq
  · exact absurd (h ▸ positions_lt_positions hgt hi) (List.lt_irrefl _)

/-- The tuple has one position in each factor. -/
def InRange (factors : List (List α)) (ps : List Nat) : Prop :=
  List.Forall₂ (fun factor p => p < factor.length) factors ps

theorem numberAt_lt {factors : List (List α)} {ps : List Nat} (h : InRange factors ps) :
    numberAt factors ps < choiceCount factors := by
  induction h with
  | nil => exact Nat.zero_lt_one
  | @cons factor p rest ps hp _ ih =>
      rw [numberAt, choiceCount_cons]
      calc p * choiceCount rest + numberAt rest ps
          < p * choiceCount rest + choiceCount rest := Nat.add_lt_add_left ih _
        _ = (p + 1) * choiceCount rest := (Nat.succ_mul p _).symm
        _ ≤ factor.length * choiceCount rest := Nat.mul_le_mul_right _ hp

theorem positions_numberAt {factors : List (List α)} {ps : List Nat} (h : InRange factors ps) :
    positions factors (numberAt factors ps) = ps := by
  induction h with
  | nil => rfl
  | @cons factor p rest ps hp hps ih =>
      have hlt : numberAt rest ps < choiceCount rest := numberAt_lt hps
      have hpos : 0 < choiceCount rest := Nat.zero_lt_of_lt hlt
      have hfirst : (p * choiceCount rest + numberAt rest ps) / choiceCount rest = p := by
        rw [Nat.mul_comm, Nat.mul_add_div hpos, Nat.div_eq_of_lt hlt, Nat.add_zero]
      have hrest : (p * choiceCount rest + numberAt rest ps) % choiceCount rest =
          numberAt rest ps := by
        rw [Nat.mul_comm, Nat.mul_add_mod, Nat.mod_eq_of_lt hlt]
      rw [(positions_cons_of_lt (numberAt_lt (.cons hp hps))).2.2, numberAt, hfirst, hrest, ih]

/-! ## The choices by their numbers -/

/-- Lists of one length, joined, are looked up list by list. -/
theorem getElem?_flatMap {as : List α} {g : α → List β} {n : Nat} (hn : 0 < n)
    (h : ∀ a ∈ as, (g a).length = n) (i : Nat) :
    (as.flatMap g)[i]? = as[i / n]?.bind fun a => (g a)[i % n]? := by
  induction as generalizing i with
  | nil => rfl
  | cons a as ih =>
      have ha : (g a).length = n := h a List.mem_cons_self
      rw [List.flatMap_cons]
      rcases Nat.lt_or_ge i n with hi | hi
      · rw [List.getElem?_append_left (by omega), Nat.div_eq_of_lt hi, Nat.mod_eq_of_lt hi]
        rfl
      · rw [List.getElem?_append_right (by omega), ha,
          ih (fun b hb => h b (List.mem_cons_of_mem a hb)), Nat.div_eq_sub_div hn hi,
          Nat.mod_eq_sub_mod hi, List.getElem?_cons_succ]

theorem getElem?_product_cons {factor : List α} {rest : List (List α)}
    (hpos : 0 < choiceCount rest) (i : Nat) :
    (product (factor :: rest))[i]? = factor[i / choiceCount rest]?.bind fun a =>
      (product rest)[i % choiceCount rest]?.map fun choice => a :: choice := by
  rw [product_cons, getElem?_flatMap hpos]
  · simp only [List.getElem?_map]
  · intro a _
    rw [List.length_map, length_product]
    rfl

/-- A choice has the members that stand in the factors at the positions of its number. -/
theorem map_some_of_getElem?_product {factors : List (List α)} {i : Nat} {choice : List α}
    (h : (product factors)[i]? = some choice) :
    choice.map some =
      List.zipWith (fun factor p => factor[p]?) factors (positions factors i) := by
  induction factors generalizing i choice with
  | nil =>
      obtain rfl : choice = [] := by simpa using List.mem_of_getElem? h
      rfl
  | cons factor rest ih =>
      have hi : i < choiceCount (factor :: rest) := by
        have hlength := (List.getElem?_eq_some_iff.1 h).1
        rwa [length_product] at hlength
      obtain ⟨-, hpos, hpositions⟩ := positions_cons_of_lt hi
      rw [getElem?_product_cons hpos, Option.bind_eq_some_iff] at h
      obtain ⟨a, ha, h⟩ := h
      obtain ⟨tail, htail, rfl⟩ := Option.map_eq_some_iff.1 h
      rw [hpositions, List.map_cons, ih htail, List.zipWith_cons_cons, ha, positions_mod]

/-- The list has the choices from the factors, each at its number. -/
structure Enumerates (factors choices : List (List α)) : Prop where
  /-- There are as many choices as the lengths multiply to, and one if there are no factors. -/
  length_eq : choices.length = (factors.map List.length).prod
  /-- A choice has one member for each factor, namely the one at the digit of its number. -/
  picks : ∀ i choice, choices[i]? = some choice → choice.length = factors.length ∧
    ∀ j factor, factors[j]? = some factor →
      choice[j]? = factor[i / weight factors j % factor.length]?
  /-- Every way to pick members by their positions is the choice of one number only. -/
  once : ∀ ps, InRange factors ps → ∃! i, i < choices.length ∧ positions factors i = ps
  /-- The first factor varies slowest. -/
  ordered : ∀ i k, i < k → k < choices.length → positions factors i < positions factors k

theorem enumerates_product (factors : List (List α)) : Enumerates factors (product factors) where
  length_eq := length_product factors
  picks i choice h := by
    have hpicks := map_some_of_getElem?_product h
    have hlength : choice.length = factors.length := by
      simpa [positions] using congrArg List.length hpicks
    refine ⟨hlength, fun j factor hfactor => ?_⟩
    have hj : j < choice.length := hlength ▸ (List.getElem?_eq_some_iff.1 hfactor).1
    have hmember := congrArg (fun picks => picks[j]?) hpicks
    simpa [positions, List.getElem?_zipWith, hfactor, hj] using hmember
  once ps hps := by
    have hnumber : numberAt factors ps < choiceCount factors := numberAt_lt hps
    rw [length_product]
    refine ⟨numberAt factors ps, ⟨hnumber, positions_numberAt hps⟩, ?_⟩
    rintro i ⟨hi, hpositions⟩
    exact positions_injOn hi hnumber (hpositions.trans (positions_numberAt hps).symm)
  ordered i k hik hk := by
    rw [length_product] at hk
    exact positions_lt_positions hik hk

/-- If the function runs through choices in lexicographic order, then the product has every choice
from its factors once, and the leftmost factor varies slowest. -/
theorem product_enumerates_choices {cartesian : List (List α) → List (List α)}
    (h : Lexicographic cartesian) (factors : List (List α)) :
    Enumerates factors (productBy cartesian factors) := by
  rw [productBy_eq_product h]
  exact enumerates_product factors

/-- Two factors have the choices of the first in two blocks, an empty factor leaves no choice, and
no factors have one. -/
theorem product_enumerates_choices_nestedLoops :
    Lexicographic (nestedLoops (α := Nat)) ∧
      Enumerates [[5, 5], [6, 7, 8]] [[5, 6], [5, 7], [5, 8], [5, 6], [5, 7], [5, 8]] ∧
      Enumerates [[5], [], [6]] ([] : List (List Nat)) ∧ Enumerates [] [([] : List Nat)] :=
  have h := lexicographic_nestedLoops
  ⟨h, product_enumerates_choices h [[5, 5], [6, 7, 8]], product_enumerates_choices h [[5], [], [6]],
    product_enumerates_choices h []⟩

end AnswerSet
