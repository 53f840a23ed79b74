import AnswerSet.Proofs.Value.Order

/-!
# The total order of ground symbols

The comparison of symbols skips the bands when two functions meet: it compares their
argument lists first. This agrees with the bands, because functions of different bands
differ in the number of their arguments. `OrderedByBands` collects what the order is
then known to be: a total order up to identity, given by the bands between symbols of
different bands and by a rule of its own within each band.
-/

namespace AnswerSet.Symbol

variable {a b c : Symbol}

/-- The comparison is total, tells only different symbols apart, and goes by bands. -/
structure OrderedByBands (compare : Symbol → Symbol → Ordering) : Prop where
  swap : ∀ a b, compare b a = (compare a b).swap
  eq_iff : ∀ a b, compare a b = .eq ↔ a.same b = true
  antisymm : ∀ a b, (compare a b).isLE = true → (compare b a).isLE = true → a = b
  trans : ∀ a b c, (compare a b).isLE = true → (compare b c).isLE = true →
    (compare a c).isLE = true
  total : ∀ a b, (compare a b).isLE = true ∨ (compare b a).isLE = true
  /-- The bands from the lowest to the highest. -/
  bands : ∀ n f p s g x xs q, List.Pairwise (fun a b => compare a b = .lt)
    [.infimum, .number n, .function f [] p, .string s, .function g (x :: xs) q, .supremum]
  numbers : ∀ m n, compare (.number m) (.number n) = .lt ↔ m < n
  strings : ∀ s t, compare (.string s) (.string t) = .lt ↔ s < t
  /-- Fewer arguments come first, then a positive sign, then the name, then the arguments
  up to the first difference. -/
  functions : ∀ f g as bs p q, compare (.function f as p) (.function g bs q) = .lt ↔
    as.length < bs.length ∨ as.length = bs.length ∧
      (p = true ∧ q = false ∨ p = q ∧
        (f < g ∨ f = g ∧ List.Lex (fun a b => compare a b = .lt) as bs))

/-! ## A total order -/

theorem compare_eq_compareKeys (a b : Symbol) : a.compare b = compareKeys a.key b.key :=
  (keyed_compare a b).eq_compareKeys

theorem compare_swap (a b : Symbol) : b.compare a = (a.compare b).swap := by
  rw [compare_eq_compareKeys, compare_eq_compareKeys]
  exact Std.OrientedCmp.eq_swap

theorem compare_isLE_trans (hab : (a.compare b).isLE = true) (hbc : (b.compare c).isLE = true) :
    (a.compare c).isLE = true := by
  rw [compare_eq_compareKeys] at hab hbc ⊢
  exact Std.TransCmp.isLE_trans hab hbc

theorem eq_of_compare_isLE (hab : (a.compare b).isLE = true) (hba : (b.compare a).isLE = true) :
    a = b := by
  rw [compare_swap a b] at hba
  apply (compare_eq_iff a b).1
  cases h : a.compare b with
  | eq => rfl
  | lt => rw [h] at hba; cases hba
  | gt => rw [h] at hab; cases hab

theorem compare_isLE_total (a b : Symbol) :
    (a.compare b).isLE = true ∨ (b.compare a).isLE = true := by
  rw [compare_swap a b]
  cases a.compare b with
  | lt => exact .inl rfl
  | eq => exact .inl rfl
  | gt => exact .inr rfl

/-! ## Bands -/

/-- A symbol of a lower band is smaller. -/
theorem compare_eq_lt_of_rank (h : a.rank < b.rank) : a.compare b = .lt := by
  rw [compare_of_rank_ne (Nat.ne_of_lt h)]
  exact Nat.compare_eq_lt.2 h

theorem pairwise_bands (n : Int32) (f : String) (p : Bool) (s g : String) (x : Symbol)
    (xs : List Symbol) (q : Bool) : List.Pairwise (fun a b : Symbol => a.compare b = .lt)
      [.infimum, .number n, .function f [] p, .string s, .function g (x :: xs) q, .supremum] := by
  apply List.Pairwise.imp compare_eq_lt_of_rank
  simp [rank]

/-! ## Within a band -/

theorem compare_text_eq_lt_iff {s t : String} : Ord.compare s t = .lt ↔ s < t :=
  compareOfLessAndEq_eq_lt

/-- Lists are compared at their first difference; a list comes after what it begins with. -/
theorem compareAll_eq_lt_iff {as bs : List Symbol} :
    compareAll as bs = .lt ↔ List.Lex (fun a b => a.compare b = .lt) as bs := by
  induction as generalizing bs with
  | nil =>
      cases bs with
      | nil => simp [compareAll]
      | cons b bs => simp [compareAll]
  | cons a as ih =>
      cases bs with
      | nil => simp [compareAll]
      | cons b bs =>
          rw [compareAll, Ordering.then_eq_lt, List.cons_lex_cons_iff, compare_eq_iff, ih]

/-- A positive function comes before a negative one. -/
theorem compare_sign_eq_lt_iff {p q : Bool} : Ord.compare q p = .lt ↔ p = true ∧ q = false := by
  cases p <;> cases q <;> decide

theorem compare_function_eq_lt_iff {f g : String} {as bs : List Symbol} {p q : Bool} :
    (function f as p).compare (.function g bs q) = .lt ↔
      as.length < bs.length ∨ as.length = bs.length ∧
        (p = true ∧ q = false ∨ p = q ∧
          (f < g ∨ f = g ∧ List.Lex (fun a b => a.compare b = .lt) as bs)) := by
  rw [compare, Ordering.then_eq_lt, Ordering.then_eq_lt, Ordering.then_eq_lt, Nat.compare_eq_lt,
    Nat.compare_eq_eq, compare_sign_eq_lt_iff, Std.LawfulEqOrd.compare_eq_iff_eq, @eq_comm _ q p,
    compare_text_eq_lt_iff, Std.LawfulEqOrd.compare_eq_iff_eq, compareAll_eq_lt_iff]

end AnswerSet.Symbol

namespace AnswerSet

/-- Ground symbols are totally ordered by their bands and, within a band, by value. -/
theorem symbols_are_ordered_by_bands : Symbol.OrderedByBands Symbol.compare where
  swap := Symbol.compare_swap
  eq_iff a b := by rw [Symbol.compare_eq_iff, Symbol.same_iff_eq]
  antisymm a b := Symbol.eq_of_compare_isLE
  trans a b c := Symbol.compare_isLE_trans
  total := Symbol.compare_isLE_total
  bands := Symbol.pairwise_bands
  numbers m n := by
    rw [Symbol.compare, Int.compare_eq_lt, Int32.lt_iff_toInt_lt]
  strings s t := by
    rw [Symbol.compare, Symbol.compare_text_eq_lt_iff]
  functions f g as bs p q := Symbol.compare_function_eq_lt_iff

end AnswerSet
