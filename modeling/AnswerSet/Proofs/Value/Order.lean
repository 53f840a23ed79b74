import AnswerSet.Proofs.Order

/-!
# The order of values

Numbers, symbols, locations and texts are ordered by keys, and so are values once
their children are. Two values compare equal exactly if they are equal up to children
that compare equal; the same holds of the equality of values. Values of different
shapes are told apart by their shapes alone.
-/

namespace AnswerSet

/-! ## Numbers -/

theorem compare_natCast (m n : Nat) : compare (m : Int) (n : Int) = compare m n := by
  simp only [compare, compareOfLessAndEq, Int.ofNat_lt, Int.ofNat_inj]

theorem keyed_nat (m n : Nat) : Keyed (compare m n) [.number m] [.number n] := by
  rw [← compare_natCast]
  exact keyed_number m n

/-- Different numbers in front decide. -/
theorem keyed_of_ne {m n : Nat} (h : m ≠ n) (ks ls : List Key) :
    Keyed (compare m n) (.number m :: ks) (.number n :: ls) := by
  rcases Nat.lt_or_gt_of_ne h with hlt | hgt
  · rw [Nat.compare_eq_lt.2 hlt]
    exact keyed_of_lt (Int.ofNat_lt.2 hlt) ks ls
  · rw [Nat.compare_eq_gt.2 hgt]
    exact keyed_of_gt (Int.ofNat_lt.2 hgt) ks ls

theorem compare_toNat (m n : UInt64) : compare m.toNat n.toNat = compare m n := by
  simp [compare, compareOfLessAndEq, UInt64.lt_iff_toNat_lt, UInt64.toNat_inj]

theorem keyed_word (m n : UInt64) : Keyed (compare m n) [.number m.toNat] [.number n.toNat] := by
  rw [← compare_toNat]
  exact keyed_nat m.toNat n.toNat

/-! ## Symbols -/

namespace Symbol

/-- The place of the sign of a function, positive before negative. -/
def signKey (positive : Bool) : Int := if positive then 0 else 1

theorem keyed_sign (p q : Bool) :
    Keyed (Ord.compare q p) [.number (signKey p)] [.number (signKey q)] := by
  have hsign : Ord.compare q p = Ord.compare (signKey p) (signKey q) := by
    cases p <;> cases q <;> rfl
  rw [hsign]
  exact keyed_number _ _

mutual

/-- The key of a symbol: its band, and what is compared within the band. -/
def key : Symbol → List Key
  | .number n => [.number 1, .number n.toInt]
  | .string s => [.number 3, .text s]
  | .function name arguments positive =>
      .number (rank (.function name arguments positive)) :: .number arguments.length ::
        .number (signKey positive) :: .text name :: keys arguments
  | .infimum => [.number 0]
  | .supremum => [.number 5]

/-- The keys of symbols one behind the other. -/
def keys : List Symbol → List Key
  | [] => []
  | a :: as => key a ++ keys as

end

theorem exists_key_eq (a : Symbol) : ∃ rest, a.key = .number a.rank :: rest := by
  cases a <;> (rw [key]; exact ⟨_, rfl⟩)

/-- Symbols of different bands are ordered by their bands. -/
theorem compare_of_rank_ne {a b : Symbol} (h : a.rank ≠ b.rank) :
    a.compare b = Ord.compare a.rank b.rank := by
  cases a with
  | function f as p =>
      cases b with
      | function g bs q =>
          rw [compare]
          cases as with
          | nil =>
              cases bs with
              | nil => exact absurd rfl h
              | cons b bs => rfl
          | cons a as =>
              cases bs with
              | nil => rfl
              | cons b bs => exact absurd rfl h
      | _ => rw [compare] <;> simp
  | _ => cases b <;> first | exact absurd rfl h | (rw [compare] <;> simp)

theorem keyed_of_rank_ne {a b : Symbol} (h : a.rank ≠ b.rank) :
    Keyed (a.compare b) a.key b.key := by
  obtain ⟨as, has⟩ := a.exists_key_eq
  obtain ⟨bs, hbs⟩ := b.exists_key_eq
  rw [compare_of_rank_ne h, has, hbs]
  exact keyed_of_ne h as bs

/-- Symbols that are built by one constructor. -/
inductive Alike : Symbol → Symbol → Prop where
  | infimum : Alike .infimum .infimum
  | number (m n : Int32) : Alike (.number m) (.number n)
  | string (s t : String) : Alike (.string s) (.string t)
  | function (f g : String) (as bs : List Symbol) (p q : Bool) :
      Alike (.function f as p) (.function g bs q)
  | supremum : Alike .supremum .supremum

theorem alike_of_rank_eq {a b : Symbol} (h : a.rank = b.rank) : Alike a b := by
  cases a with
  | function f as p =>
      cases b with
      | function g bs q => exact .function f g as bs p q
      | _ => cases as <;> cases h
  | _ =>
      cases b with
      | function g bs q => cases bs <;> cases h
      | _ => first | constructor | cases h

mutual

/-- Symbols are ordered by their keys. -/
theorem keyed_compare (a b : Symbol) : Keyed (a.compare b) a.key b.key := by
  by_cases hrank : a.rank = b.rank
  · cases alike_of_rank_eq hrank with
    | infimum => exact keyed_nil.cons 0
    | supremum => exact keyed_nil.cons 5
    | number m n => exact (keyed_number m.toInt n.toInt).cons 1
    | string s t => exact (keyed_text s t).cons 3
    | function f g as bs p q =>
        rw [compare, key, key, hrank]
        refine Keyed.cons ?_ _
        refine (keyed_nat as.length bs.length).then fun hlength => ?_
        refine (keyed_sign p q).then fun _ => (keyed_text f g).then fun _ => ?_
        exact keyed_compareAll as bs (Nat.compare_eq_eq.1 hlength)
  · exact keyed_of_rank_ne hrank

theorem keyed_compareAll : (as bs : List Symbol) → as.length = bs.length →
    Keyed (compareAll as bs) (keys as) (keys bs)
  | [], [], _ => keyed_nil
  | a :: as, b :: bs, h =>
      (keyed_compare a b).then fun _ => keyed_compareAll as bs (Nat.succ.inj h)

end

mutual

theorem compare_eq_iff (a b : Symbol) : a.compare b = .eq ↔ a = b := by
  by_cases hrank : a.rank = b.rank
  · cases alike_of_rank_eq hrank with
    | infimum => exact ⟨fun _ => rfl, fun _ => rfl⟩
    | supremum => exact ⟨fun _ => rfl, fun _ => rfl⟩
    | number m n => simp [compare, Int32.toInt_inj]
    | string s t => simp [compare]
    | function f g as bs p q =>
        rw [compare, Ordering.then_eq_eq, Ordering.then_eq_eq, Ordering.then_eq_eq,
          Std.LawfulEqOrd.compare_eq_iff_eq, Std.LawfulEqOrd.compare_eq_iff_eq,
          Std.LawfulEqOrd.compare_eq_iff_eq, compareAll_eq_iff as bs, Symbol.function.injEq]
        constructor
        · rintro ⟨-, hsign, hname, harguments⟩
          exact ⟨hname, harguments, hsign.symm⟩
        · rintro ⟨hname, harguments, hsign⟩
          exact ⟨congrArg List.length harguments, hsign.symm, hname, harguments⟩
  · rw [compare_of_rank_ne hrank, Nat.compare_eq_eq]
    exact ⟨fun h => absurd h hrank, fun h => absurd (congrArg rank h) hrank⟩

theorem compareAll_eq_iff : (as bs : List Symbol) → (compareAll as bs = .eq ↔ as = bs)
  | [], [] => by simp [compareAll]
  | [], b :: bs => by simp [compareAll]
  | a :: as, [] => by simp [compareAll]
  | a :: as, b :: bs => by
      rw [compareAll, Ordering.then_eq_eq, compare_eq_iff a b, compareAll_eq_iff as bs,
        List.cons.injEq]

end

end Symbol

/-! ## Locations -/

namespace Position

/-- The key of a position. -/
def key (p : Position) : List Key :=
  [.text p.filename, .number p.line.toNat, .number p.column.toNat]

theorem keyed_compare (p q : Position) : Keyed (p.compare q) p.key q.key :=
  (keyed_text p.filename q.filename).then fun _ =>
    (keyed_word p.line q.line).then fun _ => keyed_word p.column q.column

theorem compare_eq_iff {p q : Position} : p.compare q = .eq ↔ p = q := by
  cases p
  cases q
  simp [compare, Ordering.then_eq_eq]

end Position

namespace Location

/-- The key of a location. -/
def key (l : Location) : List Key := l.first.key ++ l.last.key

theorem keyed_compare (k l : Location) : Keyed (k.compare l) k.key l.key :=
  (k.first.keyed_compare l.first).then fun _ => k.last.keyed_compare l.last

theorem compare_eq_iff {k l : Location} : k.compare l = .eq ↔ k = l := by
  cases k
  cases l
  simp [compare, Ordering.then_eq_eq, Position.compare_eq_iff]

end Location

/-! ## Values -/

theorem Shape.ctorIdx_injective : Function.Injective Shape.ctorIdx := fun a b h => by
  rw [← a.ofNat_ctorIdx, h, b.ofNat_ctorIdx]

theorem Shape.compare_eq_iff {a b : Shape} : a.compare b = .eq ↔ a = b := by
  rw [compare, Nat.compare_eq_eq]
  exact ctorIdx_injective.eq_iff

namespace Value

variable {ν μ : Type} {v : Value ν} {w : Value μ}

/-- Values of one shape. -/
inductive Alike : Value ν → Value μ → Prop where
  | int (m n : Int32) : Alike (.int m) (.int n)
  | symbol (a b : Symbol) : Alike (.symbol a) (.symbol b)
  | location (k l : Location) : Alike (.location k) (.location l)
  | text (a b : String) : Alike (.text a) (.text b)
  | node (a : ν) (b : μ) : Alike (.node a) (.node b)
  | optional (a : Option ν) (b : Option μ) : Alike (.optional a) (.optional b)
  | texts (as bs : List String) : Alike (.texts as) (.texts bs)
  | nodes (as : List ν) (bs : List μ) : Alike (.nodes as) (.nodes bs)

theorem alike_of_shape_eq (h : v.shape = w.shape) : Alike v w := by
  cases v <;> cases w <;> first | constructor | cases h

/-- Values of different shapes are ordered by their shapes. -/
theorem compareWith_of_shape_ne {compare : ν → μ → Ordering} (h : v.shape ≠ w.shape) :
    compareWith compare v w = v.shape.compare w.shape := by
  cases v <;> cases w <;> first | rfl | exact absurd rfl h

theorem sameWith_of_shape_ne {same : ν → μ → Bool} (h : v.shape ≠ w.shape) :
    sameWith same v w = false := by
  cases v <;> cases w <;> first | rfl | exact absurd rfl h

/-- The key of a value whose children have the given keys: its shape, and what is
compared within the shape. -/
def key (f : ν → List Key) (v : Value ν) : List Key :=
  .number v.shape.ctorIdx ::
    match v with
    | .int n => [.number n.toInt]
    | .symbol a => a.key
    | .location l => l.key
    | .text a => [.text a]
    | .node child => f child
    | .optional child => optionKey f child
    | .texts items => listKey (fun a => [.text a]) items
    | .nodes children => listKey f children

theorem key_map {ξ : Type} (f : ν → List Key) (g : ξ → ν) (v : Value ξ) :
    (v.map g).key f = v.key fun a => f (g a) := by
  cases v with
  | optional child => cases child <;> rfl
  | nodes children => exact congrArg (_ :: ·) (listKey_map g children)
  | _ => rfl

/-- Values are ordered by keys if their children are. -/
theorem keyed_compareWith {compare : ν → μ → Ordering} {f : ν → List Key} {g : μ → List Key}
    (h : ∀ a ∈ v.children, ∀ b ∈ w.children, Keyed (compare a b) (f a) (g b)) :
    Keyed (compareWith compare v w) (v.key f) (w.key g) := by
  by_cases hshape : v.shape = w.shape
  · cases alike_of_shape_eq hshape with
    | int m n => exact (keyed_number m.toInt n.toInt).cons _
    | symbol a b => exact (a.keyed_compare b).cons _
    | location k l => exact (k.keyed_compare l).cons _
    | text a b => exact (keyed_text a b).cons _
    | node a b => exact (h a (by simp [children]) b (by simp [children])).cons _
    | optional a b =>
        have hchildren : ∀ x ∈ a, ∀ y ∈ b, Keyed (compare x y) (f x) (g y) := fun x hx y hy =>
          h x (by simpa [children] using hx) y (by simpa [children] using hy)
        exact (keyed_options hchildren).cons _
    | texts as bs =>
        have hitems : ∀ a ∈ as, ∀ b ∈ bs, Keyed (Ord.compare a b) [.text a] [.text b] :=
          fun a _ b _ => keyed_text a b
        exact (keyed_lists hitems).cons _
    | nodes as bs =>
        have hchildren : ∀ a ∈ as, ∀ b ∈ bs, Keyed (compare a b) (f a) (g b) := h
        exact (keyed_lists hchildren).cons _
  · rw [compareWith_of_shape_ne hshape]
    exact keyed_of_ne (Shape.ctorIdx_injective.ne hshape) _ _

/-- Values compare equal if they are equal up to children that compare equal. -/
theorem compareWith_eq_iff {compare : ν → μ → Ordering} :
    compareWith compare v w = .eq ↔ Rel (fun a b => compare a b = .eq) v w := by
  by_cases hshape : v.shape = w.shape
  · cases alike_of_shape_eq hshape with
    | int m n => simp [compareWith, Int32.toInt_inj]
    | symbol a b => simp [compareWith, Symbol.compare_eq_iff]
    | location k l => simp [compareWith, Location.compare_eq_iff]
    | text a b => simp [compareWith]
    | node a b => simp [compareWith]
    | optional a b => rw [compareWith, compareOptions_eq_iff, rel_optional_iff]
    | texts as bs =>
        rw [compareWith, compareLists_eq_iff, rel_texts_iff]
        simp only [Std.LawfulEqOrd.compare_eq_iff_eq, List.forall₂_eq_eq_eq]
    | nodes as bs => rw [compareWith, compareLists_eq_iff, rel_nodes_iff]
  · rw [compareWith_of_shape_ne hshape, Shape.compare_eq_iff]
    exact ⟨fun h => absurd h hshape, fun h => absurd h.shape_eq hshape⟩

/-- Values are equal if they are equal up to children that are. -/
theorem sameWith_iff {same : ν → μ → Bool} :
    sameWith same v w = true ↔ Rel (fun a b => same a b = true) v w := by
  by_cases hshape : v.shape = w.shape
  · cases alike_of_shape_eq hshape with
    | optional a b => rw [sameWith, sameOptions_iff, rel_optional_iff]
    | nodes as bs => rw [sameWith, sameLists_iff, rel_nodes_iff]
    | _ => simp [sameWith]
  · rw [sameWith_of_shape_ne hshape]
    exact ⟨fun h => (by cases h), fun h => absurd h.shape_eq hshape⟩

end Value

end AnswerSet
