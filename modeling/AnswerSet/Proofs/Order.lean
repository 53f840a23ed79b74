import AnswerSet.Order
import AnswerSet.Proofs.Value

/-!
# Orders read off keys

Every comparison of the library looks at numbers and texts in some sequence and stops
at the first difference. A key writes this sequence down. `Keyed` says that a
comparison is decided by two keys, whatever follows them; keys are self-delimiting, so
the keys of parts can be put one behind the other. A keyed comparison is the
lexicographic order of the keys, and it is a total order for this reason alone.
-/

namespace AnswerSet

/-! ## Keys -/

/-- One unit of a comparison. -/
inductive Key where
  | number (n : Int)
  | text (s : String)

namespace Key

/-- Numbers before texts. -/
def compare : Key → Key → Ordering
  | .number m, .number n => Ord.compare m n
  | .text s, .text t => Ord.compare s t
  | .number _, .text _ => .lt
  | .text _, .number _ => .gt

instance : Std.TransCmp compare where
  eq_swap {k l} := by
    cases k with
    | number m =>
        cases l with
        | number n => exact Std.OrientedOrd.eq_swap
        | text t => rfl
    | text s =>
        cases l with
        | number n => rfl
        | text t => exact Std.OrientedOrd.eq_swap
  isLE_trans {k l m} hkl hlm := by
    cases l with
    | number b =>
        cases k with
        | text s => cases hkl
        | number a =>
            cases m with
            | number c => exact Std.TransOrd.isLE_trans hkl hlm
            | text t => rfl
    | text b =>
        cases m with
        | number n => cases hlm
        | text c =>
            cases k with
            | number n => rfl
            | text a => exact Std.TransOrd.isLE_trans hkl hlm

end Key

/-- The lexicographic order of keys. -/
def compareKeys : List Key → List Key → Ordering := compareLists Key.compare

theorem compareLists_eq_compareLex {α : Type} (compare : α → α → Ordering) :
    compareLists compare = List.compareLex compare := by
  funext as bs
  induction as generalizing bs with
  | nil => cases bs <;> rfl
  | cons a as ih =>
      cases bs with
      | nil => rfl
      | cons b bs => rw [compareLists, List.compareLex_cons_cons, ih]

instance : Std.TransCmp compareKeys := by
  rw [compareKeys, compareLists_eq_compareLex]
  infer_instance

/-! ## Keyed comparisons -/

/-- The comparison has the outcome that two keys decide, whatever follows them. -/
def Keyed (outcome : Ordering) (ks ls : List Key) : Prop :=
  ∀ xs ys, compareKeys (ks ++ xs) (ls ++ ys) = outcome.then (compareKeys xs ys)

theorem Keyed.eq_compareKeys {outcome : Ordering} {ks ls : List Key} (h : Keyed outcome ks ls) :
    outcome = compareKeys ks ls := by
  have hempty := h [] []
  rw [List.append_nil, List.append_nil] at hempty
  rw [hempty]
  cases outcome <;> rfl

theorem keyed_nil : Keyed .eq [] [] := fun _ _ => rfl

theorem keyed_number (m n : Int) : Keyed (compare m n) [.number m] [.number n] := fun _ _ => rfl

theorem keyed_text (s t : String) : Keyed (compare s t) [.text s] [.text t] := fun _ _ => rfl

/-- Once two keys differ, what follows does not matter. -/
theorem Keyed.then {outcome outcome' : Ordering} {ks ls ks' ls' : List Key}
    (h : Keyed outcome ks ls) (h' : outcome = .eq → Keyed outcome' ks' ls') :
    Keyed (outcome.then outcome') (ks ++ ks') (ls ++ ls') := by
  intro xs ys
  rw [List.append_assoc, List.append_assoc, h]
  cases outcome with
  | eq => exact h' rfl xs ys
  | lt => rfl
  | gt => rfl

/-- Equal numbers in front change nothing. -/
theorem Keyed.cons {outcome : Ordering} {ks ls : List Key} (h : Keyed outcome ks ls) (n : Int) :
    Keyed outcome (.number n :: ks) (.number n :: ls) := by
  have hnumber := keyed_number n n
  rw [Std.ReflOrd.compare_self] at hnumber
  exact hnumber.then fun _ => h

theorem keyed_refl (ks : List Key) : Keyed .eq ks ks := by
  intro xs ys
  induction ks with
  | nil => rfl
  | cons k ks ih =>
      have hself : Key.compare k k = .eq := Std.ReflCmp.compare_self
      change (Key.compare k k).then (compareKeys (ks ++ xs) (ks ++ ys)) = _
      rw [hself, ih]
      rfl

theorem keyed_of_lt {m n : Int} (h : m < n) (ks ls : List Key) :
    Keyed .lt (.number m :: ks) (.number n :: ls) := by
  intro xs ys
  have hlt : compare m n = .lt := Int.compare_eq_lt.2 h
  change (compare m n).then _ = _
  rw [hlt]
  rfl

theorem keyed_of_gt {m n : Int} (h : n < m) (ks ls : List Key) :
    Keyed .gt (.number m :: ks) (.number n :: ls) := by
  intro xs ys
  have hgt : compare m n = .gt := Int.compare_eq_gt.2 h
  change (compare m n).then _ = _
  rw [hgt]
  rfl

/-! ## Containers -/

section Containers

variable {α β : Type} {compare : α → β → Ordering} {f : α → List Key} {g : β → List Key}

/-- The key of a list: one before every member, zero at the end. -/
def listKey (f : α → List Key) : List α → List Key
  | [] => [.number 0]
  | a :: as => .number 1 :: (f a ++ listKey f as)

theorem listKey_map {ξ : Type} (g : ξ → α) (as : List ξ) :
    listKey f (as.map g) = listKey (fun a => f (g a)) as := by
  induction as with
  | nil => rfl
  | cons a as ih => rw [List.map_cons, listKey, listKey, ih]

theorem keyed_lists {as : List α} {bs : List β}
    (h : ∀ a ∈ as, ∀ b ∈ bs, Keyed (compare a b) (f a) (g b)) :
    Keyed (compareLists compare as bs) (listKey f as) (listKey g bs) := by
  induction as generalizing bs with
  | nil =>
      cases bs with
      | nil => exact keyed_nil.cons 0
      | cons b bs => exact keyed_of_lt (by decide) _ _
  | cons a as ih =>
      cases bs with
      | nil => exact keyed_of_gt (by decide) _ _
      | cons b bs =>
          refine ((h a List.mem_cons_self b List.mem_cons_self).then fun _ => ?_).cons 1
          exact ih fun a' ha' b' hb' =>
            h a' (List.mem_cons_of_mem a ha') b' (List.mem_cons_of_mem b hb')

/-- The key of an option: zero if it is absent, one before what is present. -/
def optionKey (f : α → List Key) : Option α → List Key
  | none => [.number 0]
  | some a => .number 1 :: f a

theorem keyed_options {a : Option α} {b : Option β}
    (h : ∀ x ∈ a, ∀ y ∈ b, Keyed (compare x y) (f x) (g y)) :
    Keyed (compareOptions compare a b) (optionKey f a) (optionKey g b) := by
  cases a with
  | none =>
      cases b with
      | none => exact keyed_nil.cons 0
      | some y => exact keyed_of_lt (by decide) _ _
  | some x =>
      cases b with
      | none => exact keyed_of_gt (by decide) _ _
      | some y => exact (h x rfl y rfl).cons 1

theorem sameLists_iff {same : α → β → Bool} {as : List α} {bs : List β} :
    sameLists same as bs = true ↔ List.Forall₂ (fun a b => same a b = true) as bs := by
  induction as generalizing bs with
  | nil => cases bs <;> simp [sameLists]
  | cons a as ih => cases bs <;> simp [sameLists, ih]

theorem compareLists_eq_iff {as : List α} {bs : List β} :
    compareLists compare as bs = .eq ↔ List.Forall₂ (fun a b => compare a b = .eq) as bs := by
  induction as generalizing bs with
  | nil => cases bs <;> simp [compareLists]
  | cons a as ih => cases bs <;> simp [compareLists, Ordering.then_eq_eq, ih]

theorem sameOptions_iff {same : α → β → Bool} {a : Option α} {b : Option β} :
    sameOptions same a b = true ↔ Option.Rel (fun a b => same a b = true) a b := by
  cases a <;> cases b <;> simp [sameOptions]

theorem compareOptions_eq_iff {a : Option α} {b : Option β} :
    compareOptions compare a b = .eq ↔ Option.Rel (fun a b => compare a b = .eq) a b := by
  cases a <;> cases b <;> simp [compareOptions]

end Containers

end AnswerSet
