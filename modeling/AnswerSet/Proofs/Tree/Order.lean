import AnswerSet.Proofs.Tree
import AnswerSet.Proofs.Value.Order
import AnswerSet.Tree.Fingerprint

/-!
# Comparing trees

Erasing the locations of a tree at every depth leaves exactly what comparison looks
at. Trees are equal if what is left is equal; they compare equal if they are equal, and
equal trees have equal fingerprints. The order of trees is read off keys that list
kinds before values, so it is a total order up to equality.
-/

namespace AnswerSet

variable {ν μ ξ : Type}

/-! ## Replacing children -/

theorem structural_map (f : ν → μ) (vs : List (Value ν)) :
    structural (vs.map fun v => v.map f) = (structural vs).map fun v => v.map f := by
  rw [structural, List.filter_map]
  congr 1
  exact List.filter_congr fun v _ => by cases v <;> rfl

theorem mem_of_mem_structural {v : Value ν} {vs : List (Value ν)} (h : v ∈ structural vs) :
    v ∈ vs :=
  List.mem_of_mem_filter h

theorem structural_structural (vs : List (Value ν)) :
    structural (structural vs) = structural vs := by
  simp [structural]

theorem sameLists_map_left (same : ν → μ → Bool) (f : ξ → ν) (as : List ξ) (bs : List μ) :
    sameLists same (as.map f) bs = sameLists (fun a b => same (f a) b) as bs := by
  induction as generalizing bs with
  | nil => cases bs <;> rfl
  | cons a as ih => cases bs <;> simp [sameLists, ih]

theorem compareLists_map_left (compare : ν → μ → Ordering) (f : ξ → ν) (as : List ξ)
    (bs : List μ) :
    compareLists compare (as.map f) bs = compareLists (fun a b => compare (f a) b) as bs := by
  induction as generalizing bs with
  | nil => cases bs <;> rfl
  | cons a as ih => cases bs <;> simp [compareLists, ih]

namespace Value

theorem sameWith_map_left (same : ν → μ → Bool) (f : ξ → ν) (v : Value ξ) (w : Value μ) :
    sameWith same (v.map f) w = sameWith (fun a b => same (f a) b) v w := by
  cases v with
  | optional a =>
      cases w with
      | optional b => cases a <;> cases b <;> rfl
      | _ => rfl
  | nodes as =>
      cases w with
      | nodes bs => exact sameLists_map_left same f as bs
      | _ => rfl
  | _ => cases w <;> rfl

theorem compareWith_map_left (compare : ν → μ → Ordering) (f : ξ → ν) (v : Value ξ)
    (w : Value μ) :
    compareWith compare (v.map f) w = compareWith (fun a b => compare (f a) b) v w := by
  cases v with
  | optional a =>
      cases w with
      | optional b => cases a <;> cases b <;> rfl
      | _ => rfl
  | nodes as =>
      cases w with
      | nodes bs => exact compareLists_map_left compare f as bs
      | _ => rfl
  | _ => cases w <;> rfl

end Value

theorem Kind.ctorIdx_injective : Function.Injective Kind.ctorIdx := fun j k h => by
  rw [← j.ofNat_ctorIdx, h, k.ofNat_ctorIdx]

theorem Kind.compare_eq_iff {j k : Kind} : j.compare k = .eq ↔ j = k := by
  rw [compare, Nat.compare_eq_eq]
  exact ctorIdx_injective.eq_iff

namespace Tree

variable {α β γ : Type} (shortcut : α → β → Bool)

theorem sameWith_node (l : α) (k : Kind) (vs : List (Value (Tree α))) (u : Tree β) :
    (node l k vs).sameWith shortcut u =
      (shortcut l u.label || (k == u.kind &&
        sameLists (Value.sameWith (sameWith shortcut)) (structural vs) (structural u.values))) := by
  rw [sameWith, elim_node, structural_map, sameLists_map_left]
  simp only [Value.sameWith_map_left]

theorem compareWith_node (l : α) (k : Kind) (vs : List (Value (Tree α))) (u : Tree β) :
    (node l k vs).compareWith shortcut u =
      if shortcut l u.label then .eq
      else (k.compare u.kind).then
        (compareLists (Value.compareWith (compareWith shortcut)) (structural vs)
          (structural u.values)) := by
  rw [compareWith, elim_node, structural_map, compareLists_map_left]
  simp only [Value.compareWith_map_left]

/-! ## Equality -/

/-- The tree without labels and without the locations at every depth. -/
def erase : Tree α → Tree Unit :=
  fold fun _ k vs => .node () k (structural vs)

theorem erase_node (l : α) (k : Kind) (vs : List (Value (Tree α))) :
    (node l k vs).erase = .node () k ((structural vs).map fun v => v.map erase) := by
  rw [erase, fold_node, structural_map]

theorem erase_plain (t : Tree α) : t.plain.erase = t.erase :=
  fold_plain (fun k vs => Tree.node () k (structural vs)) t

/-- A shortcut joins only trees that agree up to labels, in families of trees that are
closed under subtrees. -/
structure SoundShortcut (P : Tree α → Prop) (Q : Tree β → Prop) : Prop where
  left : ∀ {t}, P t → ∀ v ∈ t.values, ∀ child ∈ v.children, P child
  right : ∀ {u}, Q u → ∀ w ∈ u.values, ∀ child ∈ w.children, Q child
  plain_eq : ∀ {t u}, P t → Q u → shortcut t.label u.label = true → t.plain = u.plain

theorem soundShortcut_false :
    SoundShortcut (fun (_ : α) (_ : β) => false) (fun _ => True) fun _ => True :=
  ⟨fun _ _ _ _ _ => trivial, fun _ _ _ _ _ => trivial, fun _ _ h => (by cases h)⟩

variable {shortcut} {P : Tree α → Prop} {Q : Tree β → Prop}

/-- Trees are equal exactly if they agree after erasing all locations. -/
theorem sameWith_iff_erase_eq (h : SoundShortcut shortcut P Q) {t : Tree α} {u : Tree β}
    (ht : P t) (hu : Q u) : t.sameWith shortcut u = true ↔ t.erase = u.erase := by
  induction t using induct generalizing u with
  | step l j vs ih =>
      cases u with
      | node m k ws =>
          by_cases hshort : shortcut l m = true
          · have hplain := h.plain_eq ht hu hshort
            rw [sameWith_node, label_node, hshort, ← erase_plain, hplain, erase_plain]
            simp
          · rw [sameWith_node, label_node, Bool.eq_false_iff.2 hshort, Bool.false_or,
              Bool.and_eq_true, beq_iff_eq, sameLists_iff, erase_node, erase_node,
              Tree.node.injEq, Value.map_eq_map_iff]
            simp only [Value.sameWith_iff, kind_node, values_node, true_and]
            exact and_congr_right fun _ => Value.forall₂_rel_congr fun v hv t htv w hw u huw =>
              ih v (mem_of_mem_structural hv) t htv
                (h.left ht v (mem_of_mem_structural hv) t htv)
                (h.right hu w (mem_of_mem_structural hw) u huw)

theorem same_iff_erase_eq {t : Tree α} {u : Tree β} : t.same u = true ↔ t.erase = u.erase :=
  sameWith_iff_erase_eq soundShortcut_false trivial trivial

/-- Labels do not count. -/
theorem same_plain (t : Tree α) (u : Tree β) : t.plain.same u.plain = t.same u := by
  rw [Bool.eq_iff_iff, same_iff_erase_eq, same_iff_erase_eq, erase_plain, erase_plain]

/-! ## Order -/

/-- The key of a tree: its kind, and the keys of its values but for locations. -/
def key : Tree α → List Key :=
  fold fun _ k vs => .number k.ctorIdx :: listKey (Value.key fun child => child) (structural vs)

theorem key_node (l : α) (k : Kind) (vs : List (Value (Tree α))) :
    (node l k vs).key = .number k.ctorIdx :: listKey (Value.key key) (structural vs) := by
  rw [key, fold_node, structural_map, listKey_map]
  simp only [Value.key_map]

theorem key_plain (t : Tree α) : t.plain.key = t.key :=
  fold_plain _ t

/-- Trees are ordered by their keys. -/
theorem keyed_compareWith (h : SoundShortcut shortcut P Q) {t : Tree α} {u : Tree β}
    (ht : P t) (hu : Q u) : Keyed (t.compareWith shortcut u) t.key u.key := by
  induction t using induct generalizing u with
  | step l j vs ih =>
      cases u with
      | node m k ws =>
          rw [compareWith_node, label_node]
          split
          · rename_i hshort
            rw [← key_plain, h.plain_eq ht hu hshort, key_plain]
            exact keyed_refl _
          · rw [key_node, key_node]
            refine (keyed_nat j.ctorIdx k.ctorIdx).then fun _ => keyed_lists fun v hv w hw => ?_
            exact Value.keyed_compareWith fun t htv u huw => ih v (mem_of_mem_structural hv) t htv
              (h.left ht v (mem_of_mem_structural hv) t htv)
              (h.right hu w (mem_of_mem_structural hw) u huw)

theorem compareWith_eq_compareKeys (h : SoundShortcut shortcut P Q) {t : Tree α} {u : Tree β}
    (ht : P t) (hu : Q u) : t.compareWith shortcut u = compareKeys t.key u.key :=
  (keyed_compareWith h ht hu).eq_compareKeys

theorem compare_eq_compareKeys (t : Tree α) (u : Tree β) :
    t.compare u = compareKeys t.key u.key :=
  compareWith_eq_compareKeys soundShortcut_false trivial trivial

theorem compare_plain (t : Tree α) (u : Tree β) : t.plain.compare u.plain = t.compare u := by
  rw [compare_eq_compareKeys, compare_eq_compareKeys, key_plain, key_plain]

/-- Nodes of different kinds are ordered by their kinds. -/
theorem compare_of_kind_ne {t : Tree α} {u : Tree β} (h : t.kind ≠ u.kind) :
    t.compare u = t.kind.compare u.kind := by
  cases t with
  | node l k vs =>
      have hne : k.compare u.kind ≠ .eq := fun heq => h (Kind.compare_eq_iff.1 heq)
      rw [compare, compareWith_node, if_neg Bool.false_ne_true]
      cases hkind : k.compare u.kind with
      | eq => exact absurd hkind hne
      | lt => exact hkind.symm
      | gt => exact hkind.symm

/-- Trees compare equal exactly if they agree after erasing all locations. -/
theorem compare_eq_iff_erase_eq {t : Tree α} {u : Tree β} :
    t.compare u = .eq ↔ t.erase = u.erase := by
  induction t using induct generalizing u with
  | step l j vs ih =>
      cases u with
      | node m k ws =>
          rw [compare, compareWith_node, if_neg Bool.false_ne_true, Ordering.then_eq_eq,
            Kind.compare_eq_iff, compareLists_eq_iff, erase_node, erase_node, Tree.node.injEq,
            Value.map_eq_map_iff]
          simp only [Value.compareWith_eq_iff, kind_node, values_node, true_and]
          exact and_congr_right fun _ => Value.forall₂_rel_congr fun v hv t ht _ _ u _ =>
            ih v (mem_of_mem_structural hv) t ht

theorem compareKeys_eq_iff {t : Tree α} {u : Tree β} :
    compareKeys t.key u.key = .eq ↔ t.erase = u.erase := by
  rw [← compare_eq_compareKeys, compare_eq_iff_erase_eq]

/-- Values of trees compare equal exactly if they agree after erasing all locations
below them. -/
theorem compareKeys_value_eq_iff {p : Value (Tree α)} {q : Value (Tree β)} :
    compareKeys (p.key key) (q.key key) = .eq ↔ p.map erase = q.map erase := by
  have hkeyed : Keyed (Value.compareWith compare p q) (p.key key) (q.key key) :=
    Value.keyed_compareWith fun t _ u _ => keyed_compareWith soundShortcut_false trivial trivial
  rw [← hkeyed.eq_compareKeys, Value.compareWith_eq_iff, Value.map_eq_iff]
  exact Value.Rel.congr_mem fun _ _ _ _ => compare_eq_iff_erase_eq

/-! ## Fingerprints -/

theorem fingerprint_node (l : α) (k : Kind) (vs : List (Value (Tree α))) :
    (node l k vs).fingerprint =
      .tag k.ctorIdx :: (structural vs).flatMap fun v => (v.map fingerprint).words := by
  rw [fingerprint, fold_node, structural_map, List.flatMap_map]

/-- A fingerprint shows nothing that erasing removes. -/
theorem fingerprint_erase (t : Tree α) : t.erase.fingerprint = t.fingerprint := by
  induction t using induct with
  | step l k vs ih =>
      rw [erase_node, fingerprint_node, fingerprint_node, structural_map, structural_structural,
        List.flatMap_map]
      congr 1
      refine List.flatMap_congr fun v hv => congrArg Value.words ?_
      rw [Value.map_map]
      exact Value.map_congr fun t ht => ih v (mem_of_mem_structural hv) t ht

theorem fingerprint_plain (t : Tree α) : t.plain.fingerprint = t.fingerprint :=
  fold_plain _ t

/-- Equal trees feed the same words to any hash function. -/
theorem fingerprint_eq_of_same {t : Tree α} {u : Tree β} (h : t.same u = true) :
    t.fingerprint = u.fingerprint := by
  rw [← t.fingerprint_erase, same_iff_erase_eq.1 h, u.fingerprint_erase]

end Tree

end AnswerSet
