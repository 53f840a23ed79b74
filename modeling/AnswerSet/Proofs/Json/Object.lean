import AnswerSet.Json.Basic
import Mathlib.Data.List.Nodup
import Mathlib.Data.String.Basic

/-!
# Looking up fields of objects

An object is built by putting its fields in the order of their keys. Looking up a key
in the sorted list finds what was put there last, and nothing is in the list that was
not put there. For fields with distinct keys, sorting therefore changes neither what
a look-up answers nor which fields there are.

Words of 32 and 64 bits survive the way through JSON integers.
-/

namespace AnswerSet.Json

variable {α : Type} {fields sorted : List (String × α)} {key : String} {value : α}

/-! ## Sorted fields -/

theorem lookup_cons_ite (k : String) (v : α) (rest : List (String × α)) (key : String) :
    ((k, v) :: rest).lookup key = if key = k then some v else rest.lookup key := by
  by_cases h : key = k
  · simp [h]
  · rw [List.lookup_cons, beq_false_of_ne h, if_neg h]

theorem lookup_insertField (key other : String) (value : α) (sorted : List (String × α)) :
    (insertField key value sorted).lookup other =
      if other = key then some value else sorted.lookup other := by
  induction sorted with
  | nil => rw [insertField, lookup_cons_ite]
  | cons field rest ih =>
      obtain ⟨k, v⟩ := field
      rw [insertField]
      split
      · rw [lookup_cons_ite]
      · split
        · rename_i hkey
          subst hkey
          simp only [lookup_cons_ite]
          split <;> rfl
        · rename_i hne
          simp only [lookup_cons_ite, ih]
          by_cases h : other = k
          · subst h
            simp [Ne.symm hne]
          · simp [h]

theorem mem_of_mem_insertField {field : String × α}
    (h : field ∈ insertField key value sorted) : field = (key, value) ∨ field ∈ sorted := by
  induction sorted with
  | nil => simpa [insertField] using h
  | cons head rest ih =>
      rw [insertField] at h
      split at h
      · simpa using h
      · split at h
        · simp only [List.mem_cons] at h ⊢
          tauto
        · simp only [List.mem_cons] at h ⊢
          rcases h with h | h
          · exact .inr (.inl h)
          · exact (ih h).imp_right .inr

theorem mem_of_mem_sortFields {field : String × α} (h : field ∈ sortFields fields) :
    field ∈ fields := by
  have hfold : ∀ (rest sorted : List (String × α)),
      field ∈ rest.foldl (fun sorted field => insertField field.1 field.2 sorted) sorted →
        field ∈ rest ∨ field ∈ sorted := by
    intro rest
    induction rest with
    | nil => exact fun sorted h => .inr h
    | cons head rest ih =>
        intro sorted h
        rcases ih _ h with h | h
        · exact .inl (List.mem_cons_of_mem head h)
        · exact (mem_of_mem_insertField h).imp_left fun h => by simp [h]
  simpa using hfold fields [] h

/-- Of fields with distinct keys each is found under its key. -/
theorem lookup_sortFields (hkeys : (fields.map Prod.fst).Nodup) (key : String) :
    (sortFields fields).lookup key = fields.lookup key := by
  have hfold : ∀ (rest sorted : List (String × α)), (rest.map Prod.fst).Nodup →
      (rest.foldl (fun sorted field => insertField field.1 field.2 sorted) sorted).lookup key =
        (rest.lookup key).or (sorted.lookup key) := by
    intro rest
    induction rest with
    | nil => simp
    | cons head rest ih =>
        intro sorted hrest
        obtain ⟨k, v⟩ := head
        rw [List.map_cons, List.nodup_cons] at hrest
        rw [List.foldl_cons, ih _ hrest.2, lookup_insertField, lookup_cons_ite]
        by_cases h : key = k
        · subst h
          have hnone : rest.lookup key = none := by
            refine List.lookup_eq_none_iff.2 fun p hp => bne_iff_ne.2 fun heq => ?_
            exact hrest.1 (List.mem_map.2 ⟨p, hp, heq.symm⟩)
          simp [hnone]
        · simp [h]
  simpa [sortFields] using hfold fields [] hkeys

theorem lookup_eq_some_of_mem (hkeys : (fields.map Prod.fst).Nodup)
    (hmem : (key, value) ∈ fields) : fields.lookup key = some value := by
  induction fields with
  | nil => simp at hmem
  | cons head rest ih =>
      obtain ⟨k, v⟩ := head
      rw [List.map_cons, List.nodup_cons] at hkeys
      rcases List.mem_cons.1 hmem with heq | hrest
      · cases heq
        exact List.lookup_cons_self
      · have hne : key ≠ k := by
          rintro rfl
          exact hkeys.1 (List.mem_map.2 ⟨(key, value), hrest, rfl⟩)
        rw [lookup_cons_ite, if_neg hne]
        exact ih hkeys.2 hrest

theorem mem_keys_of_lookup (h : fields.lookup key = some value) : key ∈ fields.map Prod.fst := by
  obtain ⟨before, after, rfl, -⟩ := List.lookup_eq_some_iff.1 h
  simp

theorem exists_lookup_of_mem_keys (h : key ∈ fields.map Prod.fst) :
    ∃ value, fields.lookup key = some value := by
  cases hfound : fields.lookup key with
  | some value => exact ⟨value, rfl⟩
  | none =>
      obtain ⟨field, hfield, rfl⟩ := List.mem_map.1 h
      exact absurd (List.lookup_eq_none_iff.1 hfound field hfield) (by simp)

/-- A field behind smaller keys becomes the last one. -/
theorem insertField_of_lt (h : ∀ field ∈ sorted, field.1 < key) :
    insertField key value sorted = sorted ++ [(key, value)] := by
  induction sorted with
  | nil => rfl
  | cons field rest ih =>
      obtain ⟨k, v⟩ := field
      have hk : k < key := h (k, v) List.mem_cons_self
      rw [insertField, if_neg (lt_asymm hk), if_neg hk.ne',
        ih fun field hfield => h field (List.mem_cons_of_mem _ hfield), List.cons_append]

/-- Putting a field at its place keeps the keys in order. -/
theorem pairwise_insertField (h : (sorted.map Prod.fst).Pairwise (· < ·)) :
    ((insertField key value sorted).map Prod.fst).Pairwise (· < ·) := by
  induction sorted with
  | nil => exact List.pairwise_singleton _ _
  | cons field rest ih =>
      obtain ⟨k, v⟩ := field
      rw [List.map_cons, List.pairwise_cons] at h
      rw [insertField]
      split
      · rename_i hlt
        refine List.pairwise_cons.2 ⟨?_, List.pairwise_cons.2 h⟩
        intro other hother
        rcases List.mem_cons.1 hother with rfl | hother
        · exact hlt
        · exact hlt.trans (h.1 other hother)
      · rename_i hnot
        split
        · rename_i heq
          subst heq
          exact List.pairwise_cons.2 h
        · rename_i hne
          have hlt : k < key := lt_of_le_of_ne (not_lt.1 hnot) (Ne.symm hne)
          refine List.pairwise_cons.2 ⟨?_, ih h.2⟩
          intro other hother
          obtain ⟨field, hfield, rfl⟩ := List.mem_map.1 hother
          rcases mem_of_mem_insertField hfield with rfl | hfield
          · exact hlt
          · exact h.1 field.1 (List.mem_map_of_mem hfield)

/-- The fields of an object are in the order of their keys. -/
theorem pairwise_sortFields (fields : List (String × α)) :
    ((sortFields fields).map Prod.fst).Pairwise (· < ·) := by
  have hfold : ∀ (rest sorted : List (String × α)), (sorted.map Prod.fst).Pairwise (· < ·) →
      ((rest.foldl (fun sorted field => insertField field.1 field.2 sorted) sorted).map
        Prod.fst).Pairwise (· < ·) := by
    intro rest
    induction rest with
    | nil => exact fun sorted h => h
    | cons field rest ih => exact fun sorted h => ih _ (pairwise_insertField h)
  exact hfold fields [] List.Pairwise.nil

/-! ## Words -/

@[simp] theorem int32?_toInt (n : Int32) : int32? n.toInt = some n := by
  have hlow := n.le_toInt
  have hhigh := n.toInt_lt
  rw [int32?, if_pos ⟨by omega, by omega⟩, Int32.ofInt_toInt]

@[simp] theorem uint64?_toNat (n : UInt64) : uint64? (n.toNat : Int) = some n := by
  have hhigh := n.toNat_lt
  rw [uint64?, if_pos ⟨by omega, by omega⟩]
  simp

theorem int32?_eq_some_iff {m : Int} {n : Int32} : int32? m = some n ↔ m = n.toInt := by
  constructor
  · intro h
    unfold int32? at h
    split at h
    · rename_i hrange
      cases h
      rw [Int32.toInt_ofInt_of_le (by omega) (by omega)]
    · cases h
  · rintro rfl
    exact int32?_toInt n

theorem uint64?_eq_some_iff {m : Int} {n : UInt64} : uint64? m = some n ↔ m = n.toNat := by
  constructor
  · intro h
    unfold uint64? at h
    split at h
    · rename_i hrange
      cases h
      simp
      omega
    · cases h
  · rintro rfl
    exact uint64?_toNat n

end AnswerSet.Json
