import AnswerSet.Proofs.Value
import AnswerSet.Store.Build

/-!
# Following the schema

A list of values follows the schema of a kind if it has one value per slot and each
value fits its slot, both in shape and in domain. The check of a complete list
accepts exactly such lists, a single assignment keeps a list among them, and the
arguments of typed construction always give one.

A store follows the schema if every instance does. Nothing is said about which
instances are children of which.
-/

namespace AnswerSet

theorem Value.fits_iff {ν : Type} {slot : Slot} {v : Value ν} :
    v.fits slot = true ↔ v.shape = slot.shape ∧ v.inDomain slot.domain = true := by
  simp [Value.fits]

namespace Kind

variable {ν μ : Type} {k : Kind}

/-- There is one value per slot, and each fits its slot. -/
def Admits (k : Kind) (values : List (Value ν)) : Prop :=
  List.Forall₂ (fun slot v => v.fits slot = true) k.slots values

theorem Admits.length_eq {values : List (Value ν)} (h : k.Admits values) :
    k.slots.length = values.length :=
  List.Forall₂.length_eq h

theorem checkValue_eq_ok_iff {slot : Slot} {v : Value ν} :
    k.checkValue slot v = .ok () ↔ v.fits slot = true := by
  rw [Value.fits_iff]
  by_cases hshape : v.shape = slot.shape
  · cases v with
    | int n =>
        by_cases hn : slot.domain.contains n = true <;>
          simp [checkValue, Value.inDomain, hshape, hn]
    | _ => simp [checkValue, Value.inDomain, hshape]
  · unfold checkValue
    rw [if_pos hshape]
    simp [hshape]

theorem checkSlots_eq_ok_iff {slots : List Slot} {values : List (Value ν)}
    (hlength : slots.length = values.length) :
    k.checkSlots slots values = .ok () ↔
      List.Forall₂ (fun slot v => v.fits slot = true) slots values := by
  induction slots generalizing values with
  | nil =>
      obtain rfl : values = [] := List.length_eq_zero_iff.1 hlength.symm
      simp [checkSlots]
  | cons slot slots ih =>
      cases values with
      | nil => simp at hlength
      | cons v vs =>
          have hrest := ih (Nat.succ.inj hlength)
          rw [List.forall₂_cons, ← hrest, ← checkValue_eq_ok_iff (k := k), checkSlots]
          cases k.checkValue slot v <;> simp [bind, Except.bind]

/-- The check accepts exactly the lists that follow the schema. -/
theorem check_eq_ok_iff {values : List (Value ν)} :
    k.check values = .ok () ↔ k.Admits values := by
  by_cases hlength : k.slots.length = values.length
  · rw [check, if_neg (not_not_intro hlength)]
    exact checkSlots_eq_ok_iff hlength
  · rw [check, if_pos hlength]
    exact ⟨fun h => (by cases h), fun h => absurd h.length_eq hlength⟩

/-- Values that fit the same slots are admitted alike. -/
theorem Admits.of_fits {values : List (Value ν)} {others : List (Value μ)} (h : k.Admits values)
    (hfits : List.Forall₂ (fun v w => ∀ slot, Value.fits slot v = Value.fits slot w)
      values others) : k.Admits others := by
  unfold Admits at h ⊢
  generalize k.slots = slots at h ⊢
  induction h generalizing others with
  | nil => cases hfits with | nil => exact .nil
  | cons hv _ ih =>
      cases hfits with
      | cons hvw hvs => exact .cons ((hvw _).symm.trans hv) (ih hvs)

/-- Only shapes and integers matter, so exchanging children keeps values admitted. -/
theorem Admits.of_rel {R : ν → μ → Prop} {values : List (Value ν)} {others : List (Value μ)}
    (h : k.Admits values) (hrel : List.Forall₂ (Value.Rel R) values others) :
    k.Admits others :=
  h.of_fits (hrel.imp fun _ _ hvw slot => hvw.fits_eq slot)

theorem admits_map_iff {f : ν → μ} {values : List (Value ν)} :
    k.Admits (values.map fun v => v.map f) ↔ k.Admits values := by
  have hrel : List.Forall₂ (Value.Rel fun _ _ => True) values (values.map fun v => v.map f) :=
    Value.forall₂_rel_map fun _ _ _ _ => trivial
  exact ⟨fun h => h.of_rel (List.Forall₂.flip (hrel.imp fun _ _ hv => hv.flip)),
    fun h => h.of_rel hrel⟩

theorem slot?_eq_some_iff {a : Attr} {i : Nat} {slot : Slot} :
    k.slot? a = some (i, slot) ↔ k.slotIndex? a = some i ∧ k.slots[i]? = some slot := by
  simp only [slot?, Option.bind_eq_bind, Option.bind_eq_some_iff, Option.pure_def,
    Option.some.injEq, Prod.mk.injEq]
  constructor
  · rintro ⟨j, hj, t, ht, rfl, rfl⟩
    exact ⟨hj, ht⟩
  · rintro ⟨hi, hslot⟩
    exact ⟨i, hi, slot, hslot, rfl, rfl⟩

/-- Every slot is found by its attribute, since no attribute occurs twice. -/
theorem slot?_of_getElem? {i : Nat} {slot : Slot} (h : k.slots[i]? = some slot) :
    k.slot? slot.attr = some (i, slot) := by
  refine slot?_eq_some_iff.2 ⟨?_, h⟩
  obtain ⟨hi, rfl⟩ := List.getElem?_eq_some_iff.1 h
  refine List.findIdx?_eq_some_iff_getElem.2 ⟨hi, by simp, fun j hj hattr => ?_⟩
  have hattrs : k.attrs[j]? = k.attrs[i]? := by
    simpa [attrs, hi, Nat.lt_trans hj hi] using hattr
  have hji := (List.getElem?_inj (by simp [attrs]; omega) k.nodup_attrs).1 hattrs
  omega

/-- A slot of the schema has its value in every admitted list. -/
theorem Admits.exists_value {values : List (Value ν)} (h : k.Admits values) {i : Nat}
    {slot : Slot} (hslot : k.slots[i]? = some slot) :
    ∃ v, values[i]? = some v ∧ v.fits slot = true := by
  obtain ⟨hi, rfl⟩ := List.getElem?_eq_some_iff.1 hslot
  have hi' : i < values.length := h.length_eq ▸ hi
  exact ⟨values[i], List.getElem?_eq_getElem hi', h.get hi hi'⟩

theorem mem_of_valueOf? {values : List (Value ν)} {a : Attr} {v : Value ν}
    (h : k.valueOf? values a = some v) : v ∈ values := by
  obtain ⟨i, -, hi⟩ := Option.bind_eq_some_iff.1 h
  exact List.mem_of_getElem? hi

/-- A slot of the schema is found by its attribute in every admitted list. -/
theorem Admits.exists_valueOf? {values : List (Value ν)} (h : k.Admits values) {slot : Slot}
    (hslot : slot ∈ k.slots) :
    ∃ v, k.valueOf? values slot.attr = some v ∧ v.fits slot = true := by
  obtain ⟨i, hi⟩ := List.mem_iff_getElem?.1 hslot
  obtain ⟨v, hv, hfits⟩ := h.exists_value hi
  obtain ⟨hindex, -⟩ := slot?_eq_some_iff.1 (slot?_of_getElem? hi)
  refine ⟨v, ?_, hfits⟩
  rw [valueOf?, hindex]
  exact hv

/-- Every value of an admitted list is found by the attribute of some slot. -/
theorem Admits.exists_slot {values : List (Value ν)} (h : k.Admits values) {v : Value ν}
    (hv : v ∈ values) : ∃ slot ∈ k.slots, k.valueOf? values slot.attr = some v := by
  obtain ⟨i, hi⟩ := List.mem_iff_getElem?.1 hv
  have hlt : i < k.slots.length := h.length_eq ▸ (List.getElem?_eq_some_iff.1 hi).1
  have hslot : k.slots[i]? = some k.slots[i] := List.getElem?_eq_getElem hlt
  refine ⟨k.slots[i], List.getElem_mem hlt, ?_⟩
  rw [valueOf?, (slot?_eq_some_iff.1 (slot?_of_getElem? hslot)).1]
  exact hi

theorem valueOf?_map (f : Value ν → Value μ) (values : List (Value ν)) (a : Attr) :
    k.valueOf? (values.map f) a = (k.valueOf? values a).map f := by
  rw [valueOf?, valueOf?]
  cases k.slotIndex? a with
  | none => rfl
  | some i => exact List.getElem?_map

theorem valueOf?_rel {R : ν → μ → Prop} {values : List (Value ν)} {others : List (Value μ)}
    (hrel : List.Forall₂ (Value.Rel R) values others) {a : Attr} {v : Value ν}
    (h : k.valueOf? values a = some v) : ∃ w, k.valueOf? others a = some w ∧ Value.Rel R v w := by
  obtain ⟨i, hindex, hv⟩ := Option.bind_eq_some_iff.1 h
  obtain ⟨hi, rfl⟩ := List.getElem?_eq_some_iff.1 hv
  have hi' : i < others.length := hrel.length_eq ▸ hi
  refine ⟨others[i], ?_, hrel.get hi hi'⟩
  rw [valueOf?, hindex]
  exact List.getElem?_eq_getElem hi'

theorem Admits.set {values : List (Value ν)} (h : k.Admits values) {i : Nat} {slot : Slot}
    (hslot : k.slots[i]? = some slot) {v : Value ν} (hv : v.fits slot = true) :
    k.Admits (values.set i v) := by
  refine List.forall₂_iff_get.2 ⟨by simpa using h.length_eq, fun j hj hj' => ?_⟩
  have hjv : j < values.length := by simpa using hj'
  by_cases hij : i = j
  · subst hij
    rw [List.getElem?_eq_getElem hj, Option.some.injEq] at hslot
    simpa [hslot] using hv
  · simpa [hij] using h.get hj hjv

/-- An assignment succeeds exactly when the kind owns the attribute and the value fits
its slot; it then replaces the value at that place. -/
theorem assign_eq_ok_iff {values after : List (Value ν)} {a : Attr} {v : Value ν} :
    k.assign values a v = .ok after ↔
      ∃ i slot, k.slot? a = some (i, slot) ∧ v.fits slot = true ∧ after = values.set i v := by
  cases hfound : k.slot? a with
  | none => simp [assign, locate, hfound, bind, Except.bind]
  | some found =>
      obtain ⟨i, slot⟩ := found
      simp only [Option.some.injEq, Prod.mk.injEq]
      have hcheck : k.checkValue slot v = .ok () ↔ v.fits slot = true := checkValue_eq_ok_iff
      have hrun : k.assign values a v =
          if v.shape ≠ slot.shape then .error (v.mismatch slot.shape)
          else (k.checkValue slot v).map fun _ => values.set i v := by
        simp only [assign, locate, hfound, bind, Except.bind]
        split
        · rfl
        · cases k.checkValue slot v <;> rfl
      rw [hrun]
      by_cases hfits : v.fits slot = true
      · rw [if_neg (not_not_intro (Value.fits_iff.1 hfits).1), hcheck.2 hfits]
        constructor
        · rintro ⟨⟩
          exact ⟨i, slot, ⟨rfl, rfl⟩, hfits, rfl⟩
        · rintro ⟨_, _, ⟨rfl, rfl⟩, -, rfl⟩
          rfl
      · constructor
        · intro h
          split at h
          · cases h
          · cases hv : k.checkValue slot v with
            | error e => rw [hv] at h; cases h
            | ok u => exact absurd (hcheck.1 hv) hfits
        · rintro ⟨_, _, ⟨rfl, rfl⟩, hv, -⟩
          exact absurd hv hfits

/-- Whether and how an assignment fails does not depend on the values before it. -/
theorem assign_uniform (k : Kind) (a : Attr) (v : Value ν) :
    (∃ e, ∀ values, k.assign values a v = .error e) ∨
      ∃ i, ∀ values, k.assign values a v = .ok (values.set i v) := by
  cases hlocate : k.locate a with
  | error e => exact .inl ⟨e, fun values => by rw [assign, hlocate]; rfl⟩
  | ok found =>
      by_cases hshape : v.shape = found.2.shape
      · cases hcheck : k.checkValue found.2 v with
        | error e =>
            refine .inl ⟨e, fun values => ?_⟩
            simp [assign, hlocate, hshape, hcheck, bind, Except.bind]
        | ok u =>
            refine .inr ⟨found.1, fun values => ?_⟩
            simp [assign, hlocate, hshape, hcheck, bind, Except.bind, pure, Except.pure]
      · refine .inl ⟨v.mismatch found.2.shape, fun values => ?_⟩
        simp [assign, hlocate, hshape, bind, Except.bind, throw, throwThe, MonadExceptOf.throw]

theorem Admits.assign {values after : List (Value ν)} (h : k.Admits values) {a : Attr}
    {v : Value ν} (hassign : k.assign values a v = .ok after) : k.Admits after := by
  obtain ⟨i, slot, hslot, hv, rfl⟩ := assign_eq_ok_iff.1 hassign
  exact h.set (slot?_eq_some_iff.1 hslot).2 hv

end Kind

/-! ## Typed construction -/

theorem Enumerated.index_lt {ε : Type} [Enumerated ε] (e : ε) :
    index e < (members : List ε).length :=
  (List.getElem?_eq_some_iff.1 (members_index e)).1

theorem Enumeration.count_le (e : Enumeration) : e.count ≤ 9 := by
  cases e <;> decide

/-- An argument is stored as a value that fits its slot. -/
theorem SlotType.store_fits (slot : Slot) (arg : slot.type.Arg) :
    (slot.type.store arg).fits slot = true := by
  obtain ⟨a, t⟩ := slot
  rw [Value.fits_iff]
  cases t with
  | unsigned =>
      have hlt : arg.toNat < 2 ^ 16 := UInt16.toNat_lt arg
      have hint : (Int32.ofNat arg.toNat).toInt = arg.toNat :=
        Int32.toInt_ofNat_of_lt (by omega)
      refine ⟨rfl, ?_⟩
      change decide (0 ≤ (Int32.ofNat arg.toNat).toInt) = true
      simp [hint]
  | flag => cases arg <;> exact ⟨rfl, rfl⟩
  | choice e =>
      have hlt : Enumerated.index arg < e.count := Enumerated.index_lt arg
      have hcount := e.count_le
      have hint : (Enumerated.number arg).toInt = Enumerated.index arg :=
        Int32.toInt_ofNat_of_lt (by omega)
      refine ⟨rfl, ?_⟩
      change (decide (0 ≤ (Enumerated.number arg).toInt) &&
        decide ((Enumerated.number arg).toInt < e.count)) = true
      simp [hint, hlt]
  | _ => exact ⟨rfl, rfl⟩

theorem Args.forall₂_values (slots : List Slot) (args : Args slots) :
    List.Forall₂ (fun slot v => v.fits slot = true) slots (Args.values slots args) := by
  induction slots with
  | nil => exact .nil
  | cons slot slots ih => exact .cons (SlotType.store_fits slot args.1) (ih args.2)

theorem Kind.admits_values (k : Kind) (args : Args k.slots) :
    k.Admits (Args.values k.slots args) :=
  Args.forall₂_values k.slots args

/-! ## Instances and stores -/

/-- The instance follows the schema of its kind. -/
def Node.Valid (n : Node) : Prop := n.kind.Admits n.values

/-- Every instance follows the schema of its kind. -/
def Store.Valid (s : Store) : Prop := ∀ ⦃id n⦄, s.node? id = some n → n.Valid

namespace Node

variable {n m : Node}

theorem set_eq_ok_iff {a : Attr} {v : Value NodeId} :
    n.set a v = .ok m ↔ ∃ after, n.kind.assign n.values a v = .ok after ∧ ⟨n.kind, after⟩ = m := by
  rw [Node.set, bind_eq_ok_iff]
  exact exists_congr fun after => and_congr_right fun _ =>
    ⟨Except.ok.inj, congrArg Except.ok⟩

theorem Valid.set (hn : n.Valid) {a : Attr} {v : Value NodeId} (h : n.set a v = .ok m) :
    m.Valid := by
  obtain ⟨after, hassign, rfl⟩ := set_eq_ok_iff.1 h
  exact Kind.Admits.assign hn hassign

theorem Valid.setAll (hn : n.Valid) {changes : List (Attr × Value NodeId)}
    (h : n.setAll changes = .ok m) : m.Valid := by
  induction changes generalizing n with
  | nil => cases h; exact hn
  | cons change changes ih =>
      obtain ⟨a, v⟩ := change
      obtain ⟨next, hset, h⟩ := bind_eq_ok_iff.1 h
      exact ih (hn.set hset) h

/-- Reading an attribute that the kind owns finds a value that fits the slot. -/
theorem Valid.exists_get (hn : n.Valid) {a : Attr} {i : Nat} {slot : Slot}
    (h : n.kind.slot? a = some (i, slot)) :
    ∃ v, n.values[i]? = some v ∧ n.get a = .ok v ∧ v.fits slot = true := by
  obtain ⟨hindex, hslot⟩ := Kind.slot?_eq_some_iff.1 h
  obtain ⟨v, hv, hfits⟩ := Kind.Admits.exists_value hn hslot
  exact ⟨v, hv, by simp [Node.get, Kind.valueOf?, hindex, hv], hfits⟩

/-- The items name the attributes of the schema in order. -/
theorem Valid.items_attrs (hn : n.Valid) : n.items.map Prod.fst = n.kind.attrs := by
  have hlength := hn.length_eq
  exact List.map_fst_zip (by simp [Kind.attrs, hlength])

/-- The items have the shapes of the schema in order. -/
theorem Valid.items_shapes (hn : n.Valid) :
    n.items.map (fun item => item.2.shape) = n.kind.slots.map Slot.shape := by
  have hlength := hn.length_eq
  have hsnd : n.items.map Prod.snd = n.values :=
    List.map_snd_zip (by simp [Kind.attrs, hlength])
  have hshapes : n.values.map Value.shape = n.kind.slots.map Slot.shape := by
    refine (List.forall₂_eq_eq_eq ▸ List.forall₂_map_left_iff.2
      (List.forall₂_map_right_iff.2 ?_) : _ = _)
    exact (List.Forall₂.flip hn).imp fun v slot hv => (Value.fits_iff.1 hv).1
  rw [← hshapes, ← hsnd, List.map_map]
  rfl

end Node

end AnswerSet
