import AnswerSet.Proofs.Store.Atomic

/-!
# Stores that change step by step

There are two ways to change a store: adding an instance whose values pass the check
of its kind, and writing one slot of an instance with a value that fits it. A store
evolves into another if it can be changed into it by such steps. The steps keep every
instance valid and every kind as it was, so a store that evolves from the empty one is
valid whatever has happened in between.

Most operations do not check what they write. `Judgement` is the small logic in which
they are shown to evolve the store: it speaks about the actions of one monad and only
needs to be closed under sequencing.
-/

namespace AnswerSet

/-! ## Steps -/

namespace Store

variable {s s' s'' : Store} {id : NodeId} {n : Node}

theorem node?_put (hn : s.node? id = some n) (m : Node) (x : NodeId) :
    (s.put id m).node? x = if x = id then some m else s.node? x := by
  have hlt : id.index < s.nodes.size := index_lt_of_node? hn
  by_cases hx : x = id
  · subst hx
    simp [node?, put, hlt]
  · have hindex : id.index ≠ x.index := fun h => hx (by cases x; cases id; simp_all)
    rw [if_neg hx]
    simp [node?, put, Array.getElem?_setIfInBounds_ne hindex]

theorem node?_alloc (s : Store) (n : Node) (x : NodeId) :
    ((alloc n).run s).2.node? x = if x.index = s.size then some n else s.node? x :=
  Array.getElem?_push

/-- One change of a store. -/
inductive Step (s : Store) : Store → Prop where
  /-- Adds an instance that passes the check. -/
  | alloc {n : Node} (h : n.kind.check n.values = .ok ()) : Step s ((Store.alloc n).run s).2
  /-- Writes a slot of an instance with a value that fits it. -/
  | write {id : NodeId} {n : Node} {i : Nat} {slot : Slot} {v : Value NodeId}
      (hn : s.node? id = some n) (hslot : n.kind.slots[i]? = some slot)
      (hv : v.fits slot = true) : Step s (s.put id { n with values := n.values.set i v })

theorem Step.valid (h : s.Step s') (hs : s.Valid) : s'.Valid := by
  intro x m hm
  cases h with
  | alloc hcheck =>
      rw [node?_alloc] at hm
      split at hm
      · cases hm
        exact Kind.check_eq_ok_iff.1 hcheck
      · exact hs hm
  | write hn hslot hv =>
      rw [node?_put hn] at hm
      split at hm
      · cases hm
        exact Kind.Admits.set (hs hn) hslot hv
      · exact hs hm

/-- The kind of an instance never changes. -/
theorem Step.kind_eq (h : s.Step s') (hn : s.node? id = some n) :
    ∃ m, s'.node? id = some m ∧ m.kind = n.kind := by
  cases h with
  | alloc hcheck => exact ⟨n, node?_alloc_of_some _ hn, rfl⟩
  | write hm hslot hv =>
      rw [node?_put hm]
      split
      · rename_i hid
        subst hid
        rw [hn, Option.some.injEq] at hm
        exact ⟨_, rfl, by rw [hm]⟩
      · exact ⟨n, hn, rfl⟩

/-- The second store arises from the first by finitely many steps. -/
def Evolves : Store → Store → Prop := Relation.ReflTransGen Step

namespace Evolves

theorem refl (s : Store) : s.Evolves s := Relation.ReflTransGen.refl

theorem trans (h : s.Evolves s') (h' : s'.Evolves s'') : s.Evolves s'' :=
  Relation.ReflTransGen.trans h h'

theorem of_step (h : s.Step s') : s.Evolves s' := Relation.ReflTransGen.single h

theorem alloc (s : Store) (hn : n.Valid) : s.Evolves ((Store.alloc n).run s).2 :=
  of_step (.alloc (Kind.check_eq_ok_iff.2 hn))

theorem valid (h : s.Evolves s') (hs : s.Valid) : s'.Valid := by
  induction h with
  | refl => exact hs
  | tail _ hstep ih => exact hstep.valid ih

theorem kind_eq (h : s.Evolves s') (hn : s.node? id = some n) :
    ∃ m, s'.node? id = some m ∧ m.kind = n.kind := by
  induction h with
  | refl => exact ⟨n, hn, rfl⟩
  | tail _ hstep ih =>
      obtain ⟨m, hm, hkind⟩ := ih
      obtain ⟨m', hm', hkind'⟩ := hstep.kind_eq hm
      exact ⟨m', hm', hkind'.trans hkind⟩

end Evolves

theorem valid_empty : Store.empty.Valid := by
  intro id n hn
  simp [empty, node?] at hn

/-! ## Checked operations -/

theorem fetch_eq_ok_iff : s.fetch id = .ok n ↔ s.node? id = some n := by
  cases h : s.node? id <;> simp [fetch, h]

theorem create_eq_ok_iff {k : Kind} {values : List (Value NodeId)} {answer : NodeId × Store} :
    s.create k values = .ok answer ↔
      k.Admits values ∧ (Store.alloc ⟨k, values⟩).run s = answer := by
  rw [← Kind.check_eq_ok_iff, create_eq, bind_eq_ok_iff]
  exact ⟨fun ⟨_, hcheck, h⟩ => ⟨hcheck, Except.ok.inj h⟩, fun ⟨hcheck, h⟩ => ⟨(), hcheck, h ▸ rfl⟩⟩

theorem set_eq_ok_iff {a : Attr} {v : Value NodeId} :
    s.set id a v = .ok s' ↔ ∃ n m, s.node? id = some n ∧ n.set a v = .ok m ∧ s.put id m = s' := by
  simp only [set_eq, bind_eq_ok_iff, fetch_eq_ok_iff]
  constructor
  · rintro ⟨n, hn, m, hm, h⟩
    exact ⟨n, m, hn, hm, Except.ok.inj h⟩
  · rintro ⟨n, m, hn, hm, rfl⟩
    exact ⟨n, hn, m, hm, rfl⟩

theorem Evolves.set {a : Attr} {v : Value NodeId} (h : s.set id a v = .ok s') : s.Evolves s' := by
  obtain ⟨n, m, hn, hm, rfl⟩ := set_eq_ok_iff.1 h
  obtain ⟨after, hafter, rfl⟩ := Node.set_eq_ok_iff.1 hm
  obtain ⟨i, slot, hslot, hv, rfl⟩ := Kind.assign_eq_ok_iff.1 hafter
  exact of_step (.write hn (Kind.slot?_eq_some_iff.1 hslot).2 hv)

theorem Evolves.update {changes : List (Attr × Value NodeId)} {answer : NodeId × Store}
    (h : s.update id changes = .ok answer) (hs : s.Valid) : s.Evolves answer.2 := by
  rw [update_eq] at h
  obtain ⟨n, hn, h⟩ := bind_eq_ok_iff.1 h
  obtain ⟨m, hm, h⟩ := bind_eq_ok_iff.1 h
  cases h
  exact .alloc s ((hs (fetch_eq_ok_iff.1 hn)).setAll hm)

end Store

/-! ## List views -/

/-- Writing without a check is writing the slot of the attribute. -/
theorem Node.overwrite_eq {n : Node} {a : Attr} {i : Nat} (hi : n.kind.slotIndex? a = some i)
    (v : Value NodeId) : n.overwrite a v = { n with values := n.values.set i v } := by
  rw [overwrite, hi]

/-- What an attribute holds stands in a slot of the schema. -/
theorem Node.exists_slot_of_get {n : Node} {a : Attr} {v : Value NodeId} (h : n.get a = .ok v) :
    ∃ i slot, n.kind.slot? a = some (i, slot) ∧ n.values[i]? = some v := by
  obtain ⟨i, hi, hv⟩ := Option.bind_eq_some_iff.1 (get_eq_ok_iff.1 h)
  obtain ⟨hlt, -⟩ := List.findIdx?_eq_some_iff_getElem.1 hi
  exact ⟨i, n.kind.slots[i], Kind.slot?_eq_some_iff.2 ⟨hi, List.getElem?_eq_getElem hlt⟩, hv⟩

namespace ListView

variable {τ α : Type} [ListElement τ] {view : ListView τ} {s s' : Store}

theorem evolves_of_edit [LawfulListElement τ] {change : ListEdit τ α} {answer : Except Error α}
    (hs : s.Valid) (h : (view.edit change).exec s = (answer, s')) : s.Evolves s' := by
  obtain ⟨_, hexec⟩ | ⟨n, v, list, hn, hget, hlist, hexec⟩ := view.exec_edit_cases change s <;>
    rw [hexec] at h <;> cases h
  · exact .refl s
  · obtain ⟨i, slot, hslot, hv⟩ := Node.exists_slot_of_get hget
    obtain ⟨w, hw, -, hfits⟩ := (hs hn).exists_get hslot
    rw [hv, Option.some.injEq] at hw
    subst hw
    -- The slot holds a list, so it takes every list.
    obtain ⟨hindex, hfound⟩ := Kind.slot?_eq_some_iff.1 hslot
    have hshape : slot.shape = ListElement.shape τ := by
      rw [← (Value.fits_iff.1 hfits).1, LawfulListElement.eq_toValue hlist]
      exact LawfulListElement.shape_toValue list
    rw [Node.overwrite_eq hindex]
    exact .of_step (.write hn hfound (LawfulListElement.fits_toValue hshape _))

/-- The slot of the view holds a list, and an edit of the list is a plain write of that
slot: it fails only where the edit itself does. -/
def Live (view : ListView τ) (s : Store) : Prop :=
  ∃ n i list, s.node? view.owner = some n ∧ n.kind.slotIndex? view.attr = some i ∧
    n.values[i]? = some (ListElement.toValue list) ∧ view.toList s = list ∧
    ∀ (α : Type) (change : ListEdit τ α), (view.edit change).exec s =
      ((change.run list).1, s.put view.owner
        { n with values := n.values.set i (ListElement.toValue (change.run list).2) })

theorem open?_eq_ok_iff {owner : NodeId} {a : Attr} :
    open? τ s owner a = .ok view ↔
      view = ⟨owner, a⟩ ∧ ∃ n i slot, s.node? owner = some n ∧ n.kind.slot? a = some (i, slot) ∧
        slot.shape = ListElement.shape τ := by
  cases hn : s.node? owner with
  | none => simp [open?, Store.fetch, hn, bind, Except.bind]
  | some n =>
      simp only [open?, Store.fetch, hn, bind, Except.bind, Kind.locate]
      cases hslot : n.kind.slot? a with
      | none => simp [hslot]
      | some found =>
          by_cases hshape : found.2.shape = ListElement.shape τ
          · simp [hslot, hshape, pure, Except.pure, eq_comm, Prod.ext_iff]
          · simp [hslot, hshape, throw, throwThe, MonadExceptOf.throw, Prod.ext_iff]

/-- A view that was opened once finds its list in every later store. -/
theorem live_of_open? [LawfulListElement τ] {owner : NodeId} {a : Attr}
    (h : open? τ s owner a = .ok view) (hevolves : s.Evolves s') (hs : s'.Valid) :
    view.Live s' := by
  obtain ⟨rfl, n, i, slot, hn, hslot, hshape⟩ := open?_eq_ok_iff.1 h
  obtain ⟨m, hm, hkind⟩ := hevolves.kind_eq hn
  rw [← hkind] at hslot
  obtain ⟨hindex, hfound⟩ := Kind.slot?_eq_some_iff.1 hslot
  obtain ⟨v, hv, hget, hfits⟩ := (hs hm).exists_get hslot
  obtain ⟨list, rfl⟩ := LawfulListElement.exists_toValue (τ := τ)
    ((Value.fits_iff.1 hfits).1.trans hshape)
  have hread : s'.get owner a = .ok (ListElement.toValue list) := by
    simp [Store.get, Store.fetch, hm, bind, Except.bind, hget]
  refine ⟨m, i, list, hm, hindex, hv, ?_, fun α change => ?_⟩
  · simp [toList, hread, ListElement.ofValue?_toValue]
  · rw [← Node.overwrite_eq hindex]
    exact exec_edit_of_list hm hget (ListElement.ofValue?_toValue list) change

end ListView

theorem ElementRef.evolves_of_set {τ : Type} [ListElement τ] [LawfulListElement τ]
    {ref : ElementRef τ} {s s' : Store} {element : τ} {answer : Except Error τ} (hs : s.Valid)
    (h : (ref.set element).exec s = (answer, s')) : s.Evolves s' := by
  rw [exec_set, Prod.mk.injEq] at h
  obtain ⟨-, rfl⟩ := h
  exact ListView.evolves_of_edit hs Prod.mk.eta.symm

end AnswerSet
