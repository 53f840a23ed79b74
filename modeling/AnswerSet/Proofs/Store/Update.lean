import AnswerSet.Proofs.Frame
import AnswerSet.Proofs.Store.Congruence

/-!
# Updating a copy

An update makes its changes to a list of values and allocates the result. The same is
reached by allocating a plain copy first and writing the changes into it, one after the
other, through the store. The two ways agree in every detail: they accept the same
changes, report the same error, and leave the same store.

What a kind accepts for an attribute does not depend on the values that are there. So
an update succeeds exactly if each of its changes would be accepted alone, and the first
one that would not decides how it fails.
-/

namespace AnswerSet

/-! ## One change -/

namespace Kind

variable {ν : Type} {k : Kind} {a : Attr} {v : Value ν} {values : List (Value ν)} {e : Error}

/-- The kind owns the attribute, and the value fits its slot. -/
def Accepts (k : Kind) (a : Attr) (v : Value ν) : Prop :=
  ∃ i slot, k.slot? a = some (i, slot) ∧ v.fits slot = true

/-- The reasons for which an assignment is refused. A foreign attribute counts before a
wrong shape, and only an integer of the right shape can be outside its domain. -/
inductive Refuses (k : Kind) (a : Attr) : Value ν → Error → Prop where
  | foreign {v : Value ν} (h : k.slot? a = none) : Refuses k a v (.unknownAttribute k a)
  | shape {v : Value ν} {i : Nat} {slot : Slot} (h : k.slot? a = some (i, slot))
      (hshape : v.shape ≠ slot.shape) : Refuses k a v (.typeMismatch slot.shape v.shape)
  | domain {n : Int32} {i : Nat} {slot : Slot} (h : k.slot? a = some (i, slot))
      (hshape : slot.shape = .int) (hdomain : slot.domain.contains n = false) :
      Refuses k a (.int n) (.invalidArgument (.outsideDomain k slot n))

theorem checkValue_int_eq_error {slot : Slot} {n : Int32} (hshape : slot.shape = .int)
    (hdomain : slot.domain.contains n = false) :
    k.checkValue slot (.int n : Value ν) = .error (.invalidArgument (.outsideDomain k slot n)) := by
  simp [checkValue, Value.shape, hshape, hdomain]

theorem Refuses.assign_eq_error (h : k.Refuses a v e) (values : List (Value ν)) :
    k.assign values a v = .error e := by
  cases h with
  | foreign h => simp [assign, locate, h, bind, Except.bind]
  | shape h hshape =>
      simp [assign, locate, h, hshape, bind, Except.bind, throw, throwThe, MonadExceptOf.throw,
        Value.mismatch]
  | domain h hshape hdomain =>
      simp [assign, locate, h, Value.shape, hshape, bind, Except.bind,
        checkValue_int_eq_error hshape hdomain]

/-- Every value is accepted or refused for one of the reasons. -/
theorem accepts_or_refuses (k : Kind) (a : Attr) (v : Value ν) :
    k.Accepts a v ∨ ∃ e, k.Refuses a v e := by
  cases hslot : k.slot? a with
  | none => exact .inr ⟨_, .foreign hslot⟩
  | some found =>
      obtain ⟨i, slot⟩ := found
      by_cases hshape : v.shape = slot.shape
      · by_cases hdomain : v.inDomain slot.domain = true
        · exact .inl ⟨i, slot, hslot, Value.fits_iff.2 ⟨hshape, hdomain⟩⟩
        · cases v with
          | int n =>
              have houtside : slot.domain.contains n = false := by
                simpa [Value.inDomain] using hdomain
              exact .inr ⟨_, .domain hslot hshape.symm houtside⟩
          | _ => exact absurd rfl hdomain
      · exact .inr ⟨_, .shape hslot hshape⟩

theorem exists_assign_iff : (∃ after, k.assign values a v = .ok after) ↔ k.Accepts a v := by
  simp only [assign_eq_ok_iff]
  constructor
  · rintro ⟨after, i, slot, hslot, hv, -⟩
    exact ⟨i, slot, hslot, hv⟩
  · rintro ⟨i, slot, hslot, hv⟩
    exact ⟨_, i, slot, hslot, hv, rfl⟩

theorem assign_eq_error_iff : k.assign values a v = .error e ↔ k.Refuses a v e := by
  constructor
  · intro h
    rcases k.accepts_or_refuses a v with hv | ⟨e', he'⟩
    · obtain ⟨after, hafter⟩ := exists_assign_iff.2 hv
      rw [h] at hafter
      cases hafter
    · rw [he'.assign_eq_error] at h
      cases h
      exact he'
  · intro h
    exact h.assign_eq_error values

/-- A complete list of values is admitted if each is accepted for its attribute. -/
theorem admits_iff_accepts : k.Admits values ↔ List.Forall₂ k.Accepts k.attrs values := by
  rw [Admits, attrs, List.forall₂_map_left_iff]
  constructor
  · intro h
    refine List.forall₂_iff_zip.2 ⟨h.length_eq, fun {slot v} hmem => ?_⟩
    obtain ⟨i, hi⟩ := List.mem_iff_getElem?.1 (List.of_mem_zip hmem).1
    exact ⟨i, slot, slot?_of_getElem? hi, (List.forall₂_iff_zip.1 h).2 hmem⟩
  · intro h
    refine List.forall₂_iff_zip.2 ⟨h.length_eq, fun {slot v} hmem => ?_⟩
    obtain ⟨i, hi⟩ := List.mem_iff_getElem?.1 (List.of_mem_zip hmem).1
    obtain ⟨j, slot', hslot', hv⟩ := (List.forall₂_iff_zip.1 h).2 hmem
    rw [slot?_of_getElem? hi] at hslot'
    cases hslot'
    exact hv

end Kind

/-! ## Changes in sequence -/

namespace Node

variable {n m : Node} {a : Attr} {v : Value NodeId} {changes : List (Attr × Value NodeId)}
variable {e : Error}

theorem exists_set_iff : (∃ m, n.set a v = .ok m) ↔ n.kind.Accepts a v := by
  have hassign : (∃ after, n.kind.assign n.values a v = .ok after) ↔ n.kind.Accepts a v :=
    Kind.exists_assign_iff
  rw [← hassign]
  simp only [set_eq_ok_iff]
  constructor
  · rintro ⟨_, after, hafter, -⟩
    exact ⟨after, hafter⟩
  · rintro ⟨after, hafter⟩
    exact ⟨_, after, hafter, rfl⟩

theorem set_eq_error_iff : n.set a v = .error e ↔ n.kind.Refuses a v e := by
  have hassign : n.kind.assign n.values a v = .error e ↔ n.kind.Refuses a v e :=
    Kind.assign_eq_error_iff
  rw [← hassign, set]
  cases n.kind.assign n.values a v <;> simp [bind, Except.bind, pure, Except.pure]

theorem kind_eq_of_set (h : n.set a v = .ok m) : m.kind = n.kind := by
  obtain ⟨after, -, rfl⟩ := set_eq_ok_iff.1 h
  rfl

theorem Valid.get_of_set (hn : n.Valid) (h : n.set a v = .ok m) (b : Attr) :
    m.get b = if b = a then .ok v else n.get b := by
  obtain ⟨after, hafter, rfl⟩ := set_eq_ok_iff.1 h
  obtain ⟨i, slot, hslot, -, rfl⟩ := Kind.assign_eq_ok_iff.1 hafter
  obtain ⟨hindex, -⟩ := Kind.slot?_eq_some_iff.1 hslot
  split
  · rename_i hb
    subst hb
    obtain ⟨_, hvalue, -⟩ := hn.exists_get hslot
    exact get_set_self hindex (List.getElem?_eq_some_iff.1 hvalue).1
  · rename_i hb
    exact get_set_of_ne hindex hb

theorem setAll_cons (n : Node) (a : Attr) (v : Value NodeId)
    (changes : List (Attr × Value NodeId)) :
    n.setAll ((a, v) :: changes) = n.set a v >>= fun m => m.setAll changes := rfl

/-- Changes succeed together exactly if each would succeed alone. -/
theorem exists_setAll_iff :
    (∃ m, n.setAll changes = .ok m) ↔ ∀ change ∈ changes, n.kind.Accepts change.1 change.2 := by
  induction changes generalizing n with
  | nil => exact ⟨fun _ change h => absurd h List.not_mem_nil, fun _ => ⟨n, rfl⟩⟩
  | cons change changes ih =>
      obtain ⟨a, v⟩ := change
      rw [List.forall_mem_cons, ← exists_set_iff, setAll_cons]
      simp only [bind_eq_ok_iff]
      constructor
      · rintro ⟨m, next, hnext, hm⟩
        refine ⟨⟨next, hnext⟩, ?_⟩
        rw [← kind_eq_of_set hnext]
        exact ih.1 ⟨m, hm⟩
      · rintro ⟨⟨next, hnext⟩, hrest⟩
        rw [← kind_eq_of_set hnext] at hrest
        obtain ⟨m, hm⟩ := ih.2 hrest
        exact ⟨m, next, hnext, hm⟩

/-- Changes fail as the first of them that is refused. -/
theorem setAll_eq_error_iff :
    n.setAll changes = .error e ↔ ∃ before a v after, changes = before ++ (a, v) :: after ∧
      (∀ change ∈ before, n.kind.Accepts change.1 change.2) ∧ n.kind.Refuses a v e := by
  constructor
  · intro h
    induction changes generalizing n with
    | nil => cases h
    | cons change changes ih =>
        obtain ⟨a, v⟩ := change
        rw [setAll_cons] at h
        cases hset : n.set a v with
        | error e' =>
            rw [hset] at h
            cases h
            exact ⟨[], a, v, changes, rfl, by simp, set_eq_error_iff.1 hset⟩
        | ok next =>
            rw [hset] at h
            obtain ⟨before, b, w, after, rfl, hbefore, hrefuses⟩ := ih h
            rw [kind_eq_of_set hset] at hbefore hrefuses
            refine ⟨(a, v) :: before, b, w, after, rfl, ?_, hrefuses⟩
            exact List.forall_mem_cons.2 ⟨exists_set_iff.1 ⟨next, hset⟩, hbefore⟩
  · rintro ⟨before, a, v, after, rfl, hbefore, hrefuses⟩
    induction before generalizing n with
    | nil =>
        rw [List.nil_append, setAll_cons, set_eq_error_iff.2 hrefuses]
        rfl
    | cons change before ih =>
        obtain ⟨b, w⟩ := change
        obtain ⟨hchange, hbefore⟩ := List.forall_mem_cons.1 hbefore
        obtain ⟨next, hnext⟩ := exists_set_iff.2 hchange
        rw [List.cons_append, setAll_cons, hnext]
        rw [← kind_eq_of_set hnext] at hbefore hrefuses
        exact ih hbefore hrefuses

theorem kind_eq_of_setAll (h : n.setAll changes = .ok m) : m.kind = n.kind := by
  induction changes generalizing n with
  | nil => cases h; rfl
  | cons change changes ih =>
      obtain ⟨next, hnext, h⟩ := bind_eq_ok_iff.1 h
      rw [ih h, kind_eq_of_set hnext]

/-- Of several changes to one attribute the last is read back. -/
theorem Valid.get_of_setAll (hn : n.Valid) (h : n.setAll changes = .ok m) (a : Attr) :
    m.get a = ((changes.reverse.lookup a).map .ok).getD (n.get a) := by
  induction changes generalizing n with
  | nil => cases h; rfl
  | cons change changes ih =>
      obtain ⟨b, v⟩ := change
      obtain ⟨next, hnext, h⟩ := bind_eq_ok_iff.1 h
      rw [ih (hn.set hnext) h, hn.get_of_set hnext, List.reverse_cons, List.lookup_append]
      cases changes.reverse.lookup a with
      | some w => rfl
      | none =>
          by_cases hab : a = b
          · simp [hab]
          · simp [hab, List.lookup_cons, beq_false_of_ne hab]

end Node

/-! ## Changes in a store -/

namespace Store

variable {s : Store} {id : NodeId} {n m : Node}

/-- Writes attributes of an instance one after the other, up to the first refusal. -/
def setEach (s : Store) (id : NodeId) : List (Attr × Value NodeId) → Except Error Store
  | [] => .ok s
  | (a, v) :: changes => do (← s.set id a v).setEach id changes

/-- Adds a second instance that is as the first. -/
def shallowCopy (s : Store) (id : NodeId) : Except Error (NodeId × Store) := do
  return (alloc (← s.fetch id)).run s

theorem shallowCopy_of_node? (hn : s.node? id = some n) :
    s.shallowCopy id = .ok ((alloc n).run s) := by
  rw [shallowCopy, fetch_eq_ok_iff.2 hn]
  rfl

theorem put_alloc (s : Store) (n m : Node) :
    ((alloc n).run s).2.put ((alloc n).run s).1 m = ((alloc m).run s).2 := by
  have hnodes : (s.nodes.push n).setIfInBounds s.nodes.size m = s.nodes.push m := by
    apply Array.ext'
    simp
  exact congrArg Store.mk hnodes

/-- Writing into the newest instance is changing it before it is allocated. -/
theorem set_alloc (s : Store) (n : Node) (a : Attr) (v : Value NodeId) :
    ((alloc n).run s).2.set ((alloc n).run s).1 a v =
      (n.set a v).map fun m => ((alloc m).run s).2 := by
  rw [set_eq, fetch_eq_ok_iff.2 (node?_alloc_self s n)]
  change (n.set a v >>= fun m => pure (((alloc n).run s).2.put ((alloc n).run s).1 m)) = _
  cases n.set a v with
  | error e => rfl
  | ok m => exact congrArg Except.ok (put_alloc s n m)

theorem setEach_alloc (s : Store) (n : Node) (changes : List (Attr × Value NodeId)) :
    ((alloc n).run s).2.setEach ((alloc n).run s).1 changes =
      (n.setAll changes).map fun m => ((alloc m).run s).2 := by
  induction changes generalizing n with
  | nil => rfl
  | cons change changes ih =>
      obtain ⟨a, v⟩ := change
      rw [setEach, set_alloc, Node.setAll_cons]
      cases n.set a v with
      | error e => rfl
      | ok m => exact ih m

/-- An update is a shallow copy into which the changes are written. -/
theorem update_eq_setEach (hn : s.node? id = some n) (changes : List (Attr × Value NodeId)) :
    s.update id changes = do
      let (copy, s₁) ← s.shallowCopy id
      return (copy, ← s₁.setEach copy changes) := by
  rw [update_of_node? hn, shallowCopy_of_node? hn]
  change _ = (((alloc n).run s).2.setEach ((alloc n).run s).1 changes >>= fun s' =>
    pure (((alloc n).run s).1, s'))
  rw [setEach_alloc]
  cases n.setAll changes <;> rfl

theorem exists_set_iff (hn : s.node? id = some n) {a : Attr} {v : Value NodeId} :
    (∃ s', s.set id a v = .ok s') ↔ n.kind.Accepts a v := by
  rw [← Node.exists_set_iff, set_eq, fetch_eq_ok_iff.2 hn]
  change (∃ s', (n.set a v >>= fun m => pure (s.put id m)) = .ok s') ↔ _
  cases n.set a v <;> simp [bind, Except.bind, pure, Except.pure]

theorem set_eq_error_iff (hn : s.node? id = some n) {a : Attr} {v : Value NodeId} {e : Error} :
    s.set id a v = .error e ↔ n.kind.Refuses a v e := by
  rw [← Node.set_eq_error_iff, set_eq, fetch_eq_ok_iff.2 hn]
  change (n.set a v >>= fun m => pure (s.put id m)) = .error e ↔ _
  cases n.set a v <;> simp [bind, Except.bind, pure, Except.pure]

theorem exists_create_iff {k : Kind} {values : List (Value NodeId)} :
    (∃ answer, s.create k values = .ok answer) ↔ List.Forall₂ k.Accepts k.attrs values := by
  rw [← Kind.admits_iff_accepts]
  simp only [create_eq_ok_iff]
  exact ⟨fun ⟨_, h, _⟩ => h, fun h => ⟨_, h, rfl⟩⟩

/-- What an update of an instance does, compared with writing into a copy. -/
structure UpdatesCopy (s : Store) (id : NodeId) (n : Node)
    (changes : List (Attr × Value NodeId)) : Prop where
  /-- The update has the outcome of copying and then writing the changes one by one. -/
  agrees : s.update id changes = do
    let (copy, s₁) ← s.shallowCopy id
    return (copy, ← s₁.setEach copy changes)
  /-- Writing an attribute succeeds or fails by what the kind says alone. -/
  accepts : ∀ a v, (∃ s', s.set id a v = .ok s') ↔ n.kind.Accepts a v
  refuses : ∀ a v e, s.set id a v = .error e ↔ n.kind.Refuses a v e
  /-- A node can be made from exactly those values that could be written one by one. -/
  creates : ∀ values, (∃ answer, s.create n.kind values = .ok answer) ↔
    List.Forall₂ n.kind.Accepts n.kind.attrs values
  succeeds : (∃ answer, s.update id changes = .ok answer) ↔
    ∀ change ∈ changes, n.kind.Accepts change.1 change.2
  /-- The first change that is refused decides the error. -/
  fails : ∀ e, s.update id changes = .error e ↔
    ∃ before a v after, changes = before ++ (a, v) :: after ∧
      (∀ change ∈ before, n.kind.Accepts change.1 change.2) ∧ n.kind.Refuses a v e
  /-- The result is a new instance in which the last change to an attribute is seen, and
  the old value of an attribute that was not changed. -/
  result : ∀ copy s', s.update id changes = .ok (copy, s') →
    s.node? copy = none ∧ ∃ m, s'.node? copy = some m ∧ m.kind = n.kind ∧ m.Valid ∧
      ∀ a, m.get a = ((changes.reverse.lookup a).map .ok).getD (n.get a)
  /-- However the update ends, all older instances are as they were. -/
  keeps : s.Extends ((Operation.update id changes).after s)

theorem node?_alloc_fresh (s : Store) (n : Node) : s.node? ((alloc n).run s).1 = none :=
  node?_eq_none_iff.2 (Nat.le_refl s.size)

end Store

/-- Updating an instance that follows its schema is copying it and then writing the changes
into the copy. -/
theorem update_is_copy_with_changes {s : Store} {id : NodeId} {n : Node}
    (hn : s.node? id = some n) (hvalid : n.Valid) (changes : List (Attr × Value NodeId)) :
    s.UpdatesCopy id n changes where
  agrees := Store.update_eq_setEach hn changes
  accepts a v := Store.exists_set_iff hn
  refuses a v e := Store.set_eq_error_iff hn
  creates values := Store.exists_create_iff
  succeeds := by
    rw [← Node.exists_setAll_iff, Store.update_of_node? hn]
    cases n.setAll changes <;> simp [Except.map]
  fails e := by
    rw [← Node.setAll_eq_error_iff, Store.update_of_node? hn]
    cases n.setAll changes <;> simp [Except.map]
  result copy s' h := by
    rw [Store.update_of_node? hn] at h
    cases hm : n.setAll changes with
    | error e => rw [hm] at h; cases h
    | ok m =>
        rw [hm] at h
        cases h
        refine ⟨s.node?_alloc_fresh m, m, Store.node?_alloc_self s m, ?_, hvalid.setAll hm, ?_⟩
        · exact Node.kind_eq_of_setAll hm
        · exact hvalid.get_of_setAll hm
  keeps := by
    rw [Operation.after]
    rcases hrun : (Operation.update id changes).run.exec s with _ | ⟨answer, s'⟩
    · exact .refl s
    · have htarget : (Operation.update id changes).target? = none := rfl
      exact Operation.governs_of_target?_eq_none s.allocStable_extends htarget (.refl s) hrun
        (.refl s)

/-- In a copy of `f(1,1)` the name is changed twice and the second change is seen; with a
sign that is no truth value behind it the update fails as that change would. -/
theorem update_is_copy_with_changes_sharedTerm :
    let renamed : List (Attr × Value NodeId) := [(.name, .text "g"), (.name, .text "h")]
    let spoilt := renamed ++ [(.external, .int 2), (.sign, .int 0)]
    ∃ n, Store.sharedTerm.node? ⟨1⟩ = some n ∧ n.Valid ∧
      (∃ s' m, Store.sharedTerm.update ⟨1⟩ renamed = .ok (⟨2⟩, s') ∧ s'.node? ⟨2⟩ = some m ∧
        m.get .name = .ok (.text "h") ∧ m.get .arguments = n.get .arguments) ∧
      Store.sharedTerm.update ⟨1⟩ spoilt =
        .error (.invalidArgument (.outsideDomain .function ⟨.external, .flag⟩ 2)) := by
  intro renamed spoilt
  have hs : Store.sharedTerm.WellFormed := .of_inOrder (by decide)
  have hn : Store.sharedTerm.node? ⟨1⟩ = some _ := rfl
  have hrenamed := update_is_copy_with_changes hn (hs.valid hn) renamed
  have hspoilt := update_is_copy_with_changes hn (hs.valid hn) spoilt
  refine ⟨_, hn, hs.valid hn, ?_, ?_⟩
  · have hrun : Store.sharedTerm.update ⟨1⟩ renamed = .ok (⟨2⟩, _) := rfl
    obtain ⟨-, m, hm, -, -, hget⟩ := hrenamed.result _ _ hrun
    exact ⟨_, m, hrun, hm, hget .name, hget .arguments⟩
  · have hslot : Kind.slot? .function .external = some (3, ⟨.external, .flag⟩) := rfl
    refine (hspoilt.fails _).2 ⟨renamed, .external, .int 2, [(.sign, .int 0)], rfl, ?_, ?_⟩
    · have hname : Kind.slot? .function .name = some (1, ⟨.name, .text⟩) := rfl
      intro change hchange
      rcases List.mem_pair.1 hchange with rfl | rfl <;> exact ⟨1, _, hname, rfl⟩
    · exact .domain hslot rfl rfl

end AnswerSet
