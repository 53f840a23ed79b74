import AnswerSet.Operation
import AnswerSet.Proofs.Store.Reach

/-!
# Operations that fail

Operations work on the store in place, so one that fails on the way could leave a half-done
change behind. None of them does: all checks come before the first write, except in an edit of
a list, which writes back the list whatever has become of it and leaves it as it was if it
fails.
-/

namespace AnswerSet

variable {α β : Type} {s s' : Store} {id : NodeId} {n : Node}

/-! ## Atomic operations -/

/-- Where the operation fails it has changed nothing. -/
def StoreM.Atomic (operation : StoreM α) : Prop :=
  ∀ ⦃s e s'⦄, operation.exec s = (.error e, s') → s' = s

/-- Where the operation fails it has changed nothing. -/
def RunM.Atomic (operation : RunM α) : Prop :=
  ∀ ⦃s e s'⦄, operation.exec s = some (.error e, s') → s' = s

namespace StoreM

variable {operation x : StoreM α} {f : α → StoreM β} {answer : α} {e : Error}

theorem exec_eq_ok_iff : operation.exec s = (.ok answer, s') ↔
    operation.outcome s = .ok (answer, s') := by
  rcases h : operation.exec s with ⟨_ | _, _⟩ <;> simp [outcome, h]

theorem Atomic.exec_eq_error_iff (hatomic : operation.Atomic) :
    operation.exec s = (.error e, s') ↔ operation.outcome s = .error e ∧ s' = s := by
  constructor
  · intro h
    exact ⟨by rw [outcome, h], hatomic h⟩
  · rintro ⟨h, rfl⟩
    rcases hexec : operation.exec s' with ⟨_ | _, s⟩
    · rw [hatomic hexec]
      simpa [outcome, hexec] using h
    · simp [outcome, hexec] at h

/-- What only adds instances or writes slots does not fail. -/
theorem atomic_lift (x : StateM Store α) : Atomic (liftM x : StoreM α) := by
  intro s e s' h
  cases h

/-- A step that only looks at the store may come before an atomic operation. -/
theorem Atomic.bind (hx : ∀ s, (x.exec s).2 = s) (hf : ∀ a, (f a).Atomic) : (x >>= f).Atomic := by
  intro s e s' h
  have hsame := hx s
  rw [exec_bind] at h
  rcases hexec : x.exec s with ⟨_ | a, s₁⟩ <;> rw [hexec] at h hsame <;> cases hsame
  · cases h
    rfl
  · exact hf a h

theorem atomic_create (k : Kind) (values : List (Value NodeId)) : (create k values).Atomic :=
  .bind (fun _ => rfl) fun _ => atomic_lift _

theorem atomic_set (id : NodeId) (a : Attr) (v : Value NodeId) : (set id a v).Atomic :=
  .bind (fun _ => rfl) fun _ => .bind (fun _ => rfl) fun _ => atomic_lift _

theorem atomic_update (id : NodeId) (changes : List (Attr × Value NodeId)) :
    (update id changes).Atomic :=
  .bind (fun _ => rfl) fun _ => .bind (fun _ => rfl) fun _ => atomic_lift _

theorem atomic_ofJson (v : Json) : (ofJson v).Atomic :=
  .bind (fun _ => rfl) fun _ => atomic_lift _

theorem atomic_ofText (text : String) : (ofText text).Atomic :=
  .bind (fun _ => rfl) fun _ => atomic_lift _

end StoreM

theorem Store.set_eq_ok_of_outcome {a : Attr} {v : Value NodeId}
    (h : (StoreM.set id a v).outcome s = .ok ((), s')) : s.set id a v = .ok s' := by
  rw [Store.set, h]
  rfl

/-- Writing an attribute in place is what comes of writing it, or nothing. -/
theorem Store.exec_set (s : Store) (id : NodeId) (a : Attr) (v : Value NodeId) :
    (StoreM.set id a v).exec s = match s.set id a v with
      | .ok s' => (.ok (), s')
      | .error e => (.error e, s) := by
  rcases hexec : (StoreM.set id a v).exec s with ⟨e | _, s'⟩
  · obtain ⟨hfail, rfl⟩ := (StoreM.atomic_set id a v).exec_eq_error_iff.1 hexec
    rw [Store.set, hfail]
    rfl
  · rw [set_eq_ok_of_outcome (StoreM.exec_eq_ok_iff.1 hexec)]

/-! ## Edits of lists -/

/-- An edit that fails leaves the list as it was. -/
theorem ListEdit.snd_run_of_error {ε : Type} {change : ListEdit ε α} {list : List ε} {e : Error}
    (h : (change.run list).1 = .error e) : (change.run list).2 = list := by
  cases change <;> simp only [run] at h ⊢
  case set | remove =>
    split at h
    · cases h
    · rfl
  case insert index element =>
    by_cases hlong : list.length < index
    · rw [if_pos hlong]
    · rw [if_neg hlong] at h
      cases h
  all_goals cases h

theorem Node.get_eq_ok_iff {a : Attr} {v : Value NodeId} :
    n.get a = .ok v ↔ n.kind.valueOf? n.values a = some v := by
  rw [get]
  cases n.kind.valueOf? n.values a <;> simp

theorem Node.overwrite_of_get {a : Attr} {v : Value NodeId} (h : n.get a = .ok v) :
    n.overwrite a v = n := by
  obtain ⟨i, hi, hv⟩ := Option.bind_eq_some_iff.1 (get_eq_ok_iff.1 h)
  rw [overwrite, hi]
  obtain ⟨hlt, rfl⟩ := List.getElem?_eq_some_iff.1 hv
  change Node.mk n.kind (n.values.set i n.values[i]) = n
  rw [List.set_getElem_self]

theorem Store.put_of_node? (h : s.node? id = some n) : s.put id n = s := by
  obtain ⟨hlt, rfl⟩ := Array.getElem?_eq_some_iff.1 h
  rw [put, Array.setIfInBounds, dif_pos hlt, Array.set_getElem_self]

/-- Lists fill exactly the values of their shape, and such a value is nothing but its list. -/
class LawfulListElement (τ : Type) [ListElement τ] : Prop where
  shape_toValue (list : List τ) : (ListElement.toValue list).shape = ListElement.shape τ
  fits_toValue {slot : Slot} (h : slot.shape = ListElement.shape τ) (list : List τ) :
    (ListElement.toValue list).fits slot = true
  exists_toValue {v : Value NodeId} (h : v.shape = ListElement.shape τ) :
    ∃ list : List τ, v = ListElement.toValue list
  eq_toValue {v : Value NodeId} {list : List τ} (h : ListElement.ofValue? v = some list) :
    v = ListElement.toValue list

instance : LawfulListElement NodeId where
  shape_toValue _ := rfl
  fits_toValue h list := Value.fits_iff.2 ⟨h.symm, rfl⟩
  exists_toValue {v} h := by
    cases v with
    | nodes list => exact ⟨list, rfl⟩
    | _ => cases h
  eq_toValue {v _} h := by
    cases v <;> cases h
    rfl

instance : LawfulListElement String where
  shape_toValue _ := rfl
  fits_toValue h list := Value.fits_iff.2 ⟨h.symm, rfl⟩
  exists_toValue {v} h := by
    cases v with
    | texts list => exact ⟨list, rfl⟩
    | _ => cases h
  eq_toValue {v _} h := by
    cases v <;> cases h
    rfl

section Lists

variable {τ : Type} [ListElement τ]

theorem ListView.exec_edit (view : ListView τ) (change : ListEdit τ α) (s : Store) :
    (view.edit change).exec s = match s.fetch view.owner with
      | .error e => (.error e, s)
      | .ok n => match n.get view.attr with
        | .error e => (.error e, s)
        | .ok v => match ListElement.ofValue? v with
          | none => (.error (v.mismatch (ListElement.shape τ)), s)
          | some list => ((change.run list).1, s.put view.owner
              (n.overwrite view.attr (ListElement.toValue (change.run list).2))) := by
  rw [edit, StoreM.exec_bind, StoreM.exec_fetch]
  cases s.fetch view.owner with
  | error e => rfl
  | ok n =>
      dsimp only
      rw [StoreM.exec_bind, StoreM.exec_lift]
      cases n.get view.attr with
      | error e => rfl
      | ok v =>
          dsimp only
          cases (ListElement.ofValue? v : Option (List τ)) <;> rfl

/-- Where the attribute holds a list, the list is edited in place. -/
theorem ListView.exec_edit_of_list {view : ListView τ} {v : Value NodeId} {list : List τ}
    (hn : s.node? view.owner = some n) (hv : n.get view.attr = .ok v)
    (hlist : ListElement.ofValue? v = some list) (change : ListEdit τ α) :
    (view.edit change).exec s = ((change.run list).1, s.put view.owner
      (n.overwrite view.attr (ListElement.toValue (change.run list).2))) := by
  simp only [exec_edit, Store.fetch, hn, hv, hlist]

/-- An edit finds no list and changes nothing, or it edits the list in place. -/
theorem ListView.exec_edit_cases (view : ListView τ) (change : ListEdit τ α) (s : Store) :
    (∃ e, (view.edit change).exec s = (.error e, s)) ∨
      ∃ n v list, s.node? view.owner = some n ∧ n.get view.attr = .ok v ∧
        ListElement.ofValue? v = some list ∧
        (view.edit change).exec s = ((change.run list).1, s.put view.owner
          (n.overwrite view.attr (ListElement.toValue (change.run list).2))) := by
  cases hn : s.node? view.owner with
  | none => exact .inl ⟨.invalidNode .absent, by simp only [exec_edit, Store.fetch, hn]⟩
  | some n =>
      cases hv : n.get view.attr with
      | error e => exact .inl ⟨e, by simp only [exec_edit, Store.fetch, hn, hv]⟩
      | ok v =>
          cases hlist : (ListElement.ofValue? v : Option (List τ)) with
          | none =>
              refine .inl ⟨v.mismatch (ListElement.shape τ), ?_⟩
              simp only [exec_edit, Store.fetch, hn, hv, hlist]
          | some list =>
              exact .inr ⟨n, v, list, rfl, hv, hlist, exec_edit_of_list hn hv hlist change⟩

theorem ElementRef.exec_set (ref : ElementRef τ) (element : τ) (s : Store) :
    (ref.set element).exec s =
      (((ref.view.edit (.set ref.index element)).exec s).1.mapError ref.explain,
        ((ref.view.edit (.set ref.index element)).exec s).2) := rfl

variable [LawfulListElement τ]

theorem ListView.atomic_edit (view : ListView τ) (change : ListEdit τ α) :
    (view.edit change).Atomic := by
  intro s e s' h
  obtain ⟨_, hexec⟩ | ⟨n, v, list, hn, hv, hlist, hexec⟩ := view.exec_edit_cases change s
  · rw [hexec] at h
    cases h
    rfl
  · rw [hexec, Prod.mk.injEq] at h
    obtain ⟨he, rfl⟩ := h
    -- The list that is written back is the one that was there.
    rw [ListEdit.snd_run_of_error he, ← LawfulListElement.eq_toValue hlist,
      Node.overwrite_of_get hv, Store.put_of_node? hn]

theorem ElementRef.atomic_set (ref : ElementRef τ) (element : τ) : (ref.set element).Atomic := by
  intro s e s' h
  rw [exec_set] at h
  rcases hedit : (ref.view.edit (.set ref.index element)).exec s with ⟨_ | _, s₁⟩ <;>
    rw [hedit] at h <;> cases h
  exact ref.view.atomic_edit _ hedit

end Lists

/-! ## All operations -/

theorem RunM.atomic_lift {operation : StoreM α} (h : operation.Atomic) :
    Atomic (liftM operation : RunM α) := by
  intro s e s' hexec
  rw [exec_lift, Option.some.injEq] at hexec
  exact h hexec

theorem RunM.atomic_unfolding (id : NodeId) (f : Tree NodeId → StateM Store α) :
    Atomic (do f (← unfolding id) : RunM α) := by
  intro s e s' h
  rw [exec_unfolding, Option.map_eq_some_iff] at h
  obtain ⟨_, _, h⟩ := h
  cases h

theorem Reading.exec_run (reading : Reading α) (s : Store) :
    reading.run.exec s = match reading.answer s with
      | .ok answer => some (.ok answer, s)
      | .error (.failed e) => some (.error e, s)
      | .error .endless => none := by
  have hrun : reading.run.exec s =
      (match reading.answer s with
        | .ok answer => pure answer
        | .error (.failed e) => throw e
        | .error .endless => RunM.endless : RunM α).exec s := rfl
  rw [hrun]
  rcases reading.answer s with (_ | _) | _ <;> rfl

/-- A reading changes nothing, whether it answers or fails. -/
theorem Reading.eq_of_exec_run {reading : Reading α} {answer : Except Error α}
    (h : reading.run.exec s = some (answer, s')) : s' = s := by
  rw [exec_run] at h
  rcases hanswer : reading.answer s with (_ | _) | _ <;> rw [hanswer] at h <;> cases h <;> rfl

theorem Operation.atomic (op : Operation α) : op.run.Atomic := by
  cases op with
  | read reading =>
      intro s e s' h
      exact Reading.eq_of_exec_run h
  | build k args => exact RunM.atomic_lift (StoreM.atomic_lift _)
  | create k values => exact RunM.atomic_lift (StoreM.atomic_create k values)
  | set id a v => exact RunM.atomic_lift (StoreM.atomic_set id a v)
  | update id changes => exact RunM.atomic_lift (StoreM.atomic_update id changes)
  | deepCopy id => exact RunM.atomic_unfolding id _
  | editNodes view change => exact RunM.atomic_lift (view.atomic_edit change)
  | editTexts view change => exact RunM.atomic_lift (view.atomic_edit change)
  | assignNode ref element => exact RunM.atomic_lift (ref.atomic_set element)
  | assignText ref element => exact RunM.atomic_lift (ref.atomic_set element)
  | unpool id regions => exact RunM.atomic_unfolding id fun t => t.unpool regions
  | ofJson v => exact RunM.atomic_lift (StoreM.atomic_ofJson v)
  | ofText text => exact RunM.atomic_lift (StoreM.atomic_ofText text)

end AnswerSet
