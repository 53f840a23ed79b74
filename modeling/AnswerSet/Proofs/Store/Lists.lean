import AnswerSet.Proofs.Frame

/-!
# Calls on lists

A view holds no list of its own: every call reads or writes the attribute. What a call
answers and leaves behind is nevertheless what it would answer and leave behind on a
plain list. This goes for calls through views, for references to elements, which are
resolved anew at each access, and for reading and writing the attribute as a whole.

`ListCall.eval` says what a call does to a plain list, in terms of initial and final
pieces of it.
-/

namespace AnswerSet

/-! ## Calls -/

/-- A use of a list-valued attribute: through a view, through a reference to an element
of it, or of the attribute as a whole. The index is the type of the answer. -/
inductive ListCall (τ : Type) : Type → Type where
  | length : ListCall τ Nat
  | isEmpty : ListCall τ Bool
  | get? (index : Nat) : ListCall τ (Option τ)
  | elementAt (index : Nat) : ListCall τ (Except Error τ)
  | first? : ListCall τ (Option τ)
  | last? : ListCall τ (Option τ)
  | toList : ListCall τ (List τ)
  | set (index : Nat) (element : τ) : ListCall τ (Except Error τ)
  | insert (index : Nat) (element : τ) : ListCall τ (Except Error Unit)
  | remove (index : Nat) : ListCall τ (Except Error τ)
  | push (element : τ) : ListCall τ (Except Error Unit)
  | pop : ListCall τ (Except Error (Option τ))
  | extend (elements : List τ) : ListCall τ (Except Error Unit)
  | clear : ListCall τ (Except Error (List τ))
  | element (index : Nat) : ListCall τ (Except Error (ElementRef τ))
  | readRef (index : Nat) : ListCall τ (Except Error τ)
  | assignRef (index : Nat) (element : τ) : ListCall τ (Except Error τ)
  | getValue : ListCall τ (Except Error (Value NodeId))
  | setValue (v : Value NodeId) : ListCall τ (Except Error Unit)

namespace ListCall

variable {τ α : Type}

/-- The element at a place, and the list with others instead of it, or the fault of a place
that the list does not have. -/
def displace (list : List τ) (index : Nat) (fault : Error) (instead : List τ) :
    Except Error τ × List τ :=
  if h : index < list.length then
    (.ok list[index], list.take index ++ instead ++ list.drop (index + 1))
  else (.error fault, list)

theorem displace_map_fault (list : List τ) (i : Nat) (fault : Error) (instead : List τ)
    (f : Error → Error) :
    displace list i (f fault) instead =
      ((displace list i fault instead).1.mapError f, (displace list i fault instead).2) := by
  unfold displace
  split <;> rfl

theorem displace_eq_error_iff {list : List τ} {i : Nat} {fault e : Error} {instead : List τ} :
    (displace list i fault instead).1 = .error e ↔ list.length ≤ i ∧ e = fault := by
  by_cases h : i < list.length
  · simp [displace, h]
  · simp [displace, h, not_lt.1 h, eq_comm]

theorem exists_of_displace_eq_ok {list : List τ} {i : Nat} {fault : Error} {instead : List τ}
    {x : τ} (h : (displace list i fault instead).1 = .ok x) :
    ∃ before after, before.length = i ∧ list = before ++ x :: after ∧
      (displace list i fault instead).2 = before ++ instead ++ after := by
  unfold displace at h ⊢
  split at h
  · rename_i hi
    cases h
    refine ⟨list.take i, list.drop (i + 1), List.length_take_of_le hi.le, ?_, by rw [dif_pos hi]⟩
    rw [← List.drop_eq_getElem_cons hi, List.take_append_drop]
  · cases h

variable [ListElement τ]

/-- Carries out a call in a store. -/
def run : ListCall τ α → ListView τ → Store → α × Store
  | .length, view, s => (view.length s, s)
  | .isEmpty, view, s => (view.isEmpty s, s)
  | .get? i, view, s => (view.get? s i, s)
  | .elementAt i, view, s => (view.elementAt s i, s)
  | .first?, view, s => (view.first? s, s)
  | .last?, view, s => (view.last? s, s)
  | .toList, view, s => (view.toList s, s)
  | .set i e, view, s => (view.edit (.set i e)).exec s
  | .insert i e, view, s => (view.edit (.insert i e)).exec s
  | .remove i, view, s => (view.edit (.remove i)).exec s
  | .push e, view, s => (view.edit (.push e)).exec s
  | .pop, view, s => (view.edit .pop).exec s
  | .extend es, view, s => (view.edit (.extend es)).exec s
  | .clear, view, s => (view.edit .clear).exec s
  | .element i, view, s => (view.element s i, s)
  | .readRef i, view, s => ((⟨view, i⟩ : ElementRef τ).get s, s)
  | .assignRef i e, view, s => ((⟨view, i⟩ : ElementRef τ).set e).exec s
  | .getValue, view, s => (s.get view.owner view.attr, s)
  | .setValue v, view, s => (StoreM.set view.owner view.attr v).exec s

/-- What a call answers on a plain list, with the list after it. -/
def eval (view : ListView τ) : ListCall τ α → List τ → α × List τ
  | .length, list => (list.length, list)
  | .isEmpty, list => (list.isEmpty, list)
  | .get? i, list => (list[i]?, list)
  | .elementAt i, list =>
      (if h : i < list.length then .ok list[i] else .error (.outOfBounds i list.length), list)
  | .first?, list => (list.head?, list)
  | .last?, list => (list.getLast?, list)
  | .toList, list => (list, list)
  | .set i e, list => displace list i (.outOfBounds i list.length) [e]
  | .insert i e, list =>
      if i ≤ list.length then (.ok (), list.take i ++ [e] ++ list.drop i)
      else (.error (.outOfBounds i list.length), list)
  | .remove i, list => displace list i (.outOfBounds i list.length) []
  | .push e, list => (.ok (), list ++ [e])
  | .pop, list => (.ok list.getLast?, list.take (list.length - 1))
  | .extend es, list => (.ok (), list ++ es)
  | .clear, list => (.ok list, [])
  | .element i, list =>
      (if _h : i < list.length then .ok ⟨view, i⟩ else .error (.outOfBounds i list.length), list)
  | .readRef i, list =>
      (if h : i < list.length then .ok list[i]
        else .error (.invalidNode (.stale i view.attr)), list)
  | .assignRef i e, list => displace list i (.invalidNode (.stale i view.attr)) [e]
  | .getValue, list => (.ok (ListElement.toValue list), list)
  | .setValue v, list =>
      if v.shape = ListElement.shape τ then (.ok (), (ListElement.ofValue? v).getD [])
      else (.error (v.mismatch (ListElement.shape τ)), list)

end ListCall

/-! ## Edits on plain lists -/

namespace ListEdit

variable {τ : Type}

theorem run_set (list : List τ) (i : Nat) (e : τ) :
    (set i e).run list = ListCall.displace list i (.outOfBounds i list.length) [e] := by
  by_cases h : i < list.length
  · rw [run, List.getElem?_eq_getElem h, ListCall.displace, dif_pos h,
      List.set_eq_take_cons_drop e h, List.append_assoc, List.singleton_append]
  · rw [run, List.getElem?_eq_none (not_lt.1 h), ListCall.displace, dif_neg h]

theorem run_remove (list : List τ) (i : Nat) :
    (remove i).run list = ListCall.displace list i (.outOfBounds i list.length) [] := by
  by_cases h : i < list.length
  · rw [run, List.getElem?_eq_getElem h, ListCall.displace, dif_pos h,
      List.eraseIdx_eq_take_drop_succ, List.append_nil]
  · rw [run, List.getElem?_eq_none (not_lt.1 h), ListCall.displace, dif_neg h]

theorem run_insert (list : List τ) (i : Nat) (e : τ) :
    (insert i e).run list =
      if i ≤ list.length then (.ok (), list.take i ++ [e] ++ list.drop i)
      else (.error (.outOfBounds i list.length), list) := by
  by_cases h : i ≤ list.length
  · rw [run, if_neg (not_lt.2 h), if_pos h, insertIdx_eq_take_append_drop h, List.append_assoc,
      List.singleton_append]
  · rw [run, if_pos (not_le.1 h), if_neg h]

end ListEdit

/-! ## One call -/

namespace ListView

variable {τ α : Type} [ListElement τ] {view : ListView τ} {s s' : Store}

theorem elementAt_eq (view : ListView τ) (s : Store) (i : Nat) :
    view.elementAt s i =
      if h : i < (view.toList s).length then .ok (view.toList s)[i]
      else .error (.outOfBounds i (view.toList s).length) := by
  by_cases h : i < (view.toList s).length
  · rw [elementAt, get?, List.getElem?_eq_getElem h, dif_pos h]
  · rw [elementAt, get?, List.getElem?_eq_none (not_lt.1 h), dif_neg h]
    rfl

/-- What came of a call in the store is what comes of it on the list of the view. -/
structure Mirrors (view : ListView τ) (s : Store) (outcome : α × Store) (expected : α × List τ) :
    Prop where
  answer : outcome.1 = expected.1
  writes : s.WritesOnly outcome.2 view.owner view.attr (ListElement.toValue expected.2)

theorem Mirrors.mapError {outcome : Except Error α × Store} {expected : Except Error α × List τ}
    (h : view.Mirrors s outcome expected) (f : Error → Error) :
    view.Mirrors s (outcome.1.mapError f, outcome.2) (expected.1.mapError f, expected.2) :=
  ⟨congrArg (Except.mapError f) h.answer, h.writes⟩

namespace Live

theorem get_eq (h : view.Live s) :
    s.get view.owner view.attr = .ok (ListElement.toValue (view.toList s)) := by
  obtain ⟨n, i, list, hn, hindex, hvalue, rfl, -⟩ := h
  simp [Store.get_of_node? hn, Node.get, Kind.valueOf?, hindex, hvalue]

/-- Leaving the store alone is writing the list that is there. -/
theorem writesOnly_self (h : view.Live s) :
    s.WritesOnly s view.owner view.attr (ListElement.toValue (view.toList s)) := by
  have hread := h.get_eq
  obtain ⟨n, i, list, hn, hindex, hvalue, rfl, -⟩ := h
  obtain ⟨hi, hget⟩ := List.getElem?_eq_some_iff.1 hvalue
  refine ⟨⟨n, i, hn, hindex, ?_⟩, fun _ _ => rfl, rfl, hread, fun _ _ => rfl, ?_, ?_⟩
  · rw [← hget, List.set_getElem_self, hn]
  · intro list hlist
    exact toList_of_get_eq (hread.trans (congrArg _ hlist))
  · intro list hlist
    exact toList_of_get_eq (hread.trans (congrArg _ hlist))

theorem mirrors_self (h : view.Live s) {answer expected : α} (heq : answer = expected) :
    view.Mirrors s (answer, s) (expected, view.toList s) :=
  ⟨heq, h.writesOnly_self⟩

/-- An edit writes what the change makes of the list. -/
theorem mirrors_edit (h : view.Live s) {change : ListEdit τ α} {expected : Except Error α × List τ}
    (hexpected : change.run (view.toList s) = expected) :
    view.Mirrors s ((view.edit change).exec s) expected := by
  subst hexpected
  obtain ⟨n, i, list, hn, hindex, hvalue, rfl, hedit⟩ := h
  rw [hedit]
  exact ⟨rfl, .of_put hn hindex (List.getElem?_eq_some_iff.1 hvalue).1⟩

/-- Assigning to a reference differs from setting the element in the error only. -/
theorem mirrors_assignRef (h : view.Live s) (i : Nat) (e : τ) :
    view.Mirrors s (((⟨view, i⟩ : ElementRef τ).set e).exec s)
      ((ListCall.assignRef i e).eval view (view.toList s)) := by
  have hedit := h.mirrors_edit (ListEdit.run_set (view.toList s) i e)
  have hstale : (⟨view, i⟩ : ElementRef τ).explain (.outOfBounds i (view.toList s).length) =
      .invalidNode (.stale i view.attr) := rfl
  rw [ElementRef.exec_set, ListCall.eval, ← hstale, ListCall.displace_map_fault]
  exact hedit.mapError _

end Live

/-- Writing the attribute as a whole succeeds with lists of the elements of the view only. -/
theorem mirrors_setValue [LawfulListElement τ] (hopen : open? τ s view.owner view.attr = .ok view)
    (hs : s.Valid) (v : Value NodeId) :
    view.Mirrors s ((StoreM.set view.owner view.attr v).exec s)
      ((ListCall.setValue v).eval view (view.toList s)) := by
  obtain ⟨-, n, i, slot, hn, hslot, hshape⟩ := open?_eq_ok_iff.1 hopen
  by_cases h : v.shape = ListElement.shape τ
  · obtain ⟨list, rfl⟩ := LawfulListElement.exists_toValue h
    obtain ⟨s', hset⟩ :
        ∃ s', s.set view.owner view.attr (ListElement.toValue list) = .ok s' := by
      have hassign : n.kind.assign n.values view.attr (ListElement.toValue list) = .ok _ :=
        Kind.assign_eq_ok_iff.2 ⟨i, slot, hslot, LawfulListElement.fits_toValue hshape list, rfl⟩
      exact ⟨_, Store.set_eq_ok_iff.2 ⟨n, _, hn, Node.set_eq_ok_iff.2 ⟨_, hassign, rfl⟩, rfl⟩⟩
    rw [Store.exec_set, hset, ListCall.eval, if_pos h, ListElement.ofValue?_toValue,
      Option.getD_some]
    exact ⟨rfl, .of_set hs hset⟩
  · have hassign : n.kind.assign n.values view.attr v =
        .error (v.mismatch (ListElement.shape τ)) := by
      simp [Kind.assign, Kind.locate, hslot, hshape, h, bind, Except.bind, throw, throwThe,
        MonadExceptOf.throw]
    have hset : s.set view.owner view.attr v = .error (v.mismatch (ListElement.shape τ)) := by
      simp [Store.set_eq, Store.fetch, hn, Node.set, hassign, bind, Except.bind]
    rw [Store.exec_set, hset, ListCall.eval, if_neg h]
    exact (live_of_open? hopen (.refl s) hs).mirrors_self rfl

end ListView

namespace ListCall

variable {τ α : Type} [ListElement τ] [LawfulListElement τ] {view : ListView τ} {s : Store}

/-- A call answers what it answers on the list of the view, and it writes what it makes of
that list. -/
theorem mirrors (hopen : ListView.open? τ s view.owner view.attr = .ok view) (hs : s.Valid)
    (call : ListCall τ α) :
    view.Mirrors s (call.run view s) (call.eval view (view.toList s)) := by
  have hlive := ListView.live_of_open? hopen (.refl s) hs
  cases call with
  | length => exact hlive.mirrors_self rfl
  | isEmpty =>
      apply hlive.mirrors_self
      cases h : view.toList s <;> simp [ListView.isEmpty, ListView.length, h]
  | get? i => exact hlive.mirrors_self rfl
  | elementAt i => exact hlive.mirrors_self (ListView.elementAt_eq view s i)
  | first? => exact hlive.mirrors_self List.head?_eq_getElem?.symm
  | last? => exact hlive.mirrors_self rfl
  | toList => exact hlive.mirrors_self rfl
  | set i e => exact hlive.mirrors_edit (ListEdit.run_set _ i e)
  | insert i e => exact hlive.mirrors_edit (ListEdit.run_insert _ i e)
  | remove i => exact hlive.mirrors_edit (ListEdit.run_remove _ i)
  | push e => exact hlive.mirrors_edit rfl
  | pop =>
      apply hlive.mirrors_edit
      rw [ListEdit.run, List.dropLast_eq_take]
      rfl
  | extend es => exact hlive.mirrors_edit rfl
  | clear => exact hlive.mirrors_edit rfl
  | element i =>
      apply hlive.mirrors_self
      simp only [ListView.element, ListView.elementAt_eq]
      split <;> rfl
  | readRef i =>
      apply hlive.mirrors_self
      by_cases h : i < (view.toList s).length <;>
        simp [ElementRef.get, ListView.get?, ElementRef.stale, h]
  | assignRef i e => exact hlive.mirrors_assignRef i e
  | getValue => exact hlive.mirrors_self hlive.get_eq
  | setValue v => exact ListView.mirrors_setValue hopen hs v

end ListCall

/-! ## What calls accept and hand back -/

/-- The call fails with the fault under the condition and under no other. -/
def FailsIff {α : Type} (p : Prop) (fault : Error) (answer : Except Error α) : Prop :=
  ∀ e, answer = .error e ↔ p ∧ e = fault

theorem failsIff_dite {α : Type} {p q : Prop} [Decidable p] (hq : ¬p ↔ q) (fault : Error)
    (answer : p → α) :
    FailsIff q fault (if h : p then .ok (answer h) else .error fault) := by
  intro e
  by_cases h : p
  · simp [h, ← hq]
  · simp [h, ← hq, eq_comm]

namespace ListView

variable {τ α : Type} [ListElement τ] {view : ListView τ} {s : Store}

/-- A call that succeeds hands back the element at the place, and others stand there instead. -/
def Displaces (view : ListView τ) (s : Store) (i : Nat) (instead : List τ)
    (outcome : Except Error τ × Store) : Prop :=
  ∀ x, outcome.1 = .ok x → ∃ before after, before.length = i ∧
    view.toList s = before ++ x :: after ∧ view.toList outcome.2 = before ++ instead ++ after

/-- Which places the calls of a view accept, and which elements they hand back. -/
structure Contract (view : ListView τ) (s : Store) : Prop where
  elementAt : ∀ i, FailsIff (view.length s ≤ i) (.outOfBounds i (view.length s))
    ((ListCall.elementAt i).run view s).1
  set : ∀ i e, FailsIff (view.length s ≤ i) (.outOfBounds i (view.length s))
    ((ListCall.set i e).run view s).1
  remove : ∀ i, FailsIff (view.length s ≤ i) (.outOfBounds i (view.length s))
    ((ListCall.remove i).run view s).1
  element : ∀ i, FailsIff (view.length s ≤ i) (.outOfBounds i (view.length s))
    ((ListCall.element i).run view s).1
  /-- Only here the end of the list is a place too. -/
  insert : ∀ i e, FailsIff (view.length s < i) (.outOfBounds i (view.length s))
    ((ListCall.insert i e).run view s).1
  /-- A reference fails as long as the list is too short for it. -/
  readRef : ∀ i, FailsIff (view.length s ≤ i) (.invalidNode (.stale i view.attr))
    ((ListCall.readRef i).run view s).1
  assignRef : ∀ i e, FailsIff (view.length s ≤ i) (.invalidNode (.stale i view.attr))
    ((ListCall.assignRef i e).run view s).1
  set_displaces : ∀ i e, view.Displaces s i [e] ((ListCall.set i e).run view s)
  assignRef_displaces : ∀ i e, view.Displaces s i [e] ((ListCall.assignRef i e).run view s)
  remove_displaces : ∀ i, view.Displaces s i [] ((ListCall.remove i).run view s)
  pop_displaces : ∃ x, (ListCall.pop.run view s).1 = .ok x ∧ (x = none → view.toList s = []) ∧
    view.toList s = view.toList (ListCall.pop.run view s).2 ++ x.toList
  clear_displaces : (ListCall.clear.run view s).1 = .ok (view.toList s) ∧
    view.toList (ListCall.clear.run view s).2 = []

theorem Mirrors.toList_eq {outcome : α × Store} {expected : α × List τ}
    (h : view.Mirrors s outcome expected) : view.toList outcome.2 = expected.2 :=
  toList_of_get_eq h.writes.read

theorem Mirrors.failsIff {outcome : Except Error α × Store} {expected : Except Error α × List τ}
    {p : Prop} {fault : Error} (h : view.Mirrors s outcome expected)
    (hfails : FailsIff p fault expected.1) : FailsIff p fault outcome.1 :=
  h.answer ▸ hfails

theorem Mirrors.displaces {outcome : Except Error τ × Store} {i : Nat} {fault : Error}
    {instead : List τ}
    (h : view.Mirrors s outcome (ListCall.displace (view.toList s) i fault instead)) :
    view.Displaces s i instead outcome := by
  intro x hx
  rw [h.toList_eq]
  exact ListCall.exists_of_displace_eq_ok (h.answer ▸ hx)

theorem contract_of_open? [LawfulListElement τ]
    (hopen : open? τ s view.owner view.attr = .ok view) (hs : s.Valid) : view.Contract s where
  elementAt i := (ListCall.mirrors hopen hs (.elementAt i)).failsIff (failsIff_dite not_lt _ _)
  set i e := (ListCall.mirrors hopen hs (.set i e)).failsIff fun _ =>
    ListCall.displace_eq_error_iff
  remove i := (ListCall.mirrors hopen hs (.remove i)).failsIff fun _ =>
    ListCall.displace_eq_error_iff
  element i := (ListCall.mirrors hopen hs (.element i)).failsIff (failsIff_dite not_lt _ _)
  insert i e := by
    apply (ListCall.mirrors hopen hs (.insert i e)).failsIff
    rw [ListCall.eval, apply_ite Prod.fst]
    exact failsIff_dite not_le _ fun _ => ()
  readRef i := (ListCall.mirrors hopen hs (.readRef i)).failsIff (failsIff_dite not_lt _ _)
  assignRef i e := (ListCall.mirrors hopen hs (.assignRef i e)).failsIff fun _ =>
    ListCall.displace_eq_error_iff
  set_displaces i e := (ListCall.mirrors hopen hs (.set i e)).displaces
  assignRef_displaces i e := (ListCall.mirrors hopen hs (.assignRef i e)).displaces
  remove_displaces i := (ListCall.mirrors hopen hs (.remove i)).displaces
  pop_displaces := by
    have hm := ListCall.mirrors hopen hs .pop
    refine ⟨(view.toList s).getLast?, hm.answer, List.getLast?_eq_none_iff.1, ?_⟩
    rw [hm.toList_eq, ListCall.eval, ← List.dropLast_eq_take]
    cases hlast : (view.toList s).getLast? with
    | none => simp [List.getLast?_eq_none_iff.1 hlast]
    | some x => exact (List.dropLast_append_getLast? x hlast).symm
  clear_displaces := by
    have hm := ListCall.mirrors hopen hs .clear
    exact ⟨hm.answer, hm.toList_eq⟩

end ListView

end AnswerSet
