import AnswerSet.Proofs.Client
import AnswerSet.Proofs.Store.Invariant

/-!
# Frames

An operation either adds instances and leaves the others alone, or it writes one
attribute of one instance and leaves everything else alone. Which of the two it is can
be read off the call: a call that writes names its target, the owner and the attribute,
before anything is looked up, and what it writes is said by a table in terms of the list that
was there. A call that fails leaves the whole store as it was.

Operations with callbacks add instances only, as long as the callbacks do. This also
holds of runs that a callback has ended with an error of its own.
-/

namespace AnswerSet

/-! ## Writing one slot -/

theorem Kind.slotIndex?_inj {k : Kind} {a b : Attr} {i : Nat} (ha : k.slotIndex? a = some i)
    (hb : k.slotIndex? b = some i) : a = b := by
  obtain ⟨_, ha, -⟩ := List.findIdx?_eq_some_iff_getElem.1 ha
  obtain ⟨_, hb, -⟩ := List.findIdx?_eq_some_iff_getElem.1 hb
  exact (of_decide_eq_true ha).symm.trans (of_decide_eq_true hb)

namespace Node

variable {n : Node} {a b : Attr} {i : Nat} {v : Value NodeId}

theorem get_set_self (hindex : n.kind.slotIndex? a = some i) (hi : i < n.values.length) :
    ({ n with values := n.values.set i v } : Node).get a = .ok v := by
  simp [get, Kind.valueOf?, hindex, hi]

theorem get_set_of_ne (hindex : n.kind.slotIndex? a = some i) (hne : b ≠ a) :
    ({ n with values := n.values.set i v } : Node).get b = n.get b := by
  cases hb : n.kind.slotIndex? b with
  | none => simp [get, Kind.valueOf?, hb]
  | some j =>
      have hij : i ≠ j := by
        rintro rfl
        exact hne (Kind.slotIndex?_inj hb hindex)
      simp [get, Kind.valueOf?, hb, hij]

end Node

theorem ListView.toList_of_get_eq {τ : Type} [ListElement τ] {view : ListView τ} {s : Store}
    {list : List τ} (h : s.get view.owner view.attr = .ok (ListElement.toValue list)) :
    view.toList s = list := by
  simp [toList, h, ListElement.ofValue?_toValue]

namespace Store

variable {s s' : Store} {x y : NodeId} {a b : Attr} {v : Value NodeId} {n : Node}

theorem get_of_node? (hn : s.node? x = some n) : s.get x a = n.get a := by
  simp [get, fetch, hn, bind, Except.bind]

theorem get_congr (h : s'.node? x = s.node? x) : s'.get x a = s.get x a := by
  simp [get, fetch, h]

/-- The second store differs from the first at most in the value of one attribute of one
instance, and everyone reads that value there. -/
structure WritesOnly (s s' : Store) (x : NodeId) (a : Attr) (v : Value NodeId) : Prop where
  /-- The instance has the attribute, and only the value in its slot was exchanged. -/
  slot : ∃ n i, s.node? x = some n ∧ n.kind.slotIndex? a = some i ∧
    s'.node? x = some { n with values := n.values.set i v }
  others : ∀ y, y ≠ x → s'.node? y = s.node? y
  size_eq : s'.size = s.size
  read : s'.get x a = .ok v
  rest : ∀ b, b ≠ a → s'.get x b = s.get x b
  /-- A list that was written is seen through every view of the attribute. -/
  nodeView : ∀ list, v = .nodes list → (⟨x, a⟩ : ListView NodeId).toList s' = list
  textView : ∀ list, v = .texts list → (⟨x, a⟩ : ListView String).toList s' = list

theorem WritesOnly.of_put {i : Nat} (hn : s.node? x = some n)
    (hindex : n.kind.slotIndex? a = some i) (hi : i < n.values.length) :
    s.WritesOnly (s.put x { n with values := n.values.set i v }) x a v := by
  have hwritten := node?_put hn { n with values := n.values.set i v }
  have hself : (s.put x { n with values := n.values.set i v }).node? x =
      some { n with values := n.values.set i v } := by rw [hwritten, if_pos rfl]
  have hread : (s.put x { n with values := n.values.set i v }).get x a = .ok v := by
    rw [get_of_node? hself, Node.get_set_self hindex hi]
  refine ⟨⟨n, i, hn, hindex, hself⟩, fun y hy => ?_, ?_, hread, fun b hb => ?_, ?_, ?_⟩
  · rw [hwritten, if_neg hy]
  · simp [size, put]
  · rw [get_of_node? hself, get_of_node? hn, Node.get_set_of_ne hindex hb]
  · rintro list rfl
    exact ListView.toList_of_get_eq hread
  · rintro list rfl
    exact ListView.toList_of_get_eq hread

theorem WritesOnly.of_set (hs : s.Valid) (h : s.set x a v = .ok s') : s.WritesOnly s' x a v := by
  obtain ⟨n, m, hn, hm, rfl⟩ := set_eq_ok_iff.1 h
  obtain ⟨after, hafter, rfl⟩ := Node.set_eq_ok_iff.1 hm
  obtain ⟨i, slot, hslot, -, rfl⟩ := Kind.assign_eq_ok_iff.1 hafter
  obtain ⟨hindex, hfound⟩ := Kind.slot?_eq_some_iff.1 hslot
  obtain ⟨_, hvalue, -⟩ := Kind.Admits.exists_value (hs hn) hfound
  exact .of_put hn hindex (List.getElem?_eq_some_iff.1 hvalue).1

theorem WritesOnly.get_of_ne (h : s.WritesOnly s' x a v) (hne : ¬(y = x ∧ b = a)) :
    s'.get y b = s.get y b := by
  by_cases hy : y = x
  · subst hy
    exact h.rest b fun hb => hne ⟨rfl, hb⟩
  · exact get_congr (h.others y hy)

theorem WritesOnly.kind_eq (h : s.WritesOnly s' x a v) (y : NodeId) :
    (s'.node? y).map Node.kind = (s.node? y).map Node.kind := by
  by_cases hy : y = x
  · subst hy
    obtain ⟨n, i, hn, -, hn'⟩ := h.slot
    rw [hn, hn']
    rfl
  · rw [h.others y hy]

end Store

/-! ## Targets -/

/-- The list that an edit makes of another if it succeeds. -/
def ListEdit.result {ε α : Type} : ListEdit ε α → List ε → List ε
  | .set index element, list => list.take index ++ element :: list.drop (index + 1)
  | .insert index element, list => list.take index ++ element :: list.drop index
  | .remove index, list => list.take index ++ list.drop (index + 1)
  | .push element, list => list ++ [element]
  | .pop, list => list.take (list.length - 1)
  | .extend elements, list => list ++ elements
  | .clear, _ => []

theorem insertIdx_eq_take_append_drop {τ : Type} {list : List τ} {i : Nat} (h : i ≤ list.length)
    (e : τ) : list.insertIdx i e = list.take i ++ e :: list.drop i := by
  induction list generalizing i with
  | nil =>
      obtain rfl := Nat.le_zero.1 h
      rfl
  | cons x xs ih =>
      cases i with
      | zero => rfl
      | succ i =>
          rw [List.insertIdx_succ_cons, ih (Nat.le_of_succ_le_succ h)]
          rfl

theorem ListEdit.snd_run_of_ok {ε α : Type} {change : ListEdit ε α} {list : List ε} {answer : α}
    (h : (change.run list).1 = .ok answer) : (change.run list).2 = change.result list := by
  cases change <;> simp only [run, result] at h ⊢
  case set index element =>
    by_cases hlt : index < list.length
    · rw [List.getElem?_eq_getElem hlt]
      exact List.set_eq_take_cons_drop element hlt
    · rw [List.getElem?_eq_none (not_lt.1 hlt)] at h
      cases h
  case insert index element =>
    by_cases hlong : list.length < index
    · rw [if_pos hlong] at h
      cases h
    · rw [if_neg hlong]
      exact insertIdx_eq_take_append_drop (not_lt.1 hlong) element
  case remove index =>
    by_cases hlt : index < list.length
    · rw [List.getElem?_eq_getElem hlt]
      exact List.eraseIdx_eq_take_drop_succ list index
    · rw [List.getElem?_eq_none (not_lt.1 hlt)] at h
      cases h
  case pop => exact List.dropLast_eq_take

/-- An edit that succeeds has put what it makes of the list into the slot of the view. -/
theorem ListView.exists_of_exec_edit {τ α : Type} [ListElement τ] {view : ListView τ}
    {change : ListEdit τ α} {s s' : Store} {answer : α}
    (h : (view.edit change).exec s = (.ok answer, s')) :
    ∃ n i, s.node? view.owner = some n ∧ n.kind.slotIndex? view.attr = some i ∧
      s' = s.put view.owner { n with
        values := n.values.set i (ListElement.toValue (change.result (view.toList s))) } := by
  obtain ⟨_, hexec⟩ | ⟨n, v, list, hn, hget, hlist, hexec⟩ := view.exec_edit_cases change s <;>
    rw [hexec, Prod.mk.injEq] at h
  · cases h.1
  · obtain ⟨hanswer, rfl⟩ := h
    obtain ⟨i, slot, hslot, -⟩ := Node.exists_slot_of_get hget
    have hindex := (Kind.slot?_eq_some_iff.1 hslot).1
    have hview : view.toList s = list := by
      rw [toList, Store.get_of_node? hn, hget]
      simp only [hlist, Option.getD_some]
    refine ⟨n, i, hn, hindex, ?_⟩
    rw [hview, ListEdit.snd_run_of_ok hanswer, Node.overwrite_eq hindex]

theorem ElementRef.exec_edit_of_exec_set {τ : Type} [ListElement τ] {ref : ElementRef τ}
    {element answer : τ} {s s' : Store} (h : (ref.set element).exec s = (.ok answer, s')) :
    (ref.view.edit (.set ref.index element)).exec s = (.ok answer, s') := by
  rw [exec_set] at h
  rcases hedit : (ref.view.edit (.set ref.index element)).exec s with ⟨_ | _, _⟩ <;>
    rw [hedit] at h <;> cases h
  rfl

namespace Operation

variable {α : Type}

/-- The instance and the attribute that a call writes, if it is one that writes. -/
def target? : Operation α → Option (NodeId × Attr)
  | .set id a _ => some (id, a)
  | .editNodes view _ => some (view.owner, view.attr)
  | .editTexts view _ => some (view.owner, view.attr)
  | .assignNode ref _ => some (ref.view.owner, ref.view.attr)
  | .assignText ref _ => some (ref.view.owner, ref.view.attr)
  | _ => none

/-- The value that a call writes if it succeeds. -/
def written? : Operation α → Store → Option (Value NodeId)
  | .set _ _ v, _ => some v
  | .editNodes view change, s => some (.nodes (change.result (view.toList s)))
  | .editTexts view change, s => some (.texts (change.result (view.toList s)))
  | .assignNode ref element, s =>
      some (.nodes ((ListEdit.set ref.index element).result (ref.view.toList s)))
  | .assignText ref element, s =>
      some (.texts ((ListEdit.set ref.index element).result (ref.view.toList s)))
  | _, _ => none

variable {op : Operation α} {s s' : Store} {x : NodeId} {a : Attr}

/-- A call that writes and succeeds has put what it writes into the slot of its target. -/
theorem exists_of_target? {answer : α} (htarget : op.target? = some (x, a))
    (h : op.run.exec s = some (.ok answer, s')) :
    ∃ n i v, op.written? s = some v ∧ s.node? x = some n ∧ n.kind.slotIndex? a = some i ∧
      s' = s.put x { n with values := n.values.set i v } := by
  cases op with
  | set id b v =>
      cases htarget
      have hset := StoreM.exec_eq_ok_iff.1 (Option.some.inj h)
      obtain ⟨n, m, hn, hm, rfl⟩ := Store.set_eq_ok_iff.1 (Store.set_eq_ok_of_outcome hset)
      obtain ⟨_, hafter, rfl⟩ := Node.set_eq_ok_iff.1 hm
      obtain ⟨i, slot, hslot, -, rfl⟩ := Kind.assign_eq_ok_iff.1 hafter
      exact ⟨n, i, v, rfl, hn, (Kind.slot?_eq_some_iff.1 hslot).1, rfl⟩
  | editNodes view change =>
      cases htarget
      obtain ⟨n, i, hn, hi, hput⟩ := ListView.exists_of_exec_edit (Option.some.inj h)
      exact ⟨n, i, _, rfl, hn, hi, hput⟩
  | editTexts view change =>
      cases htarget
      obtain ⟨n, i, hn, hi, hput⟩ := ListView.exists_of_exec_edit (Option.some.inj h)
      exact ⟨n, i, _, rfl, hn, hi, hput⟩
  | assignNode ref element =>
      cases htarget
      have hedit := ElementRef.exec_edit_of_exec_set (Option.some.inj h)
      obtain ⟨n, i, hn, hi, hput⟩ := ListView.exists_of_exec_edit hedit
      exact ⟨n, i, _, rfl, hn, hi, hput⟩
  | assignText ref element =>
      cases htarget
      have hedit := ElementRef.exec_edit_of_exec_set (Option.some.inj h)
      obtain ⟨n, i, hn, hi, hput⟩ := ListView.exists_of_exec_edit hedit
      exact ⟨n, i, _, rfl, hn, hi, hput⟩
  | _ => cases htarget

theorem writesOnly_of_target? {answer : α} (hs : s.Valid) (htarget : op.target? = some (x, a))
    (h : op.run.exec s = some (.ok answer, s')) :
    ∃ v, op.written? s = some v ∧ s.WritesOnly s' x a v := by
  obtain ⟨n, i, v, hwritten, hn, hindex, rfl⟩ := exists_of_target? htarget h
  obtain ⟨hlt, -⟩ := List.findIdx?_eq_some_iff_getElem.1 hindex
  refine ⟨v, hwritten, .of_put hn hindex ?_⟩
  rw [← (hs hn).length_eq]
  exact hlt

/-- A call without a target keeps whatever allocation keeps. -/
theorem governs_of_target?_eq_none {I : Store → Prop} (hI : Store.AllocStable I)
    (htarget : op.target? = none) : (Store.keeping I).Governs op.run := by
  cases op with
  | read reading =>
      intro s _ s' _ hexec
      exact Reading.eq_of_exec_run hexec ▸ id
  | build k args =>
      intro s _ _ _ hexec
      cases hexec
      exact hI s _
  | create k values =>
      refine Discipline.governs_of_outcome (StoreM.atomic_create k values) fun s _ _ _ h => ?_
      obtain ⟨-, h⟩ := Store.create_eq_ok_iff.1 h
      cases h
      exact hI s _
  | update id changes =>
      refine Discipline.governs_of_outcome (StoreM.atomic_update id changes) fun s _ _ _ h => ?_
      rw [← Store.update, Store.update_eq] at h
      obtain ⟨n, -, h⟩ := bind_eq_ok_iff.1 h
      obtain ⟨m, -, h⟩ := bind_eq_ok_iff.1 h
      cases h
      exact hI s m
  | deepCopy id =>
      exact Discipline.governs_unfolding fun t s hs _ => (t.invariant_plant hI s hs).1
  | unpool id regions => exact governs_unpool hI id regions
  | ofJson v =>
      refine Discipline.governs_of_outcome (StoreM.atomic_ofJson v) fun s _ _ hs h => ?_
      rw [← Store.ofJson, Store.ofJson_eq] at h
      obtain ⟨t, -, h⟩ := bind_eq_ok_iff.1 h
      obtain rfl := congrArg Prod.snd (Except.ok.inj h)
      exact (t.invariant_plant hI s hs).1
  | ofText text =>
      refine Discipline.governs_of_outcome (StoreM.atomic_ofText text) fun s _ _ hs h => ?_
      rw [← Store.ofText, Store.ofText_eq] at h
      obtain ⟨t, -, h⟩ := bind_eq_ok_iff.1 h
      obtain rfl := congrArg Prod.snd (Except.ok.inj h)
      exact (t.invariant_plant hI s hs).1
  | set | editNodes | editTexts | assignNode | assignText => cases htarget

end Operation

/-! ## Sequences of writes -/

/-- The store after a call, which is as before if the call does not come back. -/
def Operation.after {α : Type} (op : Operation α) (s : Store) : Store :=
  (op.run.exec s).elim s Prod.snd

/-- A call that writes, with its target. -/
structure Mutation where
  {Answer : Type}
  call : Operation Answer
  owner : NodeId
  attr : Attr
  target_eq : call.target? = some (owner, attr)

namespace Mutation

/-- The call that writes an attribute. -/
def set (id : NodeId) (a : Attr) (v : Value NodeId) : Mutation := ⟨.set id a v, id, a, rfl⟩

/-- The store after calls one after the other, each of which may fail. -/
def runAll : List Mutation → Store → Store
  | [], s => s
  | m :: ms, s => runAll ms (m.call.after s)

/-- One call changes its owner at most. -/
theorem node?_after_of_ne (m : Mutation) (s : Store) {y : NodeId} (hy : m.owner ≠ y) :
    (m.call.after s).node? y = s.node? y := by
  rw [Operation.after]
  rcases hrun : m.call.run.exec s with _ | ⟨_ | answer, s'⟩
  · rfl
  · exact congrArg (Store.node? · y) (m.call.atomic hrun)
  · obtain ⟨n, i, v, -, hn, -, rfl⟩ := Operation.exists_of_target? m.target_eq hrun
    rw [Option.elim_some, Store.node?_put hn, if_neg (Ne.symm hy)]

/-- A sequence of calls changes their owners at most. -/
theorem node?_runAll_of_ne {ms : List Mutation} {y : NodeId} (h : ∀ m ∈ ms, m.owner ≠ y)
    (s : Store) : (runAll ms s).node? y = s.node? y := by
  induction ms generalizing s with
  | nil => rfl
  | cons m ms ih =>
      rw [runAll, ih (fun m' hm' => h m' (List.mem_cons_of_mem m hm')),
        m.node?_after_of_ne s (h m List.mem_cons_self)]

end Mutation

/-! ## Frames of operations -/

namespace EditM

variable {σ ε α : Type}

/-- Run in a store that holds the instances of the base, the action leaves these as they
are if it comes back, however it ends. -/
def Keeps (base : Store) (action : EditM σ ε α) : Prop :=
  ∀ ⦃state s answer state' s'⦄, base.Extends s →
    action.exec state s = some (answer, state', s') → base.Extends s'

theorem keeps_iff {base : Store} {action : EditM σ ε α} :
    Keeps base action ↔ (invariant base.Extends).Holds action fun _ => True := by
  constructor
  · intro h state s answer state' s' hs hexec
    exact ⟨fun _ => h hs hexec, fun _ _ => trivial⟩
  · intro h state s answer state' s' hs hexec
    exact (h hs hexec).1 hs

end EditM

open EditM (Keeps)

/-- What operations leave alone in a store. -/
structure Store.Framed (s : Store) : Prop where
  /-- Reading changes nothing, whether it answers or fails. -/
  looks : ∀ {α : Type} (reading : Reading α) ⦃answer s'⦄,
    (Operation.read reading).run.exec s = some (answer, s') → s' = s
  /-- A call without a target keeps every instance, whether it succeeds or not. -/
  adds : ∀ {σ ε α : Type} (op : Operation α), op.target? = none →
    Keeps s (EditM.call op : EditM σ ε (Except Error α))
  /-- So do the transformations if their actions do, whoever fails. -/
  transforms : ∀ {σ ε : Type} (f : NodeId → EditM σ ε NodeId), (∀ id, Keeps s (f id)) →
    ∀ id, Keeps s (transformChildren f id) ∧ Keeps s (transformBottomUp f id)
  replaces : ∀ {σ ε : Type} (g : NodeId → EditM σ ε (Option NodeId)), (∀ id, Keeps s (g id)) →
    ∀ id, Keeps s (transformTopDown g id)
  /-- A transformer keeps every instance if it does so apart from its calls to itself. -/
  runs : ∀ {σ ε : Type} (T : Transformer σ ε),
    (∀ self : NodeId → EditM σ ε NodeId, (∀ id, Keeps s (self id)) →
      ∀ id, Keeps s (T.transform self id)) → ∀ id, Keeps s (T.run id)
  transfers : ∀ {σ τ : Type} [StatementSource τ] (builder : Builder σ),
    (∀ id, Keeps s (builder.add id)) → ∀ (source : τ) (regions : Regions),
      Keeps s (transfer source builder) ∧ Keeps s (transfer source (builder.unpooling regions))
  /-- A call that writes and succeeds changes its target only. -/
  writes : ∀ {α : Type} (op : Operation α) (x : NodeId) (a : Attr) (answer : α) (s' : Store),
    s.Valid → op.target? = some (x, a) → op.run.exec s = some (.ok answer, s') →
      ∃ v, op.written? s = some v ∧ s.WritesOnly s' x a v
  /-- A call that fails changes nothing. -/
  fails : ∀ {α : Type} (op : Operation α) ⦃e s'⦄, op.run.exec s = some (.error e, s') → s' = s

/-- In every store every operation keeps to its frame. -/
theorem operations_keep_to_frames (s : Store) : s.Framed where
  looks _ _ _ hexec := Reading.eq_of_exec_run hexec
  adds _ htarget := EditM.keeps_iff.2 <| Discipline.holds_attempt <|
    Operation.governs_of_target?_eq_none s.allocStable_extends htarget
  transforms f hf id := by
    have hf' := fun id => EditM.keeps_iff.1 (hf id)
    exact ⟨EditM.keeps_iff.2 (invariant_transformChildren s.allocStable_extends hf' id),
      EditM.keeps_iff.2 (invariant_transformBottomUp s.allocStable_extends hf' id)⟩
  replaces g hg id :=
    EditM.keeps_iff.2 (invariant_transformTopDown s.allocStable_extends
      (fun id => EditM.keeps_iff.1 (hg id)) id)
  runs T hT id := by
    refine EditM.keeps_iff.2 (Discipline.holds_transformer (fun self hself id => ?_) id)
    exact EditM.keeps_iff.1 (hT self (fun id => EditM.keeps_iff.2 (hself id)) id)
  transfers builder hadd source regions := by
    have hadd' := fun id => EditM.keeps_iff.1 (hadd id)
    refine ⟨EditM.keeps_iff.2 (invariant_transfer hadd' source), EditM.keeps_iff.2 ?_⟩
    exact invariant_transfer
      (builder.invariant_unpooling s.allocStable_extends hadd' regions) source
  writes _ _ _ _ _ hs htarget hexec := Operation.writesOnly_of_target? hs htarget hexec
  fails op _ _ hexec := op.atomic hexec

/-- In `f(1,1)` a third argument is added and a name that is no text is refused. A
transformation that copies each node and then gives up keeps the term. -/
theorem operations_keep_to_frames_sharedTerm :
    let push : Operation Unit := .editNodes ⟨⟨1⟩, .arguments⟩ (.push ⟨0⟩)
    let rename : Operation Unit := .set ⟨1⟩ .name (.int 3)
    let giveUp (id : NodeId) : EditM Unit String NodeId := do
      let _ ← EditM.call (.deepCopy id)
      throw "gave up"
    (∃ s', push.run.exec Store.sharedTerm = some (.ok (), s') ∧
      Store.sharedTerm.WritesOnly s' ⟨1⟩ .arguments (.nodes [⟨0⟩, ⟨0⟩, ⟨0⟩])) ∧
    (∃ s', rename.run.exec Store.sharedTerm = some (.error (.typeMismatch .text .int), s') ∧
      s' = Store.sharedTerm) ∧
    Keeps Store.sharedTerm (transformBottomUp giveUp ⟨1⟩) := by
  intro push rename giveUp
  have hs : Store.sharedTerm.WellFormed := .of_inOrder (by decide)
  have hframed := operations_keep_to_frames Store.sharedTerm
  refine ⟨?_, ?_, ?_⟩
  · have hpush : push.run.exec Store.sharedTerm = some (.ok (), _) := rfl
    obtain ⟨v, hv, hwrites⟩ := hframed.writes push ⟨1⟩ .arguments () _ hs.valid rfl hpush
    cases hv
    exact ⟨_, hpush, hwrites⟩
  · have hrename : rename.run.exec Store.sharedTerm =
      some (.error (.typeMismatch .text .int), _) := rfl
    exact ⟨_, hrename, hframed.fails rename hrename⟩
  · refine (hframed.transforms giveUp (fun id => EditM.keeps_iff.2 ?_) ⟨1⟩).2
    have hcopy : Keeps Store.sharedTerm
        (EditM.call (.deepCopy id) : EditM Unit String (Except Error NodeId)) :=
      hframed.adds (.deepCopy id) rfl
    exact (EditM.invariant _).holds_bind (EditM.keeps_iff.1 hcopy) fun _ _ =>
      Discipline.holds_throw "gave up"

end AnswerSet
