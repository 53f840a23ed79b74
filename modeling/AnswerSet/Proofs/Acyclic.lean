import AnswerSet.Proofs.Json.RoundTrip
import AnswerSet.Proofs.Store.Copy
import AnswerSet.Proofs.Store.Visibility
import AnswerSet.Proofs.Transform.Growth
import AnswerSet.Proofs.Visit

/-!
# Runs without cycles

A write makes a cycle only if the instance that is written can be reached from a node that is
put there. Every cycle after the write would pass through the written instance, and a path
back to it from one of its children does not use the write. Operations that do not write let
the store grow, and nothing that was there can reach what they add.

A run of the library is careful if its writes put no node into an instance from which this
instance can be reached. All stores of a careful run are well-formed. Every descent along
children ends in them, and so does everything that follows the children of a node.
-/

namespace AnswerSet

/-! ## Writes -/

namespace Store

variable {s s' : Store} {x y z : NodeId} {a : Attr} {v : Value NodeId}

/-- A path that the other store does not have passes through the instance. -/
theorem AgreeOff.above (h : s.AgreeOff s' x) (habove : s'.Above y z) :
    s.Above y z ∨ ∃ c, s'.Reaches y x ∧ s'.Child x c ∧ s'.Reaches c z := by
  induction habove using Relation.TransGen.head_induction_on with
  | @single y hchild =>
      by_cases hy : y = x
      · exact .inr ⟨z, hy ▸ .refl, hy ▸ hchild, .refl⟩
      · exact .inl (.single (h.symm.child hy hchild))
  | @head y w hchild hrest ih =>
      by_cases hy : y = x
      · exact .inr ⟨w, hy ▸ .refl, hy ▸ hchild, hrest.to_reflTransGen⟩
      · rcases ih with habove | ⟨c, hto, hc, hfrom⟩
        · exact .inl (.head (h.symm.child hy hchild) habove)
        · exact .inr ⟨c, .head hchild hto, hc, hfrom⟩

theorem WritesOnly.acyclic (h : s.WritesOnly s' x a v) (hs : s.Acyclic)
    (hv : ∀ c ∈ v.children, ¬ s.Reaches c x) : s'.Acyclic := by
  have hagree : s.AgreeOff s' x := h.others
  obtain ⟨n, i, hn, -, hn'⟩ := h.slot
  intro y hcycle
  obtain habove | ⟨c, hto, hchild, hfrom⟩ := hagree.above hcycle
  · exact hs y habove
  · have hback : s.Reaches c x := hagree.reaches_iff.1 (hfrom.trans hto)
    obtain ⟨m, hm, hc⟩ := child_iff.1 hchild
    rw [hn', Option.some.injEq] at hm
    subst hm
    obtain ⟨w, hw, hcw⟩ := mem_children_iff.1 hc
    rcases List.mem_or_eq_of_mem_set hw with hw | rfl
    · exact not_reaches_of_mem_values hs hn hw hcw hback
    · exact hv c hcw hback

theorem WritesOnly.holds (h : s.WritesOnly s' x a v) (hy : s.Holds y) : s'.Holds y := by
  have hkinds := congrArg Option.isSome (h.kind_eq y)
  rw [Option.isSome_map, Option.isSome_map] at hkinds
  exact hkinds.trans hy

theorem WritesOnly.closed (h : s.WritesOnly s' x a v) (hs : s.Closed)
    (hv : ∀ c ∈ v.children, s.Holds c) : s'.Closed := by
  intro y m hm c hc
  refine h.holds ?_
  by_cases hy : y = x
  · subst hy
    obtain ⟨n, i, hn, -, hn'⟩ := h.slot
    rw [hn', Option.some.injEq] at hm
    subst hm
    obtain ⟨w, hw, hcw⟩ := mem_children_iff.1 hc
    rcases List.mem_or_eq_of_mem_set hw with hw | rfl
    · exact hs hn c (mem_children_iff.2 ⟨w, hw, hcw⟩)
    · exact hv c hcw
  · rw [h.others y hy] at hm
    exact hs hm c hc

end Store

/-! ## Calls -/

theorem Node.mem_values_of_get {n : Node} {a : Attr} {v : Value NodeId} (h : n.get a = .ok v) :
    v ∈ n.values := by
  unfold get at h
  split at h
  · rename_i hv
    cases h
    exact Kind.mem_of_valueOf? hv
  · cases h

/-- Every child of a changed copy was there before or comes from the changes. -/
theorem Node.mem_children_of_setAll {n m : Node} {changes : List (Attr × Value NodeId)}
    (h : n.setAll changes = .ok m) {c : NodeId} (hc : c ∈ m.children) :
    c ∈ n.children ∨ c ∈ changes.flatMap fun change => change.2.children := by
  induction changes generalizing n with
  | nil =>
      cases h
      exact .inl hc
  | cons change rest ih =>
      obtain ⟨k, hk, h⟩ := bind_eq_ok_iff.1 h
      obtain ⟨after, hafter, rfl⟩ := Node.set_eq_ok_iff.1 hk
      obtain ⟨i, slot, -, -, rfl⟩ := Kind.assign_eq_ok_iff.1 hafter
      rw [List.flatMap_cons, List.mem_append]
      rcases ih h with hc | hc
      · obtain ⟨w, hw, hcw⟩ := Store.mem_children_iff.1 hc
        rcases List.mem_or_eq_of_mem_set hw with hw | rfl
        · exact .inl (Store.mem_children_iff.2 ⟨w, hw, hcw⟩)
        · exact .inr (.inl hcw)
      · exact .inr (.inr hc)

namespace Operation

variable {α : Type} {s s' : Store}

/-- The nodes that a call is given to put into a new instance. -/
def given : Operation α → List NodeId
  | .build k args => (⟨k, Args.values k.slots args⟩ : Node).children
  | .create k values => (⟨k, values⟩ : Node).children
  | .update _ changes => changes.flatMap fun change => change.2.children
  | _ => []

/-- The nodes in the answer of a call that adds instances. -/
def answered : Operation α → α → List NodeId
  | .build _ _, id => [id]
  | .create _ _, id => [id]
  | .update _ _, id => [id]
  | .deepCopy _, id => [id]
  | .unpool _ _, ids => ids
  | .ofJson _, id => [id]
  | .ofText _, id => [id]
  | _, _ => []

/-- The call writes the node into an attribute of the owner that does not hold it yet. -/
def Stores (op : Operation α) (s : Store) (owner c : NodeId) : Prop :=
  ∃ a v, op.target? = some (owner, a) ∧ op.written? s = some v ∧ c ∈ v.children ∧
    ∀ w, s.get owner a = .ok w → c ∉ w.children

/-- The call is given nodes of the store, and if it writes, then it stores nodes of the store
from which the owner cannot be reached. -/
structure Careful (op : Operation α) (s : Store) : Prop where
  given : ∀ c ∈ op.given, s.Holds c
  stored : ∀ owner c, op.Stores s owner c → s.Holds c ∧ ¬ s.Reaches c owner

theorem Careful.of_target?_eq_none {op : Operation α} (htarget : op.target? = none)
    (hgiven : ∀ c ∈ op.given, s.Holds c) : op.Careful s where
  given := hgiven
  stored owner c hstores := by
    obtain ⟨a, v, htarget', -⟩ := hstores
    rw [htarget] at htarget'
    cases htarget'

/-- A call that writes nothing lets the store grow. -/
theorem grows_of_target?_eq_none {op : Operation α} (htarget : op.target? = none)
    (hs : s.WellFormed) (hgiven : ∀ c ∈ op.given, s.Holds c) {answer : α}
    (h : op.run.exec s = some (.ok answer, s')) :
    s.Grows s' ∧ ∀ r ∈ op.answered answer, s'.Holds r := by
  have hnew {n : Node} : ∀ r ∈ [((Store.alloc n).run s).1], ((Store.alloc n).run s).2.Holds r := by
    intro r hr
    rw [List.mem_singleton.1 hr]
    exact Option.isSome_of_eq_some (Store.node?_alloc_self s n)
  have hplanted {β : Type} {t : Tree β} (ht : t.Valid) {root : NodeId}
      (hrun : t.plant.run s = (root, s')) : s.Grows s' ∧ ∀ r ∈ [root], s'.Holds r := by
    obtain ⟨hgrows, hheld⟩ := Tree.growth_plant ht s s (.refl s)
    rw [hrun] at hgrows hheld
    exact ⟨hgrows, fun r hr => List.mem_singleton.1 hr ▸ hheld s' (.refl s')⟩
  cases op with
  | read reading =>
      cases Reading.eq_of_exec_run h
      exact ⟨.refl s, fun r hr => absurd hr List.not_mem_nil⟩
  | build k args =>
      cases h
      exact ⟨.alloc (k.admits_values args) hgiven, hnew⟩
  | create k values =>
      have h := StoreM.exec_eq_ok_iff.1 (Option.some.inj h)
      obtain ⟨hvalues, heq⟩ := Store.create_eq_ok_iff.1 h
      cases heq
      exact ⟨.alloc hvalues hgiven, hnew⟩
  | update id changes =>
      have h : s.update id changes = .ok (answer, s') :=
        StoreM.exec_eq_ok_iff.1 (Option.some.inj h)
      rw [Store.update_eq] at h
      obtain ⟨n, hn, h⟩ := bind_eq_ok_iff.1 h
      obtain ⟨m, hm, h⟩ := bind_eq_ok_iff.1 h
      cases h
      have hn := Store.fetch_eq_ok_iff.1 hn
      refine ⟨.alloc ((hs.valid hn).setAll hm) fun c hc => ?_, hnew⟩
      rcases Node.mem_children_of_setAll hm hc with hc | hc
      · exact hs.closed hn c hc
      · exact hgiven c hc
  | deepCopy id =>
      rw [run, RunM.deepCopy, RunM.exec_unfolding, Option.map_eq_some_iff] at h
      obtain ⟨t, ht, h⟩ := h
      obtain ⟨hanswer, rfl⟩ := Prod.mk.inj h
      exact hplanted (hs.valid.unfolding? ht) (Prod.ext (Except.ok.inj hanswer) rfl)
  | unpool id regions => exact hs.grows_of_unpool h
  | ofJson v =>
      have h : s.ofJson v = .ok (answer, s') := StoreM.exec_eq_ok_iff.1 (Option.some.inj h)
      rw [Store.ofJson_eq] at h
      obtain ⟨t, ht, h⟩ := bind_eq_ok_iff.1 h
      exact hplanted (Tree.valid_of_ofJson v ht) (Except.ok.inj h)
  | ofText text =>
      have h : s.ofText text = .ok (answer, s') := StoreM.exec_eq_ok_iff.1 (Option.some.inj h)
      rw [Store.ofText_eq] at h
      obtain ⟨t, ht, h⟩ := bind_eq_ok_iff.1 h
      exact hplanted (Tree.valid_of_ofText ht) (Except.ok.inj h)
  | set | editNodes | editTexts | assignNode | assignText => cases htarget

/-- So a callback may call it. -/
theorem growth_run {σ : Type} {total : Prop} {base : Store} {op : Operation α}
    (htarget : op.target? = none) (hgiven : ∀ c ∈ op.given, base.Holds c)
    (hback : total → ∀ s, base.Extends s → s.WellFormed → (op.run.exec s).isSome) :
    (EditM.growth total).Holds base (EditM.ofRun op.run : EditM σ Error α)
      fun s answer => ∀ r ∈ op.answered answer, s.Holds r := by
  refine EditM.growth_ofRun op.atomic hback fun s answer s' hs hwellFormed hrun => ?_
  obtain ⟨hgrows, hheld⟩ := op.grows_of_target?_eq_none htarget hwellFormed
    (fun c hc => hs.holds (hgiven c hc)) hrun
  exact ⟨hgrows, fun s'' hs'' r hr => hs''.holds (hheld r hr)⟩

/-- A careful call keeps the store well-formed, whether it succeeds or fails. -/
theorem Careful.wellFormed {op : Operation α} (h : op.Careful s) (hs : s.WellFormed)
    {answer : Except Error α} (hrun : op.run.exec s = some (answer, s')) : s'.WellFormed := by
  cases answer with
  | error e => exact op.atomic hrun ▸ hs
  | ok answer =>
    cases htarget : op.target? with
    | none => exact (op.grows_of_target?_eq_none htarget hs h.given hrun).1.wellFormed hs
    | some target =>
        obtain ⟨v, hwritten, hwrites⟩ := writesOnly_of_target? hs.valid htarget hrun
        -- What the attribute held before is there and does not reach the instance.
        have hchildren : ∀ c ∈ v.children, s.Holds c ∧ ¬ s.Reaches c target.1 := by
          intro c hc
          by_cases hold : ∃ w, s.get target.1 target.2 = .ok w ∧ c ∈ w.children
          · obtain ⟨w, hw, hcw⟩ := hold
            obtain ⟨n, hn, hw⟩ := bind_eq_ok_iff.1 hw
            have hn := Store.fetch_eq_ok_iff.1 hn
            have hmem := Node.mem_values_of_get hw
            exact ⟨hs.closed hn c (Store.mem_children_iff.2 ⟨w, hmem, hcw⟩),
              Store.not_reaches_of_mem_values hs.acyclic hn hmem hcw⟩
          · refine h.stored target.1 c ⟨target.2, v, htarget, hwritten, hc, fun w hw hcw => ?_⟩
            exact hold ⟨w, hw, hcw⟩
        exact ⟨(op.evolution_governs hs.valid hrun).valid hs.valid,
          hwrites.closed hs.closed fun c hc => (hchildren c hc).1,
          hwrites.acyclic hs.acyclic fun c hc => (hchildren c hc).2⟩

end Operation

/-! ## Removing elements -/

/-- The edit puts nothing into the list that was not there. -/
def ListEdit.Removes {τ α : Type} (change : ListEdit τ α) : Prop :=
  ∀ list, change.result list ⊆ list

namespace ListEdit

variable {τ : Type}

theorem removes_remove (index : Nat) : (remove index : ListEdit τ τ).Removes := by
  intro list
  rw [result, ← List.eraseIdx_eq_take_drop_succ]
  exact (List.eraseIdx_sublist list index).subset

theorem removes_pop : (pop : ListEdit τ (Option τ)).Removes :=
  fun list => (List.take_sublist _ list).subset

theorem removes_clear : (clear : ListEdit τ (List τ)).Removes := fun list => List.nil_subset list

end ListEdit

theorem ListView.exists_of_mem_toList {view : ListView NodeId} {s : Store} {c : NodeId}
    (h : c ∈ view.toList s) : ∃ w, s.get view.owner view.attr = .ok w ∧ c ∈ w.children := by
  unfold toList at h
  split at h
  · rename_i w hw
    refine ⟨w, hw, ?_⟩
    cases w with
    | nodes list => exact h
    | _ => cases h
  · cases h

/-- Removing elements stores nothing, so it is always careful. -/
theorem Store.WellFormed.of_removes {α : Type} {view : ListView NodeId} {s s' : Store}
    (hs : s.WellFormed) {change : ListEdit NodeId α} (hchange : change.Removes)
    {answer : Except Error α} (hrun : (view.edit change).exec s = (answer, s')) :
    s'.WellFormed := by
  have hcareful : (Operation.editNodes view change).Careful s := by
    refine ⟨fun c hc => (by cases hc), fun owner c hstores => ?_⟩
    obtain ⟨a, v, htarget, hwritten, hc, hnot⟩ := hstores
    cases htarget
    cases hwritten
    obtain ⟨w, hw, hcw⟩ := ListView.exists_of_mem_toList (hchange _ hc)
    exact absurd hcw (hnot w hw)
  exact hcareful.wellFormed hs (congrArg some hrun)

/-! ## Runs -/

namespace Store

variable {s s' : Store}

/-- An operation of the library is carried out in the first store and leads to the second.
Writes are careful. Callbacks and builders let the store grow. -/
inductive CarefulStep (s : Store) : Store → Prop where
  | call {α : Type} {op : Operation α} {answer : Except Error α} {s' : Store} (hop : op.Careful s)
      (hrun : op.run.exec s = some (answer, s')) : CarefulStep s s'
  | transformChildren {σ ε : Type} {f : NodeId → EditM σ ε NodeId}
      (hf : EditM.Growing False s f fun r => [r]) {id : NodeId} (hid : s.Holds id) {state : σ}
      {result : Except ε NodeId × σ × Store}
      (hrun : (transformChildren f id).exec state s = some result) : CarefulStep s result.2.2
  | transformBottomUp {σ ε : Type} {f : NodeId → EditM σ ε NodeId}
      (hf : EditM.Growing False s f fun r => [r]) {id : NodeId} (hid : s.Holds id) {state : σ}
      {result : Except ε NodeId × σ × Store}
      (hrun : (transformBottomUp f id).exec state s = some result) : CarefulStep s result.2.2
  | transformTopDown {σ ε : Type} {g : NodeId → EditM σ ε (Option NodeId)}
      (hg : EditM.Growing False s g Option.toList) {id : NodeId} (hid : s.Holds id) {state : σ}
      {result : Except ε NodeId × σ × Store}
      (hrun : (transformTopDown g id).exec state s = some result) : CarefulStep s result.2.2
  | transformer {σ ε : Type} {T : Transformer σ ε}
      (hT : ∀ self : NodeId → EditM σ ε NodeId, EditM.Growing False s self (fun r => [r]) →
        EditM.Growing False s (T.transform self) fun r => [r])
      {id : NodeId} (hid : s.Holds id) {state : σ} {result : Except ε NodeId × σ × Store}
      (hrun : (T.run id).exec state s = some result) : CarefulStep s result.2.2
  | transfer {σ τ : Type} [StatementSource τ] {builder : Builder σ}
      (hadd : EditM.Growing False s builder.add fun _ => []) {source : τ}
      (hsource : ∀ id ∈ StatementSource.statements source, s.Holds id) {state : σ}
      {result : Except Error Nat × σ × Store}
      (hrun : (transfer source builder).exec state s = some result) : CarefulStep s result.2.2

/-- An action that lets the store grow leads from a well-formed store to one. -/
theorem wellFormed_of_growth {σ ε α : Type} {action : EditM σ ε α} {post : Store → α → Prop}
    (h : (EditM.growth False).Holds s action post) (hs : s.WellFormed) {state : σ}
    {result : Except ε α × σ × Store} (hrun : action.exec state s = some result) :
    result.2.2.WellFormed :=
  ((h state s (.refl s) hs).2 _ _ _ hrun).1.wellFormed hs

theorem CarefulStep.wellFormed (h : s.CarefulStep s') (hs : s.WellFormed) : s'.WellFormed := by
  cases h with
  | call hop hrun => exact hop.wellFormed hs hrun
  | transformChildren hf hid hrun =>
      exact wellFormed_of_growth (growth_transformChildren hf hid) hs hrun
  | transformBottomUp hf hid hrun =>
      exact wellFormed_of_growth (growth_transformBottomUp hf hid) hs hrun
  | transformTopDown hg hid hrun =>
      exact wellFormed_of_growth (growth_transformTopDown hg hid) hs hrun
  | transformer hT hid hrun =>
      exact wellFormed_of_growth ((growing_transformer hT).answer (.refl s) hid) hs hrun
  | transfer hadd hsource hrun =>
      exact wellFormed_of_growth (growth_transfer hadd hsource) hs hrun

/-- The store can be reached from the empty one by careful steps. -/
def CarefullyMade (s : Store) : Prop := Relation.ReflTransGen CarefulStep .empty s

theorem CarefullyMade.call (h : s.CarefullyMade) {α : Type} {op : Operation α}
    {answer : Except Error α} (hop : op.Careful s) (hrun : op.run.exec s = some (answer, s')) :
    s'.CarefullyMade :=
  Relation.ReflTransGen.tail h (.call hop hrun)

theorem CarefullyMade.wellFormed (h : s.CarefullyMade) : s.WellFormed := by
  induction h with
  | refl => exact .of_inOrder (by decide)
  | tail _ hstep ih => exact hstep.wellFormed ih

/-! ## Termination -/

theorem Grounded.acc {x : NodeId} (h : s.Grounded x) : Acc (fun c y => s.Child y c) x := by
  induction h with
  | @intro x n hn _ ih =>
      refine .intro x fun c hc => ?_
      obtain ⟨m, hm, hmem⟩ := child_iff.1 hc
      rw [hn, Option.some.injEq] at hm
      exact ih c (hm ▸ hmem)

theorem WellFormed.wellFounded_child (hs : s.WellFormed) :
    WellFounded fun c x => s.Child x c := by
  refine ⟨fun x => ?_⟩
  cases hx : s.node? x with
  | some n => exact (hs.grounded hx).acc
  | none =>
      refine .intro x fun c hc => ?_
      obtain ⟨n, hn, -⟩ := child_iff.1 hc
      rw [hx] at hn
      cases hn

/-- What follows the children of a node comes to an end, for every node of the store. -/
structure Terminating (s : Store) : Prop where
  /-- So does every descent along children. -/
  descends : WellFounded fun c x => s.Child x c
  unfolds : ∀ id, s.Holds id → ∃ t, s.unfold id = .ok t
  prints : ∀ id, s.Holds id → s.code id ≠ .error .endless ∧ s.inspect id ≠ .error .endless
  compares : ∀ a b, s.Holds a → s.Holds b →
    (∃ e, s.same a b = .ok e) ∧ ∃ o, s.compare a b = .ok o
  describes : ∀ id, s.Holds id → ∃ v, s.toJson id = .ok v
  copies : ∀ id, s.Holds id → ∃ answer, s.deepCopy id = .ok answer
  unpools : ∀ id regions, s.Holds id → ∃ answer, s.unpool id regions = .ok answer
  visits : ∀ {σ : Type} (visitor : NodeId → StateM σ Bool) id (state : σ), s.Holds id →
    ∃ state', s.visit visitor id state = .ok state'
  /-- Transformations come back if their actions do so and let the store grow. -/
  transforms : ∀ {σ ε : Type} (f : NodeId → EditM σ ε NodeId),
    EditM.Growing True s f (fun r => [r]) → ∀ id (state : σ), s.Holds id →
      ((transformChildren f id).exec state s).isSome ∧
        ((transformBottomUp f id).exec state s).isSome
  replaces : ∀ {σ ε : Type} (g : NodeId → EditM σ ε (Option NodeId)),
    EditM.Growing True s g Option.toList → ∀ id (state : σ), s.Holds id →
      ((transformTopDown g id).exec state s).isSome

theorem WellFormed.terminating (hs : s.WellFormed) : s.Terminating where
  descends := hs.wellFounded_child
  unfolds id hid := by
    obtain ⟨t, ht⟩ := hs.exists_unfolding?_of_holds hid
    exact ⟨t, unfold_eq_ok_iff.2 ht⟩
  prints id hid := by
    obtain ⟨t, ht⟩ := hs.exists_unfolding?_of_holds hid
    have hunfold := unfold_eq_ok_iff.2 ht
    constructor
    · rw [code, hunfold]
      cases htext : t.code? <;>
        simp [htext, bind, Except.bind, pure, Except.pure, throw, throwThe, MonadExceptOf.throw]
    · rw [inspect, hunfold]
      cases htext : t.inspect? <;>
        simp [htext, bind, Except.bind, pure, Except.pure, throw, throwThe, MonadExceptOf.throw]
  compares a b ha hb := by
    obtain ⟨t, ht⟩ := hs.exists_unfolding?_of_holds ha
    obtain ⟨u, hu⟩ := hs.exists_unfolding?_of_holds hb
    exact ⟨⟨_, same_of_unfolding? ht hu⟩, _, compare_of_unfolding? ht hu⟩
  describes id hid := by
    obtain ⟨t, ht⟩ := hs.exists_unfolding?_of_holds hid
    exact ⟨_, toJson_of_unfolding? ht⟩
  copies id hid := by
    obtain ⟨t, ht⟩ := hs.exists_unfolding?_of_holds hid
    exact ⟨_, deepCopy_of_unfolding? ht⟩
  unpools id regions hid := by
    obtain ⟨t, ht⟩ := hs.exists_unfolding?_of_holds hid
    obtain rfl := label_of_unfolding? ht
    exact ⟨_, unpool_of_unfolding? ht regions⟩
  visits visitor id state hid := by
    obtain ⟨t, ht⟩ := hs.exists_unfolding?_of_holds hid
    exact ⟨_, visit_of_unfolding? ht state⟩
  transforms f hf id state hid :=
    ⟨(growth_transformChildren hf hid state s (.refl s) hs).1 trivial,
      (growth_transformBottomUp hf hid state s (.refl s) hs).1 trivial⟩
  replaces g hg id state hid := (growth_transformTopDown hg hid state s (.refl s) hs).1 trivial

/-! ## What needs no care -/

/-- Operations of the library that keep the store well-formed in any case, if the nodes that
they are given are there. -/
structure StaysWellFormed (s : Store) : Prop where
  /-- A call that writes nothing, -/
  adds : ∀ {α : Type} (op : Operation α), op.target? = none → (∀ c ∈ op.given, s.Holds c) →
    ∀ answer s', op.run.exec s = some (answer, s') → s'.WellFormed
  /-- a call that takes elements out of a list, -/
  removes : ∀ (view : ListView NodeId) index answer s',
    (view.edit (.remove index)).exec s = (answer, s') → s'.WellFormed
  pops : ∀ (view : ListView NodeId) answer s',
    (view.edit .pop).exec s = (answer, s') → s'.WellFormed
  clears : ∀ (view : ListView NodeId) answer s',
    (view.edit .clear).exec s = (answer, s') → s'.WellFormed
  /-- and a transformation whose callback lets the store grow, however it ends. -/
  transforms : ∀ {σ ε : Type} (f : NodeId → EditM σ ε NodeId),
    EditM.Growing False s f (fun r => [r]) → ∀ id (state : σ), s.Holds id →
      (∀ result ∈ (transformChildren f id).exec state s, result.2.2.WellFormed) ∧
        ∀ result ∈ (transformBottomUp f id).exec state s, result.2.2.WellFormed
  replaces : ∀ {σ ε : Type} (g : NodeId → EditM σ ε (Option NodeId)),
    EditM.Growing False s g Option.toList → ∀ id (state : σ), s.Holds id →
      ∀ result ∈ (transformTopDown g id).exec state s, result.2.2.WellFormed
  /-- The same goes for a transformer that lets it grow apart from its calls to itself. -/
  runs : ∀ {σ ε : Type} (T : Transformer σ ε),
    (∀ self : NodeId → EditM σ ε NodeId, EditM.Growing False s self (fun r => [r]) →
      EditM.Growing False s (T.transform self) fun r => [r]) → ∀ id (state : σ), s.Holds id →
        ∀ result ∈ (T.run id).exec state s, result.2.2.WellFormed
  /-- So does handing statements to a builder that lets the store grow, unpooled or not. -/
  transfers : ∀ {σ τ : Type} [StatementSource τ] (builder : Builder σ),
    EditM.Growing False s builder.add (fun _ => []) → ∀ (source : τ) regions (state : σ),
      (∀ id ∈ StatementSource.statements source, s.Holds id) →
        (∀ result ∈ (transfer source builder).exec state s, result.2.2.WellFormed) ∧
        ∀ result ∈ (transfer source (builder.unpooling regions)).exec state s,
          result.2.2.WellFormed
  /-- A callback may make calls that write nothing. -/
  calls : ∀ {σ α : Type} (op : Operation α), op.target? = none → (∀ c ∈ op.given, s.Holds c) →
    (EditM.growth False).Holds s (EditM.ofRun op.run : EditM σ Error α)
      fun s' answer => ∀ r ∈ op.answered answer, s'.Holds r

theorem WellFormed.staysWellFormed (hs : s.WellFormed) : s.StaysWellFormed where
  adds _ htarget hgiven _ _ hrun :=
    (Operation.Careful.of_target?_eq_none htarget hgiven).wellFormed hs hrun
  removes _ index _ _ hrun := hs.of_removes (ListEdit.removes_remove index) hrun
  pops _ _ _ hrun := hs.of_removes ListEdit.removes_pop hrun
  clears _ _ _ hrun := hs.of_removes ListEdit.removes_clear hrun
  transforms _ hf _ _ hid :=
    ⟨fun _ hrun => (CarefulStep.transformChildren hf hid hrun).wellFormed hs,
      fun _ hrun => (CarefulStep.transformBottomUp hf hid hrun).wellFormed hs⟩
  replaces _ hg _ _ hid _ hrun := (CarefulStep.transformTopDown hg hid hrun).wellFormed hs
  runs _ hT _ _ hid _ hrun := (CarefulStep.transformer hT hid hrun).wellFormed hs
  transfers builder hadd _ regions _ hsource :=
    ⟨fun _ hrun => (CarefulStep.transfer hadd hsource hrun).wellFormed hs, fun _ hrun =>
      (CarefulStep.transfer (builder.growing_unpooling hadd regions) hsource hrun).wellFormed hs⟩
  calls _ htarget hgiven := Operation.growth_run htarget hgiven False.elim

end Store

/-- All stores of a careful run from the empty store are acyclic, so that whatever follows the
children of a node comes to an end. Care is needed for writes only: all other operations keep
every well-formed store well-formed. -/
theorem careful_runs_stay_acyclic :
    (∀ s : Store, s.CarefullyMade → s.Acyclic ∧ s.Terminating) ∧
      ∀ s : Store, s.WellFormed → s.StaysWellFormed :=
  ⟨fun _ hs => ⟨hs.wellFormed.acyclic, hs.wellFormed.terminating⟩, fun _ hs => hs.staysWellFormed⟩

/-- The term `f((1;2))` is built, then `3` is built and added to the pool, which is older. At
last the term is copied node by node. -/
theorem careful_runs_stay_acyclic_pooledTerm :
    let three : Operation NodeId := .build .symbolicTerm (.default, .number 3, ())
    let push : Operation Unit := .editNodes ⟨⟨2⟩, .arguments⟩ (ListEdit.push ⟨4⟩)
    let copy (id : NodeId) : EditM Unit Error NodeId := EditM.ofRun (Operation.deepCopy id).run
    Store.pooledTerm.CarefullyMade ∧
      ∃ s₁ s₂ s₃ answer, three.run.exec .pooledTerm = some (.ok ⟨4⟩, s₁) ∧
        push.run.exec s₁ = some (.ok (), s₂) ∧
        (transformBottomUp copy ⟨3⟩).exec () s₂ = some (answer, (), s₃) ∧
        s₃.CarefullyMade ∧ s₃.Acyclic ∧ s₃.Terminating := by
  intro three push copy
  have hbuild {s s' : Store} (h : s.CarefullyMade) (k : Kind) (args : Args k.slots) {id : NodeId}
      (hgiven : ∀ c ∈ (Operation.build k args).given, s.Holds c)
      (hrun : (Operation.build k args).run.exec s = some (.ok id, s')) : s'.CarefullyMade :=
    h.call (.of_target?_eq_none rfl hgiven) hrun
  have h₁ := hbuild .refl .symbolicTerm (.default, .number 1, ()) (by decide) rfl
  have h₂ := hbuild h₁ .symbolicTerm (.default, .number 2, ()) (by decide) rfl
  have h₃ := hbuild h₂ .pool (.default, [⟨0⟩, ⟨1⟩], ()) (by decide) rfl
  have h₄ : Store.pooledTerm.CarefullyMade :=
    hbuild h₃ .function (.default, "f", [⟨2⟩], false, ()) (by decide) rfl
  have h₅ := hbuild h₄ .symbolicTerm (.default, .number 3, ()) (by decide) rfl
  have hpush : push.Careful ⟨Store.pooledTerm.nodes.push
      ⟨.symbolicTerm, [.location .default, .symbol (.number 3)]⟩⟩ := by
    refine ⟨fun c hc => (by cases hc), fun owner c hstores => ?_⟩
    obtain ⟨a, v, htarget, hwritten, hc, hnot⟩ := hstores
    cases htarget
    cases hwritten
    have hnew : c = ⟨4⟩ := by
      have hold : c ∉ [⟨0⟩, ⟨1⟩] := hnot _ rfl
      have hall : c ∈ [⟨0⟩, ⟨1⟩, ⟨4⟩] := hc
      simp_all
    -- The new number has no children.
    subst hnew
    refine ⟨by decide, fun hreach => ?_⟩
    obtain heq | ⟨d, hchild, -⟩ := Relation.ReflTransGen.cases_head hreach
    · cases heq
    · exact List.not_mem_nil hchild
  have h₆ := h₅.call hpush rfl
  have hcopy {total : Prop} (s : Store) : EditM.Growing total s copy fun r => [r] :=
    fun id _ _ hid => Operation.growth_run rfl (fun c hc => (by cases hc))
      fun _ _ hs hwellFormed => hwellFormed.isSome_exec_unfolding (hs.holds hid) _
  -- The callback comes back, so the copying does.
  obtain ⟨⟨answer, state, s₃⟩, hrun⟩ := Option.isSome_iff_exists.1
    ((careful_runs_stay_acyclic.1 _ h₆).2.transforms copy (hcopy _) ⟨3⟩ () (by decide)).2
  have h₇ : s₃.CarefullyMade :=
    Relation.ReflTransGen.tail h₆ (.transformBottomUp (hcopy _) (by decide) hrun)
  exact ⟨h₄, _, _, _, answer, rfl, rfl, hrun, h₇, careful_runs_stay_acyclic.1 _ h₇⟩

end AnswerSet
