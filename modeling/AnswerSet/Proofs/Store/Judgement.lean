import AnswerSet.Proofs.Store.Atomic
import AnswerSet.Transform.Transformer

/-!
# Judgements about actions

A judgement is a small logic of postconditions that is closed under sequencing. What it says
of actions over the children of a node follows from what it says of each of them.

A discipline says how stores may change. It has two judgements: one about the actions on a
store, and one about those that also have a state of the caller, may fail and need not come
back. The latter speaks of all runs that come back, of failing ones as well. Of a transformer
it is shown by induction over the calls that it makes, whatever these calls write.
-/

namespace AnswerSet

/-! ## Judgements -/

/-- Postconditions of the actions of a monad, closed under sequencing. -/
structure Judgement (m : Type → Type) [Monad m] where
  Holds {α : Type} : m α → (α → Prop) → Prop
  holds_pure {α : Type} {a : α} {post : α → Prop} (h : post a) : Holds (pure a) post
  holds_bind {α β : Type} {x : m α} {f : α → m β} {mid : α → Prop} {post : β → Prop}
    (hx : Holds x mid) (hf : ∀ a, mid a → Holds (f a) post) : Holds (x >>= f) post

namespace Judgement

variable {m : Type → Type} [Monad m] [LawfulMonad m] {J : Judgement m} {α β : Type}

theorem holds_imp {x : m α} {mid post : α → Prop} (hx : J.Holds x mid)
    (h : ∀ a, mid a → post a) : J.Holds x post := by
  rw [← bind_pure x]
  exact J.holds_bind hx fun a ha => J.holds_pure (h a ha)

/-- Actions over a list relate every member to its answer. -/
theorem holds_mapM {f : α → m β} {R : α → β → Prop} {as : List α}
    (h : ∀ a ∈ as, J.Holds (f a) (R a)) : J.Holds (as.mapM f) (List.Forall₂ R as) := by
  induction as with
  | nil => exact J.holds_pure .nil
  | cons a as ih =>
      rw [List.mapM_cons]
      refine J.holds_bind (h a List.mem_cons_self) fun b hb => ?_
      refine J.holds_bind (ih fun a' ha' => h a' (List.mem_cons_of_mem a ha')) fun bs hbs => ?_
      exact J.holds_pure (.cons hb hbs)

/-- An action over the children of a value relates every child to its answer. -/
theorem holds_valueMapM {f : α → m β} {R : α → β → Prop} {v : Value α}
    (h : ∀ a ∈ v.children, J.Holds (f a) (R a)) : J.Holds (v.mapM f) (Value.Rel R v) := by
  cases v with
  | node a =>
      exact J.holds_bind (h a (by simp [Value.children])) fun b hb => J.holds_pure (.node hb)
  | optional child =>
      cases child with
      | none => exact J.holds_pure .absent
      | some a =>
          refine J.holds_bind (h a (by simp [Value.children])) fun b hb => ?_
          exact J.holds_pure (.present hb)
  | nodes as =>
      exact J.holds_bind (J.holds_mapM h) fun bs hbs => J.holds_pure (.nodes hbs)
  | int n => exact J.holds_pure (.int n)
  | symbol a => exact J.holds_pure (.symbol a)
  | location l => exact J.holds_pure (.location l)
  | text a => exact J.holds_pure (.text a)
  | texts items => exact J.holds_pure (.texts items)

end Judgement

/-! ## Disciplines -/

/-- A way in which stores may change: what is required of the store before, and how the store
after is related to it. -/
structure Discipline where
  Before : Store → Prop
  Leads : Store → Store → Prop
  refl (s : Store) : Leads s s
  trans {s s' s'' : Store} (h : Leads s s') (h' : Leads s' s'') : Leads s s''
  keeps {s s' : Store} (h : Leads s s') (hs : Before s) : Before s'

namespace Discipline

variable {D : Discipline} {σ ε α : Type}

/-- Run in a store as required, the action changes it as the discipline says. -/
def onStore (D : Discipline) : Judgement (StateM Store) where
  Holds action post := ∀ s, D.Before s → D.Leads s (action.run s).2 ∧ post (action.run s).1
  holds_pure h s _ := ⟨D.refl s, h⟩
  holds_bind hx hf s hs := by
    obtain ⟨hleads, hmid⟩ := hx s hs
    obtain ⟨hleads', hpost⟩ := hf _ hmid _ (D.keeps hleads hs)
    exact ⟨D.trans hleads hleads', hpost⟩

/-- An operation that comes back has changed the store as the discipline says. -/
def Governs (D : Discipline) (operation : RunM α) : Prop :=
  ∀ ⦃s answer s'⦄, D.Before s → operation.exec s = some (answer, s') → D.Leads s s'

/-- An operation that changes nothing where it fails need only be looked at where it succeeds. -/
theorem governs_of_outcome {operation : StoreM α} (hatomic : operation.Atomic)
    (h : ∀ ⦃s answer s'⦄, D.Before s → operation.outcome s = .ok (answer, s') → D.Leads s s') :
    D.Governs (liftM operation : RunM α) := by
  intro s answer s' hs hexec
  rw [RunM.exec_lift, Option.some.injEq] at hexec
  cases answer with
  | error e => exact hatomic hexec ▸ D.refl s
  | ok answer => exact h hs (StoreM.exec_eq_ok_iff.1 hexec)

theorem governs_unfolding {id : NodeId} {action : Tree NodeId → StateM Store α}
    (h : ∀ t s, D.Before s → s.unfolding? id = some t → D.Leads s ((action t).run s).2) :
    D.Governs (do action (← RunM.unfolding id) : RunM α) := by
  intro s _ _ hs hexec
  rw [RunM.exec_unfolding, Option.map_eq_some_iff] at hexec
  obtain ⟨t, ht, hexec⟩ := hexec
  cases hexec
  exact h t s hs ht

/-- Run with any state of the caller in a store as required, the action changes the store as
the discipline says if it comes back, also if it fails. -/
def onEdit (D : Discipline) : Judgement (EditM σ ε) where
  Holds action post := ∀ ⦃state s answer state' s'⦄, D.Before s →
    action.exec state s = some (answer, state', s') →
      D.Leads s s' ∧ ∀ a, answer = .ok a → post a
  holds_pure h state s _ _ _ _ hexec := by
    cases hexec
    exact ⟨D.refl s, fun a ha => by cases ha; exact h⟩
  holds_bind {_ _ x f _ _} hx hf state s _ _ _ hs hexec := by
    rw [EditM.exec_bind] at hexec
    rcases hfirst : x.exec state s with _ | ⟨_ | a, state₁, s₁⟩ <;> rw [hfirst] at hexec
    · cases hexec
    · cases hexec
      exact ⟨(hx hs hfirst).1, fun a ha => by cases ha⟩
    · obtain ⟨hleads, hmid⟩ := hx hs hfirst
      obtain ⟨hleads', hpost⟩ := hf a (hmid a rfl) (D.keeps hleads hs) hexec
      exact ⟨D.trans hleads hleads', hpost⟩

theorem holds_lift {x : StateM Store α} {post : α → Prop} (h : D.onStore.Holds x post) :
    D.onEdit.Holds (liftM x : EditM σ ε α) post := by
  intro state s _ _ _ hs hexec
  rw [EditM.exec_lift] at hexec
  cases hexec
  obtain ⟨hleads, hpost⟩ := h s hs
  exact ⟨hleads, fun a ha => by cases ha; exact hpost⟩

/-- An action that looks at the store first may rely on what is required of it. -/
theorem holds_read {f : Store → EditM σ ε α} {post : α → Prop}
    (h : ∀ s, D.Before s → D.onEdit.Holds (f s) post) :
    D.onEdit.Holds (EditM.store >>= f) post := by
  intro state s _ _ _ hs hexec
  rw [EditM.exec_store_bind] at hexec
  exact h s hs hs hexec

theorem holds_store : D.onEdit.Holds (EditM.store : EditM σ ε Store) fun _ => True := by
  intro state s _ _ _ _ hexec
  cases hexec
  exact ⟨D.refl s, fun _ _ => trivial⟩

theorem holds_own (step : σ → α × σ) :
    D.onEdit.Holds (modifyGetThe σ step : EditM σ ε α) fun _ => True := by
  intro state s _ _ _ _ hexec
  cases hexec
  exact ⟨D.refl s, fun _ _ => trivial⟩

theorem holds_throw (e : ε) : D.onEdit.Holds (throw e : EditM σ ε α) fun _ => True := by
  intro state s _ _ _ _ hexec
  cases hexec
  exact ⟨D.refl s, fun a ha => by cases ha⟩

theorem holds_tryCatch {x : EditM σ ε α} {handler : ε → EditM σ ε α}
    (hx : D.onEdit.Holds x fun _ => True)
    (hhandler : ∀ e, D.onEdit.Holds (handler e) fun _ => True) :
    D.onEdit.Holds (tryCatch x handler) fun _ => True := by
  intro state s _ _ _ hs hexec
  refine ⟨?_, fun _ _ => trivial⟩
  rw [EditM.exec_tryCatch] at hexec
  rcases hfirst : x.exec state s with _ | ⟨_ | a, state₁, s₁⟩ <;> rw [hfirst] at hexec
  · cases hexec
  · have hleads := (hx hs hfirst).1
    exact D.trans hleads (hhandler _ (D.keeps hleads hs) hexec).1
  · cases hexec
    exact (hx hs hfirst).1

theorem holds_attempt {operation : RunM α} (h : D.Governs operation) :
    D.onEdit.Holds (EditM.attempt operation : EditM σ ε (Except Error α)) fun _ => True := by
  intro state s _ _ _ hs hexec
  rw [EditM.exec_attempt, Option.map_eq_some_iff] at hexec
  obtain ⟨_, hrun, hexec⟩ := hexec
  cases hexec
  exact ⟨h hs hrun, fun _ _ => trivial⟩

theorem holds_ofRun {operation : RunM α} (h : D.Governs operation) :
    D.onEdit.Holds (EditM.ofRun operation : EditM σ Error α) fun _ => True := by
  intro state s _ _ _ hs hexec
  rw [EditM.exec_ofRun, Option.map_eq_some_iff] at hexec
  obtain ⟨_, hrun, hexec⟩ := hexec
  cases hexec
  exact ⟨h hs hrun, fun _ _ => trivial⟩

theorem holds_forM {as : List α} {f : α → EditM σ ε Unit}
    (h : ∀ a ∈ as, D.onEdit.Holds (f a) fun _ => True) :
    D.onEdit.Holds (as.forM f) fun _ => True := by
  induction as with
  | nil => exact D.onEdit.holds_pure trivial
  | cons a as ih =>
      exact D.onEdit.holds_bind (h a List.mem_cons_self) fun _ _ =>
        ih fun a' ha' => h a' (List.mem_cons_of_mem a ha')

/-- The judgement holds of a transformer if it does so as long as it holds of the calls that
the transformer makes to itself. -/
theorem holds_transformer {T : Transformer σ ε}
    (h : ∀ self : NodeId → EditM σ ε NodeId, (∀ id, D.onEdit.Holds (self id) fun _ => True) →
      ∀ id, D.onEdit.Holds (T.transform self id) fun _ => True) (id : NodeId) :
    D.onEdit.Holds (T.run id) fun _ => True := by
  intro state s _ _ _ hs hexec
  refine ⟨?_, fun _ _ => trivial⟩
  refine T.run_induct (P := fun _ _ s r => D.Before s → D.Leads s r.2.2) ?_ id state s _ hexec hs
  intro self hself id state s r hexec hs
  have hcalls (id : NodeId) : D.onEdit.Holds (self id) fun _ => True :=
    fun _ _ _ _ _ hs hcall => ⟨hself id _ _ _ hcall hs, fun _ _ => trivial⟩
  exact (h self hcalls id hs hexec).1

end Discipline

end AnswerSet
