import AnswerSet.Proofs.Pool.Sharing
import AnswerSet.Proofs.Store.Atomic
import AnswerSet.Transform.Transformer

/-!
# Transformations let the store grow

A transformation rebuilds nodes from nodes that are there: children that it was given back by
its action, or children that the node had. If the action lets the store grow and answers with
nodes that are there, then so does the transformation. The same holds of transferring
statements to a builder, and of whatever else is made of such actions.

In a well-formed store these transformations also come back if their actions do: they go down an
unfolding, which has an end. Only a transformer that goes where it likes need not come back.
-/

namespace AnswerSet

namespace EditM

variable {σ ε α : Type} {base : Store} {total : Prop}

/-- Run with any state of the caller in a well-formed store where the instances of the base
are, the action lets the store grow if it comes back, also if it fails. If this is asked for, it
does come back. -/
def growth (total : Prop) : Growth (EditM σ ε) where
  Holds base action post := ∀ state s, base.Extends s → s.WellFormed →
    (total → (action.exec state s).isSome) ∧
      ∀ answer state' s', action.exec state s = some (answer, state', s') →
        s.Grows s' ∧ ∀ a, answer = .ok a → ∀ s'', s'.Extends s'' → post s'' a
  holds_pure h state s hs _ := by
    refine ⟨fun _ => rfl, fun answer state' s' hexec => ?_⟩
    cases hexec
    exact ⟨.refl s, fun a ha s' hs' => by cases ha; exact h s' (hs.trans hs')⟩
  holds_bind {_ _ _ x f _ _} hx hf state s hs hwellFormed := by
    obtain ⟨hback, hends⟩ := hx state s hs hwellFormed
    rw [exec_bind]
    rcases hexec : x.exec state s with _ | ⟨e | a, state', s'⟩ <;> rw [hexec] at hback hends
    · exact ⟨hback, fun _ _ _ h => by cases h⟩
    · refine ⟨fun _ => rfl, fun answer state' s' h => ?_⟩
      cases h
      exact ⟨(hends _ _ _ rfl).1, fun a ha => by cases ha⟩
    · obtain ⟨hgrows, hmid⟩ := hends _ _ _ rfl
      obtain ⟨hback', hends'⟩ := hf a s' (hs.trans hgrows.store_extends) (hmid a rfl) state' s'
        (.refl s') (hgrows.wellFormed hwellFormed)
      refine ⟨hback', fun answer state'' s'' h => ?_⟩
      obtain ⟨hgrows', hpost⟩ := hends' answer state'' s'' h
      exact ⟨hgrows.trans hgrows', hpost⟩
  holds_later hs h state s' hs' := h state s' (hs.trans hs')

theorem growth_lift {x : StateM Store α} {post : Store → α → Prop}
    (h : Store.growth.Holds base x post) :
    (growth (σ := σ) (ε := ε) total).Holds base (liftM x) post := by
  intro state s hs _
  obtain ⟨hgrows, hpost⟩ := h s hs
  refine ⟨fun _ => rfl, fun answer state' s' hexec => ?_⟩
  cases hexec
  exact ⟨hgrows, fun a ha => by cases ha; exact hpost⟩

/-- An action that looks at the store first goes on from there. -/
theorem growth_read {f : Store → EditM σ ε α} {post : Store → α → Prop}
    (h : ∀ s, base.Extends s → s.WellFormed → (growth total).Holds s (f s) post) :
    (growth total).Holds base (store >>= f) post := by
  intro state s hs hwellFormed
  rw [exec_store_bind]
  exact h s hs hwellFormed state s (.refl s) hwellFormed

/-- An operation that has an answer, or fails without an effect. -/
theorem growth_ofRun {operation : RunM α} {post : Store → α → Prop} (hatomic : operation.Atomic)
    (hback : total → ∀ s, base.Extends s → s.WellFormed → (operation.exec s).isSome)
    (h : ∀ s answer s', base.Extends s → s.WellFormed → operation.exec s = some (.ok answer, s') →
      s.Grows s' ∧ ∀ s'', s'.Extends s'' → post s'' answer) :
    (growth total).Holds base (ofRun operation : EditM σ Error α) post := by
  intro state s hs hwellFormed
  rw [exec_ofRun, Option.isSome_map]
  refine ⟨fun htotal => hback htotal s hs hwellFormed, fun answer state' s' hexec => ?_⟩
  obtain ⟨⟨result, s₁⟩, hrun, heq⟩ := Option.map_eq_some_iff.1 hexec
  cases heq
  cases result with
  | error e => exact ⟨hatomic hrun ▸ .refl s, fun a ha => by cases ha⟩
  | ok a =>
      obtain ⟨hgrows, hpost⟩ := h s a s₁ hs hwellFormed hrun
      exact ⟨hgrows, fun a' ha' => by cases ha'; exact hpost⟩

theorem growth_forM {as : List α} {f : α → EditM σ ε Unit}
    (h : ∀ a ∈ as, (growth total).Holds base (f a) fun _ _ => True) :
    (growth total).Holds base (as.forM f) fun _ _ => True := by
  induction as generalizing base with
  | nil => exact (growth total).holds_pure fun _ _ => trivial
  | cons a as ih =>
      refine (growth total).holds_bind (h a List.mem_cons_self) fun _ s hs _ => ?_
      exact ih fun a' ha' => (growth total).holds_later hs (h a' (List.mem_cons_of_mem a ha'))

/-- Wherever the instances of the base are, the action lets the store grow if it is given a
node that is there. The nodes in its answer are there, too. If this is asked for, then the action
comes back. -/
def Growing (total : Prop) (base : Store) (f : NodeId → EditM σ ε α) (nodes : α → List NodeId) :
    Prop :=
  ∀ id s, base.Extends s → s.Holds id →
    (growth total).Holds s (f id) fun s' answer => ∀ r ∈ nodes answer, s'.Holds r

theorem Growing.later {s : Store} {f : NodeId → EditM σ ε α} {nodes : α → List NodeId}
    (hf : Growing total base f nodes) (hs : base.Extends s) : Growing total s f nodes :=
  fun id s' hs' => hf id s' (hs.trans hs')

end EditM

open EditM (growth Growing)

variable {σ ε : Type} {base : Store} {total : Prop}

/-! ## Transforming -/

section Transform

variable {f : NodeId → EditM σ ε NodeId} {g : NodeId → EditM σ ε (Option NodeId)}

theorem EditM.Growing.answer (hf : Growing total base f fun r => [r]) {id : NodeId} {s : Store}
    (hs : base.Extends s) (hid : s.Holds id) :
    (growth total).Holds s (f id) fun s' r => s'.Holds r :=
  (growth total).holds_imp (hf id s hs hid) fun _ _ _ hr => hr _ (List.mem_singleton.2 rfl)

theorem EditM.Growing.of_answer
    (hf : ∀ id s, base.Extends s → s.Holds id →
      (growth total).Holds s (f id) fun s' r => s'.Holds r) :
    Growing total base f fun r => [r] :=
  fun id s hs hid => (growth total).holds_imp (hf id s hs hid) fun _ _ _ hr _ hr' =>
    List.mem_singleton.1 hr' ▸ hr

/-- The node was there, or it is added above children that are there. -/
theorem growth_rebuild {id : NodeId} (hid : base.Holds id) {k : Kind}
    {before after : List (Value NodeId)} (hafter : k.Admits after)
    (hchildren : ∀ c ∈ (⟨k, after⟩ : Node).children, base.Holds c) :
    (growth total).Holds base (rebuild id k before after : EditM σ ε NodeId)
      fun s r => s.Holds r := by
  unfold rebuild
  split
  · exact (growth total).holds_pure fun s hs => hs.holds hid
  · refine EditM.growth_lift (Store.growth.holds_imp
      (Store.growth_alloc (n := ⟨k, after⟩) hafter hchildren) fun r s _ hr => ?_)
    exact Option.isSome_of_eq_some hr

/-- A node is there whose children, wherever its instances are, are transformed by actions that
answer with nodes that are there. -/
theorem growth_transformChildren_of_node? {id : NodeId} {n : Node} (hn : base.node? id = some n)
    (h : ∀ s, base.Extends s → ∀ c ∈ n.children,
      (growth total).Holds s (f c) fun s' r => s'.Holds r) :
    (growth total).Holds base (transformChildren f id) fun s r => s.Holds r := by
  refine EditM.growth_read fun s hs hwellFormed => ?_
  have hn' := hs hn
  rw [hn']
  have hvalues := (growth total).holds_values (hwellFormed.valid hn') fun v hv c hc =>
    h s hs c (Store.mem_children_iff.2 ⟨v, hv, hc⟩)
  refine (growth total).holds_bind hvalues fun after s' hs' hafter => ?_
  obtain ⟨hadmits, hchildren⟩ := hafter s' (.refl s')
  exact growth_rebuild (hs'.holds (Option.isSome_of_eq_some hn')) hadmits hchildren

theorem growth_transformChildren (hf : Growing total base f fun r => [r]) {id : NodeId}
    (hid : base.Holds id) :
    (growth total).Holds base (transformChildren f id) fun s r => s.Holds r := by
  intro state s hs hwellFormed
  obtain ⟨n, hn⟩ := Option.isSome_iff_exists.1 (hs.holds hid)
  refine growth_transformChildren_of_node? hn (fun s' hs' c hc => ?_) state s (.refl s) hwellFormed
  exact hf.answer (hs.trans hs') (hs'.holds (hwellFormed.closed hn c hc))

/-- Every descent from a node of a well-formed store ends, and an action on the node may rely
on that. -/
theorem growth_of_grounded {α : Type} {action : EditM σ ε α} {post : Store → α → Prop} {id : NodeId}
    (hid : base.Holds id)
    (h : ∀ s, base.Extends s → s.Grounded id → (growth total).Holds s action post) :
    (growth total).Holds base action post := by
  intro state s hs hwellFormed
  obtain ⟨n, hn⟩ := Option.isSome_iff_exists.1 (hs.holds hid)
  exact h s hs (hwellFormed.grounded hn) state s (.refl s) hwellFormed

theorem growth_transformBottomUp (hf : Growing total base f fun r => [r]) {id : NodeId}
    (hid : base.Holds id) :
    (growth total).Holds base (transformBottomUp f id) fun s r => s.Holds r := by
  refine growth_of_grounded hid fun s hs hgrounded => ?_
  clear hid
  induction hgrounded with
  | intro hn _ ih =>
      rw [transformBottomUp_eq]
      have hchildren := growth_transformChildren_of_node? hn fun s' hs' c hc =>
        (growth total).holds_later hs' (ih c hc)
      refine (growth total).holds_bind hchildren fun rebuilt s' hs' hrebuilt => ?_
      exact hf.answer (hs.trans hs') (hrebuilt s' (.refl s'))

theorem growth_transformTopDown (hg : Growing total base g Option.toList) {id : NodeId}
    (hid : base.Holds id) :
    (growth total).Holds base (transformTopDown g id) fun s r => s.Holds r := by
  refine growth_of_grounded hid fun s hs hgrounded => ?_
  clear hid
  induction hgrounded with
  | @intro id n hn _ ih =>
      rw [transformTopDown_eq]
      refine (growth total).holds_bind (hg id s hs (Option.isSome_of_eq_some hn))
        fun replacement s' hs' hreplacement => ?_
      cases replacement with
      | some r =>
          exact (growth total).holds_pure fun s'' hs'' => hreplacement s'' hs'' r (by simp)
      | none =>
          exact growth_transformChildren_of_node? (hs' hn) fun s'' hs'' c hc =>
            (growth total).holds_later (hs'.trans hs'') (ih c hc)

/-- A transformer lets the store grow if it does so apart from its calls to itself. -/
theorem growing_transformer {T : Transformer σ ε}
    (hT : ∀ self : NodeId → EditM σ ε NodeId, Growing False base self (fun r => [r]) →
      Growing False base (T.transform self) fun r => [r]) :
    Growing False base T.run fun r => [r] := by
  refine .of_answer fun id s₀ hs₀ hid state s hs hwellFormed => ⟨False.elim, ?_⟩
  intro answer state' s' hexec
  refine T.run_induct (P := fun id _ s r => base.Extends s → s.Holds id → s.WellFormed →
    s.Grows r.2.2 ∧ ∀ a, r.1 = .ok a → ∀ s', r.2.2.Extends s' → s'.Holds a) ?_ id state s _ hexec
    (hs₀.trans hs) (hs.holds hid) hwellFormed
  intro self hself id state s r hexec hs hid hwellFormed
  have hgrowing : Growing False base self fun r => [r] := by
    refine .of_answer fun id s₁ hs₁ hid state s hs hwellFormed => ⟨False.elim, ?_⟩
    intro answer state' s' hcall
    exact hself id state s _ hcall (hs₁.trans hs) (hs.holds hid) hwellFormed
  exact ((hT self hgrowing).answer hs hid state s (.refl s) hwellFormed).2 _ _ _ hexec

end Transform

/-! ## Unpooling and transferring -/

theorem Store.WellFormed.grows_of_unpool {s s' : Store} (hs : s.WellFormed) {id : NodeId}
    {regions : Regions} {answers : List NodeId}
    (h : (RunM.unpool id regions).exec s = some (.ok answers, s')) :
    s.Grows s' ∧ ∀ r ∈ answers, s'.Holds r := by
  rw [RunM.unpool, RunM.exec_unfolding id (fun t => t.unpool regions), Option.map_eq_some_iff] at h
  obtain ⟨t, ht, h⟩ := h
  obtain rfl := label_of_unfolding? ht
  cases h
  have hexpand : Store.growth.Holds s (t.expand regions (regions.expands false))
      fun s answer => Tree.Offers s regions false t answer :=
    Tree.growth_expand (hs.valid.unfolding? ht) ht false
  obtain ⟨hgrows, hoffers⟩ := hexpand s (.refl s)
  exact ⟨hgrows, (hoffers _ (.refl _)).held⟩

/-- What follows the unfolding of a node comes back in a well-formed store. -/
theorem Store.WellFormed.isSome_exec_unfolding {α : Type} {s : Store} (hs : s.WellFormed)
    {id : NodeId} (hid : s.Holds id) (f : Tree NodeId → StateM Store α) :
    ((do f (← RunM.unfolding id) : RunM α).exec s).isSome := by
  obtain ⟨t, ht⟩ := hs.exists_unfolding?_of_holds hid
  rw [RunM.exec_unfolding, ht]
  rfl

theorem Builder.growing_unpooling {builder : Builder σ}
    (hadd : Growing total base builder.add fun _ => []) (regions : Regions) :
    Growing total base (builder.unpooling regions).add fun _ => [] := by
  intro id s hs hid
  have halternatives : (growth total).Holds s
      (EditM.ofRun (RunM.unpool id regions) : EditM σ Error (List NodeId))
      fun s' answers => ∀ r ∈ answers, s'.Holds r := by
    refine EditM.growth_ofRun (RunM.atomic_unfolding id fun t => t.unpool regions)
      (fun _ s₁ hs₁ hwellFormed => hwellFormed.isSome_exec_unfolding (hs₁.holds hid) _)
      fun s₁ answers s' _ hwellFormed hrun => ?_
    obtain ⟨hgrows, hheld⟩ := hwellFormed.grows_of_unpool hrun
    exact ⟨hgrows, fun s'' hs'' r hr => hs''.holds (hheld r hr)⟩
  refine (growth total).holds_bind halternatives fun answers s₁ hs₁ hanswers => ?_
  refine (growth total).holds_imp (EditM.growth_forM fun r hr => ?_)
    fun _ _ _ _ r hr => absurd hr (by simp)
  have hadded := hadd r s₁ (hs.trans hs₁) (hanswers s₁ (.refl s₁) r hr)
  exact (growth total).holds_imp hadded fun _ _ _ _ => trivial

theorem growth_transfer {τ : Type} [StatementSource τ] {builder : Builder σ}
    (hadd : Growing total base builder.add fun _ => []) {source : τ}
    (hsource : ∀ id ∈ StatementSource.statements source, base.Holds id) :
    (growth total).Holds base (transfer source builder) fun _ _ => True := by
  unfold transfer
  generalize StatementSource.statements source = statements at hsource
  generalize 0 = count
  induction statements generalizing base count with
  | nil => exact (growth total).holds_pure fun _ _ => trivial
  | cons id rest ih =>
      obtain ⟨hid, hrest⟩ := List.forall_mem_cons.1 hsource
      refine (growth total).holds_bind (hadd id base (.refl base) hid) fun _ s hs _ => ?_
      exact ih (hadd.later hs) (fun id' hid' => hs.holds (hrest id' hid')) (count + 1)

end AnswerSet
