import AnswerSet.Proofs.Store.Reach
import AnswerSet.Proofs.Value
import AnswerSet.Transform.Transformer

/-!
# Accounts of what actions do

A transformation runs one action after the other over the children of a node. An account
says of an action which events happen while it runs and what it answers, from one state to
another; it only has to follow sequences of actions and to keep the instances that are there.
What happens over a list of children, or over those of a value, is then what happens for each
of them in turn.

An account speaks about two actions at once, so that it can compare a run with another that
does the same and keeps a record.
-/

namespace AnswerSet

variable {α β γ κ σ : Type} {m m' : Type → Type}

/-- A description of runs by their events, their answers, and the states and stores before and
after them. -/
structure Account (m m' : Type → Type) [Monad m] [Monad m'] (κ σ : Type) where
  /-- From the first state to the second both actions do the same: the events happen, and
  the answer is given. -/
  Does {β : Type} : m β → m' β → List κ → β → σ × Store → σ × Store → Prop
  does_pure {β : Type} (b : β) (p : σ × Store) : Does (pure b) (pure b) [] b p p
  does_bind {α β : Type} {x : m α} {x' : m' α} {f : α → m β} {g : α → m' β} {es es' : List κ}
    {a : α} {b : β} {p q r : σ × Store} (hx : Does x x' es a p q)
    (hf : Does (f a) (g a) es' b q r) : Does (x >>= f) (x' >>= g) (es ++ es') b p r
  store_extends {β : Type} {x : m β} {x' : m' β} {es : List κ} {b : β} {p q : σ × Store}
    (h : Does x x' es b p q) : p.2.Extends q.2

namespace Account

variable [Monad m] [Monad m'] (A : Account m m' κ σ)

theorem does_map {x : m α} {x' : m' α} {es : List κ} {a : α} {p q : σ × Store}
    (hx : A.Does x x' es a p q) (k : α → β) :
    A.Does (do return k (← x)) (do return k (← x')) es (k a) p q := by
  rw [← List.append_nil es]
  exact A.does_bind (f := fun a => pure (k a)) (g := fun a => pure (k a)) hx
    (A.does_pure (k a) q)

variable [LawfulMonad m] [LawfulMonad m'] {f : α → m β} {g : α → m' β} {events : γ → List κ}
  {answer : γ → β} {R : σ × Store → α → γ → Prop} {base : σ × Store}

/-- Actions over a list that each do something do it in turn. -/
theorem exists_mapM (hR : ∀ p q a c, p.2.Extends q.2 → R p a c → R q a c) {as : List α}
    (h : ∀ a ∈ as, ∀ p, base.2.Extends p.2 →
      ∃ c q, A.Does (f a) (g a) (events c) (answer c) p q ∧ R q a c)
    (p : σ × Store) (hp : base.2.Extends p.2) :
    ∃ cs q, A.Does (as.mapM f) (as.mapM g) (cs.flatMap events) (cs.map answer) p q ∧
      List.Forall₂ (R q) as cs := by
  induction as generalizing p with
  | nil => exact ⟨[], p, A.does_pure [] p, .nil⟩
  | cons a as ih =>
      obtain ⟨c, q, hc, hac⟩ := h a List.mem_cons_self p hp
      have hq := A.store_extends hc
      obtain ⟨cs, r, hcs, hrest⟩ :=
        ih (fun a' ha' => h a' (List.mem_cons_of_mem a ha')) q (hp.trans hq)
      refine ⟨c :: cs, r, ?_, .cons (hR _ _ _ _ (A.store_extends hcs) hac) hrest⟩
      rw [List.mapM_cons, List.mapM_cons]
      exact A.does_bind hc (A.does_map hcs fun bs => answer c :: bs)

/-- An action over the children of a value does something for each of them in turn. -/
theorem exists_valueMapM (hR : ∀ p q a c, p.2.Extends q.2 → R p a c → R q a c) {v : Value α}
    (h : ∀ a ∈ v.children, ∀ p, base.2.Extends p.2 →
      ∃ c q, A.Does (f a) (g a) (events c) (answer c) p q ∧ R q a c)
    (p : σ × Store) (hp : base.2.Extends p.2) :
    ∃ w q, A.Does (v.mapM f) (v.mapM g) (w.children.flatMap events) (w.map answer) p q ∧
      Value.Rel (R q) v w := by
  cases v with
  | node a =>
      obtain ⟨c, q, hc, hac⟩ := h a (by simp [Value.children]) p hp
      rw [← List.flatMap_singleton events c] at hc
      exact ⟨.node c, q, A.does_map hc Value.node, .node hac⟩
  | optional child =>
      cases child with
      | none => exact ⟨.optional none, p, A.does_pure _ p, .absent⟩
      | some a =>
          obtain ⟨c, q, hc, hac⟩ := h a (by simp [Value.children]) p hp
          rw [← List.flatMap_singleton events c] at hc
          exact ⟨.optional (some c), q, A.does_map hc fun b => Value.optional (some b),
            .present hac⟩
  | nodes as =>
      have hitems : ∀ a ∈ as, ∀ p, base.2.Extends p.2 →
          ∃ c q, A.Does (f a) (g a) (events c) (answer c) p q ∧ R q a c := h
      obtain ⟨cs, q, hcs, hrel⟩ := A.exists_mapM hR hitems p hp
      exact ⟨.nodes cs, q, A.does_map hcs Value.nodes, .nodes hrel⟩
  | int n => exact ⟨.int n, p, A.does_pure _ p, .int n⟩
  | symbol a => exact ⟨.symbol a, p, A.does_pure _ p, .symbol a⟩
  | location l => exact ⟨.location l, p, A.does_pure _ p, .location l⟩
  | text a => exact ⟨.text a, p, A.does_pure _ p, .text a⟩
  | texts items => exact ⟨.texts items, p, A.does_pure _ p, .texts items⟩

/-- The same over all values of a node. -/
theorem exists_valuesMapM (hR : ∀ p q a c, p.2.Extends q.2 → R p a c → R q a c)
    {vs : List (Value α)}
    (h : ∀ v ∈ vs, ∀ a ∈ v.children, ∀ p, base.2.Extends p.2 →
      ∃ c q, A.Does (f a) (g a) (events c) (answer c) p q ∧ R q a c)
    (p : σ × Store) (hp : base.2.Extends p.2) :
    ∃ ws q, A.Does (vs.mapM (Value.mapM f)) (vs.mapM (Value.mapM g))
        ((ws.flatMap Value.children).flatMap events) (ws.map fun w => w.map answer) p q ∧
      List.Forall₂ (Value.Rel (R q)) vs ws := by
  obtain ⟨ws, q, hws, hrel⟩ := A.exists_mapM
    (R := fun q v w => Value.Rel (R q) v w)
    (fun p q _ _ hle hvw => hvw.imp fun a c => hR p q a c hle)
    (fun v hv => A.exists_valueMapM hR (h v hv)) p hp
  rw [← List.flatMap_assoc] at hws
  exact ⟨ws, q, hws, hrel⟩

end Account

/-- The children of a node that is part of an unfolding are transformed in turn. -/
theorem exec_transformChildren_of_node? {σ ε : Type} {f : NodeId → EditM σ ε NodeId} {s : Store}
    {id : NodeId} {k : Kind} {vs : List (Value (Tree NodeId))}
    (hn : s.node? id = some ⟨k, vs.map fun v => v.map Tree.label⟩) (state : σ) :
    (transformChildren f id).exec state s =
      (vs.mapM (Value.mapM fun t => f t.label) >>=
        rebuild id k (vs.map fun v => v.map Tree.label)).exec state s := by
  have hactions : (vs.map fun v => v.map Tree.label).mapM (Value.mapM f) =
      vs.mapM (Value.mapM fun t => f t.label) := by
    rw [List.mapM_map]
    congr 1
    funext v
    exact Value.mapM_map _ _ v
  rw [transformChildren, EditM.exec_store_bind, hn, ← hactions]

end AnswerSet
