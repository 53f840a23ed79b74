import AnswerSet.Proofs.Store.Reach

/-!
# Actions that only add instances

Expansion and copying read a store and add instances to it. What such an action says
about its answer stays true while other actions run after it, because no instance
changes any more. `Yields` builds this into the postcondition: it holds in the store
after the action and in every extension of that store. Sequences of actions are then
reasoned about one by one, each from some extension of the store at the beginning.
-/

namespace AnswerSet.Store

variable {α β γ : Type} {s : Store}

/-- Run in the store, the action only adds instances, and its answer satisfies the
postcondition from then on. -/
def Yields (s : Store) (action : StateM Store α) (post : Store → α → Prop) : Prop :=
  s.Extends (action.run s).2 ∧ ∀ ⦃s'⦄, (action.run s).2.Extends s' → post s' (action.run s).1

theorem yields_pure {a : α} {post : Store → α → Prop}
    (h : ∀ ⦃s'⦄, s.Extends s' → post s' a) : s.Yields (pure a) post :=
  ⟨.refl s, h⟩

theorem yields_alloc (s : Store) (n : Node) :
    s.Yields (alloc n) fun s' id => s'.node? id = some n :=
  ⟨.alloc s n, fun _ h => h (node?_alloc_self s n)⟩

namespace Yields

theorem bind {x : StateM Store α} {f : α → StateM Store β} {mid : Store → α → Prop}
    {post : Store → β → Prop} (hx : s.Yields x mid)
    (hf : ∀ a ⦃s'⦄, s.Extends s' → (∀ ⦃s''⦄, s'.Extends s'' → mid s'' a) → s'.Yields (f a) post) :
    s.Yields (x >>= f) post := by
  obtain ⟨hext, hmid⟩ := hx
  obtain ⟨hext', hpost⟩ := hf (x.run s).1 hext hmid
  exact ⟨hext.trans hext', hpost⟩

theorem imp {x : StateM Store α} {post post' : Store → α → Prop} (hx : s.Yields x post)
    (h : ∀ a ⦃s'⦄, s.Extends s' → post s' a → post' s' a) : s.Yields x post' :=
  ⟨hx.1, fun _ hs' => h _ (hx.1.trans hs') (hx.2 hs')⟩

theorem map {x : StateM Store α} {f : α → β} {post : Store → β → Prop}
    (hx : s.Yields x fun s' a => post s' (f a)) : s.Yields (do return f (← x)) post :=
  hx.bind fun _ _ _ hmid => yields_pure hmid

/-- Actions over a list, each described by the member of a second list at its place. -/
theorem mapM {f : α → StateM Store β} {as : List α} {cs : List γ} {R : α → γ → Prop}
    {post : Store → α → β → γ → Prop} (hrel : List.Forall₂ R as cs)
    (hf : ∀ a c, R a c → ∀ ⦃s'⦄, s.Extends s' → s'.Yields (f a) fun s'' b => post s'' a b c) :
    s.Yields (as.mapM f) fun s' bs =>
      as.length = bs.length ∧
        List.Forall₂ (fun pair c => post s' pair.1 pair.2 c) (as.zip bs) cs := by
  induction hrel generalizing s with
  | nil => exact yields_pure fun _ _ => ⟨rfl, .nil⟩
  | @cons a c as cs hac _ ih =>
      rw [List.mapM_cons]
      refine (hf a c hac (.refl s)).bind fun b s₁ hs₁ hb => ?_
      refine (ih fun a' c' h' s' hs' => hf a' c' h' (hs₁.trans hs')).bind
        fun bs s₂ hs₂ hbs => yields_pure fun s₃ hs₃ => ?_
      exact ⟨congrArg (· + 1) (hbs hs₃).1, .cons (hb (hs₂.trans hs₃)) (hbs hs₃).2⟩

/-- The same if the description does not mention what the action was given. -/
theorem mapM_answers {f : α → StateM Store β} {as : List α} {cs : List γ} {R : α → γ → Prop}
    {post : Store → β → γ → Prop} (hrel : List.Forall₂ R as cs)
    (hf : ∀ a c, R a c → ∀ ⦃s'⦄, s.Extends s' → s'.Yields (f a) fun s'' b => post s'' b c) :
    s.Yields (as.mapM f) fun s' bs => List.Forall₂ (post s') bs cs := by
  refine (mapM hrel hf).imp fun bs s' _ ⟨hlength, hbs⟩ => ?_
  rw [← List.map_snd_zip (Nat.le_of_eq hlength.symm)]
  exact List.forall₂_map_left_iff.2 hbs

end Yields

end AnswerSet.Store
