import AnswerSet.Transform.Basic

/-!
# Transforming whole trees

A transformer says what to do with a node and may call itself for other nodes, for the
children above all. Each call looks at the store as it is when the call is reached, so a
transformer sees what earlier calls have written. On a cycle it need not come back.

Bottom-up, the action sees every node after its children were transformed: the node
itself if none of them changed, else the rebuilt node. Top-down, the action is
asked first; where it gives an answer the node is replaced and nothing below it is
looked at, elsewhere the children are transformed.
-/

namespace AnswerSet

variable {σ ε α β : Type}

namespace EditM

/-- Wherever the first action comes back, the second one does the same. -/
def Approximates (x y : EditM σ ε α) : Prop :=
  ∀ state s, x state s = none ∨ x state s = y state s

theorem Approximates.refl (x : EditM σ ε α) : x.Approximates x := fun _ _ => .inr rfl

theorem Approximates.bind {x x' : EditM σ ε α} {f f' : α → EditM σ ε β} (hx : x.Approximates x')
    (hf : ∀ a, (f a).Approximates (f' a)) : (x >>= f).Approximates (x' >>= f') := by
  have hbind (x : EditM σ ε α) (f : α → EditM σ ε β) (state : σ) (s : Store) :
      (x >>= f) state s = (x state s).bind fun
        | ((.ok a, state), s) => f a state s
        | ((.error e, state), s) => some ((.error e, state), s) := by
    change (x state s).bind _ = _
    rcases x state s with _ | ⟨⟨_ | _, _⟩, _⟩ <;> rfl
  intro state s
  rw [hbind, hbind]
  rcases hx state s with hx | hx
  · rw [hx]
    exact .inl rfl
  · rw [← hx]
    rcases x state s with _ | ⟨⟨_ | a, state'⟩, s'⟩
    · exact .inl rfl
    · exact .inr rfl
    · exact hf a state' s'

theorem Approximates.mapM {f f' : α → EditM σ ε β} (hf : ∀ a, (f a).Approximates (f' a))
    (as : List α) : (as.mapM f).Approximates (as.mapM f') := by
  induction as with
  | nil => exact .refl _
  | cons a as ih =>
      rw [List.mapM_cons, List.mapM_cons]
      exact (hf a).bind fun b => ih.bind fun bs => .refl _

theorem Approximates.valueMapM {f f' : α → EditM σ ε β} (hf : ∀ a, (f a).Approximates (f' a))
    (v : Value α) : (v.mapM f).Approximates (v.mapM f') := by
  cases v with
  | node child => exact (hf child).bind fun _ => .refl _
  | optional child =>
      cases child with
      | none => exact .refl _
      | some child => exact (hf child).bind fun _ => .refl _
  | nodes children => exact (Approximates.mapM hf children).bind fun _ => .refl _
  | _ => exact .refl _

theorem Approximates.transformChildren {f f' : NodeId → EditM σ ε NodeId}
    (hf : ∀ id, (f id).Approximates (f' id)) (id : NodeId) :
    (AnswerSet.transformChildren f id).Approximates (AnswerSet.transformChildren f' id) := by
  refine (Approximates.refl store).bind fun s => ?_
  cases s.node? id with
  | none => exact .refl _
  | some n => exact (Approximates.mapM (.valueMapM hf) n.values).bind fun _ => .refl _

end EditM

/-- What to do with a node, given what to do with any node. The latter is called and not
looked into. -/
structure Transformer (σ ε : Type) where
  transform : (self : NodeId → EditM σ ε NodeId) → NodeId → EditM σ ε NodeId
  monotone : ∀ {self self' : NodeId → EditM σ ε NodeId},
    (∀ id, (self id).Approximates (self' id)) →
      ∀ id, (transform self id).Approximates (transform self' id)

namespace Transformer

/-- A run of a transformer from given states. -/
def runFrom (T : Transformer σ ε) (id : NodeId) (state : σ) (s : Store) :
    Option ((Except ε NodeId × σ) × Store) :=
  T.transform (fun child => T |>.runFrom child) id state s
partial_fixpoint monotonicity by
  intro self self' hself id state s
  have hcalls (id : NodeId) : EditM.Approximates (self id : EditM σ ε NodeId) (self' id) := by
    intro state s
    have h := hself id state s
    generalize (self id : EditM σ ε NodeId) state s = x at h ⊢
    cases h with
    | bot => exact .inl rfl
    | refl => exact .inr rfl
  dsimp only
  obtain hnone | heq := T.monotone hcalls id state s
  · rw [hnone]
    constructor
  · rw [heq]
    constructor

/-- Applies a transformer to a node. -/
def run (T : Transformer σ ε) (id : NodeId) : EditM σ ε NodeId := T.runFrom id

theorem run_eq (T : Transformer σ ε) (id : NodeId) : T.run id = T.transform T.run id := by
  funext state s
  exact runFrom.eq_1 T id state s

/-- What one call adds to the calls it makes holds of every run that comes back. -/
theorem run_induct (T : Transformer σ ε)
    {P : NodeId → σ → Store → Except ε NodeId × σ × Store → Prop}
    (step : ∀ self : NodeId → EditM σ ε NodeId,
      (∀ id state s r, (self id).exec state s = some r → P id state s r) →
        ∀ id state s r, (T.transform self id).exec state s = some r → P id state s r)
    (id : NodeId) (state : σ) (s : Store) (r : Except ε NodeId × σ × Store)
    (h : (T.run id).exec state s = some r) : P id state s r := by
  -- The principle of the fixpoint speaks of the raw answers of `runFrom`.
  rw [EditM.exec_eq, Option.map_eq_some_iff] at h
  obtain ⟨r, hr, rfl⟩ := h
  refine runFrom.partial_correctness T
    (fun id state s r => P id state s (r.1.1, r.1.2, r.2)) ?_ id state s r hr
  intro self hself id state s r hr
  refine step (fun id => self id) (fun id state s r h => ?_) id state s _ ?_
  · rw [EditM.exec_eq, Option.map_eq_some_iff] at h
    obtain ⟨r, hr, rfl⟩ := h
    exact hself id state s r hr
  · rw [EditM.exec_eq, hr]
    rfl

/-- Keeps every node and goes on to its children. -/
def default : Transformer σ ε where
  transform := transformChildren
  monotone := .transformChildren

/-- Goes on to the children first and applies an action to what becomes of the node. -/
def bottomUp (f : NodeId → EditM σ ε NodeId) : Transformer σ ε where
  transform self id := do f (← transformChildren self id)
  monotone h id := (EditM.Approximates.transformChildren h id).bind fun _ => .refl _

/-- Asks an action first and goes on to the children where it has no answer. -/
def topDown (g : NodeId → EditM σ ε (Option NodeId)) : Transformer σ ε where
  transform self id := do
    match ← g id with
    | some replacement => return replacement
    | none => transformChildren self id
  monotone h id := (EditM.Approximates.refl (g id)).bind fun
    | some _ => .refl _
    | none => .transformChildren h id

end Transformer

/-- Transforms everything below a node and then the node. -/
def transformBottomUp (f : NodeId → EditM σ ε NodeId) : NodeId → EditM σ ε NodeId :=
  (Transformer.bottomUp f).run

/-- Replaces the topmost nodes for which `g` gives an answer. -/
def transformTopDown (g : NodeId → EditM σ ε (Option NodeId)) : NodeId → EditM σ ε NodeId :=
  (Transformer.topDown g).run

theorem transformBottomUp_eq (f : NodeId → EditM σ ε NodeId) (id : NodeId) :
    transformBottomUp f id = transformChildren (transformBottomUp f) id >>= f :=
  Transformer.run_eq _ id

theorem transformTopDown_eq (g : NodeId → EditM σ ε (Option NodeId)) (id : NodeId) :
    transformTopDown g id = (do
      match ← g id with
      | some replacement => return replacement
      | none => transformChildren (transformTopDown g) id) :=
  Transformer.run_eq _ id

end AnswerSet
