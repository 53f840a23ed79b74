import AnswerSet.Proofs.Transform.Growth

/-!
# Delivering programs

Transferring statements to a builder runs two loops inside one another: one over the
statements, and one over what each of them is expanded to. Either ends early if the builder
rejects what it is handed. `Delivers` is the one loop that this amounts to. It goes through
the whole expanded program and ends at the first statement that is rejected.

A builder may add instances on its own, and so does unpooling between its turns. What has
been handed over is therefore known by the trees that it stands for. A builder that also
records what it is handed shows that nothing else is handed over.
-/

namespace AnswerSet

variable {σ α β : Type}

/-! ## Builders -/

namespace Builder

/-- The builder with a record of what it was handed beside its state. -/
def recording (builder : Builder σ) : Builder (σ × List NodeId) where
  add id := ExceptT.mk fun (state, record) s =>
    ((builder.add id).exec state s).map fun (verdict, state', s') =>
      ((verdict, state', record ++ [id]), s')

/-- The builder always comes back, and it mutates no instance. -/
def Additive (builder : Builder σ) : Prop :=
  ∀ id state (s : Store), ∃ verdict q,
    (builder.add id).exec state s = some (verdict, q) ∧ s.Extends q.2

theorem Additive.store_extends {builder : Builder σ} (h : builder.Additive) {id : NodeId}
    {state : σ} {s : Store} {verdict : Except Error Unit} {q : σ × Store}
    (hadd : (builder.add id).exec state s = some (verdict, q)) : s.Extends q.2 := by
  obtain ⟨verdict', q', hadd', hextends⟩ := h id state s
  rw [hadd, Option.some.injEq, Prod.mk.injEq] at hadd'
  exact hadd'.2 ▸ hextends

end Builder

/-! ## Deliveries -/

/-- The program is delivered. The builder is handed nodes that stand for its statements, in
order and up to the first that it rejects. In between the store may grow. -/
inductive Delivers (builder : Builder σ) :
    List (Tree Unit) → List NodeId → σ × Store → Except Error Unit → σ × Store → Prop where
  | done {state : σ} {s s' : Store} (hs : s.Extends s') :
      Delivers builder [] [] (state, s) (.ok ()) (state, s')
  | rejects {t : Tree Unit} {program : List (Tree Unit)} {id : NodeId} {state : σ} {s s₁ : Store}
      {e : Error} {q : σ × Store} (hs : s.Extends s₁) (ht : s₁.Denotes id t)
      (hadd : (builder.add id).exec state s₁ = some (.error e, q)) :
      Delivers builder (t :: program) [id] (state, s) (.error e) q
  | takes {t : Tree Unit} {program : List (Tree Unit)} {id : NodeId} {handed : List NodeId}
      {state : σ} {s s₁ : Store} {verdict : Except Error Unit} {q r : σ × Store}
      (hs : s.Extends s₁) (ht : s₁.Denotes id t)
      (hadd : (builder.add id).exec state s₁ = some (.ok (), q))
      (hrest : Delivers builder program handed q verdict r) :
      Delivers builder (t :: program) (id :: handed) (state, s) verdict r

/-- The builder only looks at the trees of its statements. -/
def Builder.Reads (builder : Builder σ) (step : Tree Unit → σ → Except Error Unit × σ) : Prop :=
  ∀ id t state s, s.Denotes id t → ∃ s',
    (builder.add id).exec state s = some ((step t state).1, (step t state).2, s')

namespace Delivers

variable {builder : Builder σ} {program program' : List (Tree Unit)} {handed handed' : List NodeId}
  {p q r : σ × Store} {verdict : Except Error Unit} {e : Error}

/-- It does not matter when the store has grown. -/
theorem earlier {state : σ} {s s' : Store} (hs : s.Extends s')
    (h : Delivers builder program handed (state, s') verdict q) :
    Delivers builder program handed (state, s) verdict q := by
  cases h with
  | done hs' => exact .done (hs.trans hs')
  | rejects hs' ht hadd => exact .rejects (hs.trans hs') ht hadd
  | takes hs' ht hadd hrest => exact .takes (hs.trans hs') ht hadd hrest

theorem append (h : Delivers builder program handed p (.ok ()) q)
    (h' : Delivers builder program' handed' q verdict r) :
    Delivers builder (program ++ program') (handed ++ handed') p verdict r := by
  generalize hok : (Except.ok () : Except Error Unit) = first at h
  induction h with
  | done hs => exact h'.earlier hs
  | rejects => cases hok
  | takes hs ht hadd _ ih => exact .takes hs ht hadd (ih h' hok)

theorem store_extends (h : Delivers builder program handed p verdict q)
    (hbuilder : builder.Additive) : p.2.Extends q.2 := by
  induction h with
  | done hs => exact hs
  | rejects hs _ hadd => exact hs.trans (hbuilder.store_extends hadd)
  | takes hs _ hadd _ ih => exact (hs.trans (hbuilder.store_extends hadd)).trans ih

/-- What was handed over stands for the first statements of the program. -/
theorem denotes (h : Delivers builder program handed p verdict q) (hbuilder : builder.Additive) :
    List.Forall₂ q.2.Denotes handed (program.take handed.length) := by
  induction h with
  | done => exact .nil
  | rejects _ ht hadd => exact .cons ((hbuilder.store_extends hadd).denotes ht) .nil
  | takes _ ht hadd hrest ih =>
      have hlater := (hbuilder.store_extends hadd).trans (hrest.store_extends hbuilder)
      exact .cons (hlater.denotes ht) ih

theorem length_eq (h : Delivers builder program handed p (.ok ()) q) :
    handed.length = program.length := by
  generalize hok : (Except.ok () : Except Error Unit) = verdict at h
  induction h with
  | done => rfl
  | rejects => cases hok
  | takes _ _ _ _ ih => rw [List.length_cons, List.length_cons, ih hok]

end Delivers

/-! ## Runs with and without a record -/

/-- From the first pair of states to the second the action delivers the program, with the
answer if nothing is rejected. The same action with a recording builder records what was
handed over. -/
structure Conveys (builder : Builder σ) (action : EditM σ Error α)
    (recorded : EditM (σ × List NodeId) Error α) (answer : α) (program : List (Tree Unit))
    (handed : List NodeId) (p : σ × Store) (verdict : Except Error Unit) (q : σ × Store) :
    Prop where
  run : action.exec p.1 p.2 = some (verdict.map fun _ => answer, q)
  recorded : ∀ record, recorded.exec (p.1, record) p.2 =
    some (verdict.map fun _ => answer, (q.1, record ++ handed), q.2)
  delivers : Delivers builder program handed p verdict q

namespace Conveys

variable {builder : Builder σ} {p q r : σ × Store} {verdict : Except Error Unit}

theorem pure (builder : Builder σ) (a : α) (p : σ × Store) :
    Conveys builder (pure a) (pure a) a [] [] p (.ok ()) p where
  run := rfl
  recorded record := by
    rw [List.append_nil]
    rfl
  delivers := .done (.refl p.2)

/-- An operation that adds instances hands nothing over. -/
theorem ofRun (builder : Builder σ) {operation : RunM α} {answer : α} {s' : Store}
    (hrun : operation.exec p.2 = some (.ok answer, s')) (hs : p.2.Extends s') :
    Conveys builder (EditM.ofRun operation) (EditM.ofRun operation) answer [] [] p (.ok ())
      (p.1, s') where
  run := by rw [EditM.exec_ofRun, hrun]; rfl
  recorded record := by rw [EditM.exec_ofRun, hrun, List.append_nil]; rfl
  delivers := .done hs

theorem bind {x : EditM σ Error α} {x' : EditM (σ × List NodeId) Error α} {a : α}
    {f : α → EditM σ Error β} {f' : α → EditM (σ × List NodeId) Error β} {b : β}
    {program program' : List (Tree Unit)} {handed handed' : List NodeId}
    (hx : Conveys builder x x' a program handed p (.ok ()) q)
    (hf : Conveys builder (f a) (f' a) b program' handed' q verdict r) :
    Conveys builder (x >>= f) (x' >>= f') b (program ++ program') (handed ++ handed') p verdict
      r where
  run := by
    rw [EditM.exec_bind, hx.run]
    exact hf.run
  recorded record := by
    rw [EditM.exec_bind, hx.recorded, ← List.append_assoc]
    exact hf.recorded _
  delivers := hx.delivers.append hf.delivers

end Conveys

/-! ## Transferring -/

end AnswerSet
