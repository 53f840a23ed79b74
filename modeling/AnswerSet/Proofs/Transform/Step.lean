import AnswerSet.Proofs.Store.Unchecked

/-!
# One step of a transformation

A step offers the children of one node to an action, from left to right. It ends with the
first call that fails, and it does not come back if a call does not. If every call has an answer,
the step keeps the node, or it allocates one node with the answers in the places of the children;
it does so exactly if some answer is another instance than the child.

The copy may also be made late: the values are copied when the first of them changes, and a
list is copied at the first item that does, with the items before it. This makes the same
calls and has the same result.
-/

namespace AnswerSet

variable {σ ε α β γ : Type}

/-! ## Calls in turn -/

/-- Calls with these arguments, one after the other and with nothing in between, have these
answers and lead from one pair of states to another. -/
inductive Answered (f : NodeId → EditM σ ε NodeId) :
    List NodeId → List NodeId → σ × Store → σ × Store → Prop where
  | nil (p : σ × Store) : Answered f [] [] p p
  | cons {c r : NodeId} {cs rs : List NodeId} {p q p' : σ × Store}
      (hcall : (f c).exec p.1 p.2 = some (.ok r, q)) (hrest : Answered f cs rs q p') :
      Answered f (c :: cs) (r :: rs) p p'

/-- An error with the states after it, or nothing if there is no coming back. -/
abbrev Interruption (σ ε : Type) := Option (ε × σ × Store)

/-- What an action that is interrupted ends with. -/
def Interruption.result (i : Interruption σ ε) : Option (Except ε α × σ × Store) :=
  i.map fun (e, q) => (.error e, q)

/-- Calls with these arguments, one after the other and with nothing in between, have answers
up to the last one, which is interrupted. -/
inductive Interrupted (f : NodeId → EditM σ ε NodeId) :
    List NodeId → Interruption σ ε → σ × Store → Prop where
  | last {c : NodeId} {i : Interruption σ ε} {p : σ × Store}
      (hcall : (f c).exec p.1 p.2 = i.result) : Interrupted f [c] i p
  | cons {c r : NodeId} {cs : List NodeId} {i : Interruption σ ε} {p q : σ × Store}
      (hcall : (f c).exec p.1 p.2 = some (.ok r, q)) (hrest : Interrupted f cs i q) :
      Interrupted f (c :: cs) i p

/-- Calls in turn have answers up to the last one, which fails. -/
def Refused (f : NodeId → EditM σ ε NodeId) (cs : List NodeId) (e : ε) (p q : σ × Store) : Prop :=
  Interrupted f cs (some (e, q)) p

/-- Calls in turn have answers up to the last one, which does not come back. -/
def Lost (f : NodeId → EditM σ ε NodeId) (cs : List NodeId) (p : σ × Store) : Prop :=
  Interrupted f cs none p

section Calls

variable {f : NodeId → EditM σ ε NodeId} {cs ds rs offered : List NodeId}
  {i : Interruption σ ε} {p q : σ × Store}

theorem Answered.of_append (h : Answered f (cs ++ ds) rs p q) :
    ∃ as bs r, rs = as ++ bs ∧ Answered f cs as p r ∧ Answered f ds bs r q := by
  induction cs generalizing rs p with
  | nil => exact ⟨[], rs, p, rfl, .nil p, h⟩
  | cons c cs ih =>
      cases h with
      | cons hcall hrest =>
          obtain ⟨as, bs, r, rfl, has, hbs⟩ := ih hrest
          exact ⟨_ :: as, bs, r, rfl, .cons hcall has, hbs⟩

theorem Interrupted.ne_nil (h : Interrupted f offered i p) : offered ≠ [] := by
  cases h <;> exact List.cons_ne_nil _ _

theorem Interrupted.of_append (hds : ds ≠ []) (h : Interrupted f (cs ++ ds) i p) :
    ∃ as r, Answered f cs as p r ∧ Interrupted f ds i r := by
  induction cs generalizing p with
  | nil => exact ⟨[], p, .nil p, h⟩
  | cons c cs ih =>
      rw [List.cons_append] at h
      generalize hcs : cs ++ ds = rest at h
      cases h with
      | last => exact absurd (List.append_eq_nil_iff.1 hcs).2 hds
      | cons hcall hrest =>
          obtain ⟨as, r, has, hds⟩ := ih (hcs ▸ hrest)
          exact ⟨_ :: as, r, .cons hcall has, hds⟩

/-- Calls in turn all have answers, or some call is the first to be interrupted. -/
theorem answered_or_interrupted (f : NodeId → EditM σ ε NodeId) (cs : List NodeId)
    (p : σ × Store) :
    (∃ offered rest i, cs = offered ++ rest ∧ Interrupted f offered i p) ∨
      ∃ rs q, Answered f cs rs p q := by
  induction cs generalizing p with
  | nil => exact .inr ⟨[], p, .nil p⟩
  | cons c cs ih =>
      rcases hcall : (f c).exec p.1 p.2 with _ | ⟨e | r, q⟩
      · exact .inl ⟨[c], cs, none, rfl, .last hcall⟩
      · exact .inl ⟨[c], cs, some (e, q), rfl, .last hcall⟩
      · rcases ih q with ⟨offered, rest, i, rfl, hinterrupted⟩ | ⟨rs, q', hanswered⟩
        · exact .inl ⟨c :: offered, rest, i, rfl, .cons hcall hinterrupted⟩
        · exact .inr ⟨r :: rs, q', .cons hcall hanswered⟩

end Calls

/-! ## Actions that consist of calls in turn -/

/-- The action makes calls with these arguments in turn. Its answer is made of theirs, and it is
interrupted by the first call that is. -/
structure Serial (f : NodeId → EditM σ ε NodeId) (cs : List NodeId) (x : EditM σ ε β)
    (R : List NodeId → β → Prop) : Prop where
  answered : ∀ {rs p q}, Answered f cs rs p q → ∃ b, R rs b ∧ x.exec p.1 p.2 = some (.ok b, q)
  interrupted : ∀ {offered rest i p}, cs = offered ++ rest → Interrupted f offered i p →
    x.exec p.1 p.2 = i.result

namespace Serial

variable {f : NodeId → EditM σ ε NodeId} {cs ds : List NodeId} {x : EditM σ ε α}
  {R : List NodeId → α → Prop}

theorem pure (b : β) : Serial f [] (Pure.pure b) fun rs b' => rs = [] ∧ b' = b where
  answered h := by
    cases h
    exact ⟨b, ⟨rfl, rfl⟩, rfl⟩
  interrupted hcs h := absurd (List.append_eq_nil_iff.1 hcs.symm).1 h.ne_nil

theorem call (c : NodeId) : Serial f [c] (f c) fun rs r => rs = [r] where
  answered h := by
    cases h with
    | cons hcall hrest => cases hrest; exact ⟨_, rfl, hcall⟩
  interrupted hcs h := by
    cases h with
    | last hcall =>
        obtain ⟨rfl, -⟩ := List.cons.inj hcs
        exact hcall
    | cons _ hrest =>
        obtain ⟨-, hrest'⟩ := List.cons.inj hcs
        exact absurd (List.append_eq_nil_iff.1 hrest'.symm).1 hrest.ne_nil

theorem imp {S : List NodeId → α → Prop} (h : Serial f cs x R) (himp : ∀ rs a, R rs a → S rs a) :
    Serial f cs x S where
  answered hanswered := by
    obtain ⟨a, ha, hexec⟩ := h.answered hanswered
    exact ⟨a, himp _ a ha, hexec⟩
  interrupted := h.interrupted

theorem bind {g : α → EditM σ ε β} {S : α → List NodeId → β → Prop} (hx : Serial f cs x R)
    (hg : ∀ a, Serial f ds (g a) (S a)) :
    Serial f (cs ++ ds) (x >>= g) fun rs b =>
      ∃ as bs a, rs = as ++ bs ∧ R as a ∧ S a bs b where
  answered h := by
    obtain ⟨as, bs, r, rfl, has, hbs⟩ := h.of_append
    obtain ⟨a, ha, hexec⟩ := hx.answered has
    obtain ⟨b, hb, hexec'⟩ := (hg a).answered hbs
    refine ⟨b, ⟨as, bs, a, rfl, ha, hb⟩, ?_⟩
    rw [EditM.exec_bind, hexec]
    exact hexec'
  interrupted {offered rest i p} hcs h := by
    -- An interruption of the first action is one of the whole.
    have hpass (hfirst : x.exec p.1 p.2 = i.result) : (x >>= g).exec p.1 p.2 = i.result := by
      rw [EditM.exec_bind, hfirst]
      cases i <;> rfl
    rcases List.append_eq_append_iff.1 hcs with ⟨later, rfl, hds⟩ | ⟨left, hcs, -⟩
    · by_cases hlater : later = []
      · subst hlater
        rw [List.append_nil] at h
        exact hpass (hx.interrupted (List.append_nil cs).symm h)
      · obtain ⟨as, r, has, hinterrupted⟩ := h.of_append hlater
        obtain ⟨a, -, hexec⟩ := hx.answered has
        rw [EditM.exec_bind, hexec]
        exact (hg a).interrupted hds hinterrupted
    · exact hpass (hx.interrupted hcs h)

theorem map (k : α → β) (hx : Serial f cs x R) :
    Serial f cs (do return k (← x)) fun rs b => ∃ a, R rs a ∧ b = k a := by
  have h := hx.bind (g := fun a => Pure.pure (k a)) fun a => Serial.pure (k a)
  rw [List.append_nil] at h
  refine h.imp fun rs b => ?_
  rintro ⟨as, bs, a, rfl, ha, rfl, rfl⟩
  exact ⟨a, by rwa [List.append_nil], rfl⟩

/-- Actions over a list make their calls one list of calls after the other. -/
theorem mapM {g : α → EditM σ ε β} {args : α → List NodeId} {read : β → List NodeId}
    {T : α → β → Prop} (h : ∀ a, Serial f (args a) (g a) fun rs b => T a b ∧ read b = rs)
    (as : List α) : Serial f (as.flatMap args) (as.mapM g) fun rs bs =>
      List.Forall₂ T as bs ∧ bs.flatMap read = rs := by
  induction as with
  | nil =>
      refine (Serial.pure []).imp fun rs bs => ?_
      rintro ⟨rfl, rfl⟩
      exact ⟨.nil, rfl⟩
  | cons a as ih =>
      rw [List.mapM_cons]
      refine ((h a).bind fun b => ih.map (b :: ·)).imp fun rs bs => ?_
      rintro ⟨first, rest, b, rfl, ⟨hb, rfl⟩, bs, ⟨hbs, rfl⟩, rfl⟩
      exact ⟨.cons hb hbs, rfl⟩

end Serial

/-! ## Values with other children -/

/-- The first values become the second if the nodes of the list take the places of their
children. Lists keep their lengths, and what is absent stays absent. -/
structure Refilled (vs : List (Value NodeId)) (nodes : List NodeId) (ws : List (Value NodeId)) :
    Prop where
  /-- The values agree up to their children. -/
  forms : List.Forall₂ (Value.Rel fun _ _ => True) vs ws
  /-- These are the nodes, in their order. -/
  children : ws.flatMap Value.children = nodes

theorem Value.rel_self {ν : Type} (v : Value ν) : Rel (fun _ _ => True) v v :=
  (Value.rel_eq_iff.2 (Eq.refl v)).imp fun _ _ _ => trivial

theorem Value.eq_of_rel {ν μ : Type} {R S : ν → μ → Prop} {v : Value ν} {w w' : Value μ}
    (h : Rel R v w) (h' : Rel S v w') (hchildren : w.children = w'.children) : w = w' := by
  cases h <;> cases h' <;> simp_all [Value.children]

theorem Refilled.unique {vs ws ws' : List (Value NodeId)} {nodes : List NodeId}
    (h : Refilled vs nodes ws) (h' : Refilled vs nodes ws') : ws = ws' := by
  obtain ⟨hforms, hchildren⟩ := h
  obtain ⟨hforms', hchildren'⟩ := h'
  rw [← hchildren'] at hchildren
  clear hchildren'
  induction hforms generalizing ws' with
  | nil => cases hforms'; rfl
  | cons hv _ ih =>
      cases hforms' with
      | cons hv' hforms' =>
          rw [List.flatMap_cons, List.flatMap_cons] at hchildren
          have hlength := hv.children.length_eq.symm.trans hv'.children.length_eq
          obtain ⟨hfirst, hrest⟩ := List.append_inj hchildren hlength
          rw [Value.eq_of_rel hv hv' hfirst, ih hrest hforms']

theorem Refilled.refl (vs : List (Value NodeId)) : Refilled vs (vs.flatMap Value.children) vs where
  forms := List.forall₂_same.2 fun v _ => v.rel_self
  children := rfl

/-! ## The step -/

theorem serial_valueMapM (f : NodeId → EditM σ ε NodeId) (v : Value NodeId) :
    Serial f v.children (v.mapM f) fun rs w =>
      Value.Rel (fun _ _ => True) v w ∧ w.children = rs := by
  have hleaf (hv : v.children = []) (hpure : v.mapM f = pure v) : Serial f v.children (v.mapM f)
      fun rs w => Value.Rel (fun _ _ => True) v w ∧ w.children = rs := by
    rw [hv, hpure]
    refine (Serial.pure v).imp fun rs w => ?_
    rintro ⟨rfl, rfl⟩
    exact ⟨w.rel_self, hv⟩
  cases v with
  | node c =>
      refine ((Serial.call c).map Value.node).imp fun rs w => ?_
      rintro ⟨r, rfl, rfl⟩
      exact ⟨.node trivial, rfl⟩
  | optional child =>
      cases child with
      | none => exact hleaf rfl rfl
      | some c =>
          refine ((Serial.call c).map fun r => Value.optional (some r)).imp fun rs w => ?_
          rintro ⟨r, rfl, rfl⟩
          exact ⟨.present trivial, rfl⟩
  | nodes cs =>
      have hitem (c : NodeId) : Serial f [c] (f c) fun rs r => True ∧ [r] = rs :=
        (Serial.call c).imp fun rs r hr => ⟨trivial, hr.symm⟩
      have hitems := Serial.mapM hitem cs
      rw [List.flatMap_singleton'] at hitems
      refine (hitems.map Value.nodes).imp fun rs w => ?_
      rintro ⟨answers, ⟨hforms, rfl⟩, rfl⟩
      exact ⟨.nodes hforms, (List.flatMap_singleton' answers).symm⟩
  | _ => exact hleaf rfl rfl

theorem serial_valuesMapM (f : NodeId → EditM σ ε NodeId) (vs : List (Value NodeId)) :
    Serial f (vs.flatMap Value.children) (vs.mapM (Value.mapM f)) (Refilled vs) :=
  (Serial.mapM (serial_valueMapM f) vs).imp fun _ _ h => ⟨h.1, h.2⟩

/-- The outcome of a step when the children have their answers: the node itself, or the one
node that is allocated for it. -/
def stepOutcome (id : NodeId) (n : Node) (after : List (Value NodeId)) (q : σ × Store) :
    Except ε NodeId × σ × Store :=
  if after = n.values then (.ok id, q)
  else
    let (r, s) := (Store.alloc ⟨n.kind, after⟩).run q.2
    (.ok r, q.1, s)

section Step

variable {f : NodeId → EditM σ ε NodeId} {id : NodeId} {n : Node} {p q : σ × Store}

theorem exec_rebuild (id : NodeId) (n : Node) (after : List (Value NodeId)) (q : σ × Store) :
    (rebuild id n.kind n.values after : EditM σ ε NodeId).exec q.1 q.2 =
      some (stepOutcome id n after q) := by
  rw [rebuild, stepOutcome]
  split <;> rfl

theorem exec_transformChildren (hn : p.2.node? id = some n) :
    (transformChildren f id).exec p.1 p.2 =
      (n.values.mapM (Value.mapM f) >>= rebuild id n.kind n.values).exec p.1 p.2 := by
  rw [transformChildren, EditM.exec_store_bind, hn]

/-- If all calls have answers, then these take the places of the children. -/
theorem exec_transformChildren_of_answered (hn : p.2.node? id = some n) {rs : List NodeId}
    (h : Answered f n.children rs p q) : ∃ after, Refilled n.values rs after ∧
      (transformChildren f id).exec p.1 p.2 = some (stepOutcome id n after q) := by
  obtain ⟨after, hafter, hexec⟩ := (serial_valuesMapM f n.values).answered h
  refine ⟨after, hafter, ?_⟩
  rw [exec_transformChildren hn, EditM.exec_bind, hexec]
  exact exec_rebuild id n after q

/-- If a call is interrupted, then the step is so in the same way. -/
theorem exec_transformChildren_of_interrupted (hn : p.2.node? id = some n)
    {offered rest : List NodeId} {i : Interruption σ ε} (hchildren : n.children = offered ++ rest)
    (h : Interrupted f offered i p) : (transformChildren f id).exec p.1 p.2 = i.result := by
  rw [exec_transformChildren hn, EditM.exec_bind,
    (serial_valuesMapM f n.values).interrupted hchildren h]
  cases i <;> rfl

end Step

/-! ## Keeping a record -/

/-- The action, with its arguments noted in the order of the calls. -/
def offering (f : NodeId → EditM σ ε NodeId) (c : NodeId) : EditM (σ × List NodeId) ε NodeId :=
  fun (state, offered) s =>
    ((f c).exec state s).map fun (answer, state', s') => ((answer, state', offered ++ [c]), s')

section Offering

variable {f : NodeId → EditM σ ε NodeId} {cs rs offered : List NodeId} {i : Interruption σ ε}
  {p q : σ × Store}

theorem exec_offering (c : NodeId) (log : List NodeId) (p : σ × Store) :
    (offering f c).exec (p.1, log) p.2 =
      ((f c).exec p.1 p.2).map fun result => (result.1, (result.2.1, log ++ [c]), result.2.2) := by
  rw [EditM.exec_eq, offering, Option.map_map]
  rfl

theorem Answered.offering (h : Answered f cs rs p q) (log : List NodeId) :
    Answered (offering f) cs rs ((p.1, log), p.2) ((q.1, log ++ cs), q.2) := by
  induction h generalizing log with
  | nil p => rw [List.append_nil]; exact .nil _
  | @cons c r _ _ p q _ hcall _ ih =>
      have hcall' : (AnswerSet.offering f c).exec (p.1, log) p.2 =
          some (.ok r, (q.1, log ++ [c]), q.2) := by
        rw [exec_offering, hcall]
        rfl
      rw [List.append_cons]
      exact .cons hcall' (ih _)

/-- An interruption with a record beside the state of the caller. -/
def Interruption.logged (i : Interruption σ ε) (log : List NodeId) :
    Interruption (σ × List NodeId) ε :=
  i.map fun (e, state, s) => (e, (state, log), s)

theorem Interrupted.offering (h : Interrupted f offered i p) (log : List NodeId) :
    Interrupted (offering f) offered (i.logged (log ++ offered)) ((p.1, log), p.2) := by
  induction h generalizing log with
  | last hcall =>
      refine .last ?_
      rw [exec_offering, hcall, Interruption.result, Interruption.result, Interruption.logged,
        Option.map_map, Option.map_map]
      rfl
  | @cons c r _ _ p q hcall _ ih =>
      have hcall' : (AnswerSet.offering f c).exec (p.1, log) p.2 =
          some (.ok r, (q.1, log ++ [c]), q.2) := by
        rw [exec_offering, hcall]
        rfl
      rw [List.append_cons]
      exact .cons hcall' (ih _)

end Offering

/-! ## Actions that cannot fail -/

/-- An action that cannot fail, as one that can. -/
def EditM.widen (x : EditM σ Empty α) : EditM σ ε α := ExceptT.adapt Empty.elim x

theorem EditM.exec_widen {x : EditM σ Empty α} {a : α} {p q : σ × Store}
    (h : x.exec p.1 p.2 = some (.ok a, q)) :
    (x.widen : EditM σ ε α).exec p.1 p.2 = some (.ok a, q) := by
  have hrun : (x.widen : EditM σ ε α) p.1 p.2 = (x p.1 p.2).bind fun result =>
      some ((result.1.1.mapError Empty.elim, result.1.2), result.2) := rfl
  rw [exec_eq, Option.map_eq_some_iff] at h
  obtain ⟨result, hresult, h⟩ := h
  rw [Prod.mk.injEq] at h
  obtain ⟨ha, rfl⟩ := h
  rw [exec_eq, hrun, hresult, Option.bind_some, Option.map_some, ha]
  rfl

theorem Answered.widen {g : NodeId → EditM σ Empty NodeId} {cs rs : List NodeId} {p q : σ × Store}
    (h : Answered g cs rs p q) :
    Answered (fun c => ((g c).widen : EditM σ ε NodeId)) cs rs p q := by
  induction h with
  | nil p => exact .nil p
  | cons hcall _ ih => exact .cons (EditM.exec_widen hcall) ih

/-! ## Late copies -/

section Late

variable {m : Type → Type} [Monad m]

/-- The second of two, if it differs from the first. -/
def changed [DecidableEq α] (before after : α) : Option α :=
  if after = before then none else some after

/-- Adds an answer to a copy of a list. If there is none yet, it is made at an answer that is
another instance than its item, with the items before it. -/
def addAnswer (before : List NodeId) (item answer : NodeId) :
    Option (List NodeId) → Option (List NodeId)
  | some answers => some (answers ++ [answer])
  | none => if answer = item then none else some (before ++ [answer])

/-- Copies the list with the answers in the places of the items, if an answer is another
instance than its item. -/
def copyItems (f : NodeId → m NodeId) (items : List NodeId) : m (Option (List NodeId)) :=
  items.zipIdx.foldlM (fun copy (item, i) => do
    return addAnswer (items.take i) item (← f item) copy) none

/-- The value with the answers in the places of its children, if this is another value. -/
def copyValue (f : NodeId → m NodeId) : Value NodeId → m (Option (Value NodeId))
  | .node child => do return (changed child (← f child)).map .node
  | .optional (some child) => do
      return (changed child (← f child)).map fun answer => .optional (some answer)
  | .nodes items => do return (← copyItems f items).map .nodes
  | _ => return none

/-- Writes a value that has changed into the copy of the values. If there is none yet, it is
made. -/
def putValue (values : List (Value NodeId)) (i : Nat) (copy : Option (List (Value NodeId))) :
    Option (Value NodeId) → Option (List (Value NodeId))
  | some w => some ((copy.getD values).set i w)
  | none => copy

/-- Copies the values with the answers in the places of the children, if this changes them. -/
def copyValues (f : NodeId → m NodeId) (values : List (Value NodeId)) :
    m (Option (List (Value NodeId))) :=
  values.zipIdx.foldlM (fun copy (v, i) => do return putValue values i copy (← copyValue f v)) none

variable [LawfulMonad m]

/-- The copy is there exactly if the items up to now have changed. -/
theorem addAnswer_changed {before done : List NodeId} (hlength : done.length = before.length)
    (item answer : NodeId) :
    addAnswer before item answer (changed before done) =
      changed (before ++ [item]) (done ++ [answer]) := by
  have hconcat : done ++ [answer] = before ++ [item] ↔ done = before ∧ answer = item := by
    refine ⟨fun h => ?_, fun h => by rw [h.1, h.2]⟩
    obtain ⟨hdone, hanswer⟩ := List.append_inj h hlength
    exact ⟨hdone, List.singleton_inj.1 hanswer⟩
  by_cases hdone : done = before <;> simp [changed, addAnswer, hdone, hconcat]

theorem foldlM_copyItems (f : NodeId → m NodeId) (before rest done : List NodeId)
    (hlength : done.length = before.length) :
    (rest.zipIdx before.length).foldlM (fun copy (item, i) => do
        return addAnswer ((before ++ rest).take i) item (← f item) copy) (changed before done) =
      (do return changed (before ++ rest) (done ++ (← rest.mapM f))) := by
  induction rest generalizing before done with
  | nil => simp
  | cons item rest ih =>
      have hstep (answer : NodeId) := ih (before ++ [item]) (done ++ [answer])
        (by rw [List.length_append, List.length_append, hlength]; rfl)
      simp only [List.length_append, List.length_singleton, List.append_assoc,
        List.singleton_append] at hstep
      rw [List.zipIdx_cons, List.foldlM_cons, List.mapM_cons]
      simp only [bind_assoc, pure_bind, ← hstep, List.take_left, addAnswer_changed hlength]

theorem copyItems_eq (f : NodeId → m NodeId) (items : List NodeId) :
    copyItems f items = do return changed items (← items.mapM f) :=
  foldlM_copyItems f [] items [] rfl

theorem copyValue_eq (f : NodeId → m NodeId) (v : Value NodeId) :
    copyValue f v = do return changed v (← v.mapM f) := by
  have hmap {κ ν : Type} [DecidableEq κ] [DecidableEq ν] {g : κ → ν} (hg : g.Injective) (a b : κ) :
      (changed a b).map g = changed (g a) (g b) := by
    simp only [changed, hg.eq_iff]
    split <;> rfl
  cases v with
  | node c => simp [copyValue, Value.mapM, hmap fun _ _ h => Value.node.inj h]
  | optional child =>
      cases child with
      | none => simp [copyValue, Value.mapM, changed]
      | some c =>
          simp [copyValue, Value.mapM, hmap fun _ _ h => Option.some.inj (Value.optional.inj h)]
  | nodes cs =>
      simp [copyValue, Value.mapM, copyItems_eq, hmap fun _ _ h => Value.nodes.inj h]
  | _ => simp [copyValue, Value.mapM, changed]

/-- The copy of the values is there exactly if the values up to now have changed; those after
them are in it as they were. -/
theorem putValue_changed {before done : List (Value NodeId)} (hlength : done.length = before.length)
    (v w : Value NodeId) (rest : List (Value NodeId)) :
    putValue (before ++ v :: rest) before.length
        (changed (before ++ v :: rest) (done ++ v :: rest)) (changed v w) =
      changed (before ++ v :: rest) (done ++ w :: rest) := by
  by_cases hw : w = v
  · simp [changed, putValue, hw]
  · have hcopy : (changed (before ++ v :: rest) (done ++ v :: rest)).getD (before ++ v :: rest) =
        done ++ v :: rest := by
      rw [changed]
      split
      · rename_i hsame
        exact hsame.symm
      · rfl
    have hdiffers : done ++ w :: rest ≠ before ++ v :: rest := fun h =>
      hw (List.cons.inj (List.append_inj h hlength).2).1
    rw [changed.eq_def v w, if_neg hw, putValue, hcopy, changed, if_neg hdiffers, ← hlength]
    simp

theorem foldlM_copyValues (f : NodeId → m NodeId) (before rest done : List (Value NodeId))
    (hlength : done.length = before.length) :
    (rest.zipIdx before.length).foldlM (fun copy (v, i) => do
        return putValue (before ++ rest) i copy (← copyValue f v))
        (changed (before ++ rest) (done ++ rest)) =
      (do return changed (before ++ rest) (done ++ (← rest.mapM (Value.mapM f)))) := by
  induction rest generalizing before done with
  | nil => simp
  | cons v rest ih =>
      have hstep (w : Value NodeId) := ih (before ++ [v]) (done ++ [w])
        (by rw [List.length_append, List.length_append, hlength]; rfl)
      simp only [List.length_append, List.length_singleton, List.append_assoc,
        List.singleton_append] at hstep
      rw [List.zipIdx_cons, List.foldlM_cons, List.mapM_cons]
      simp only [copyValue_eq, bind_assoc, pure_bind] at hstep ⊢
      simp only [← hstep, putValue_changed hlength]

theorem copyValues_eq (f : NodeId → m NodeId) (values : List (Value NodeId)) :
    copyValues f values = do return changed values (← values.mapM (Value.mapM f)) := by
  have h := foldlM_copyValues f [] values [] rfl
  rw [List.nil_append, changed, if_pos rfl] at h
  exact h

end Late

/-- Transforms the children of a node with late copies. -/
def transformChildrenLate (f : NodeId → EditM σ ε NodeId) (id : NodeId) : EditM σ ε NodeId := do
  match (← EditM.store).node? id with
  | some n =>
      match ← copyValues f n.values with
      | some values => Store.alloc ⟨n.kind, values⟩
      | none => return id
  | none => return id

theorem transformChildrenLate_eq (f : NodeId → EditM σ ε NodeId) (id : NodeId) :
    transformChildrenLate f id = transformChildren f id := by
  refine bind_congr fun s => ?_
  cases s.node? id with
  | none => rfl
  | some n =>
      simp only [copyValues_eq, bind_assoc, pure_bind]
      refine bind_congr fun after => ?_
      by_cases hsame : after = n.values
      · rw [changed, rebuild, if_pos hsame, if_pos hsame]
      · rw [changed, rebuild, if_neg hsame, if_neg hsame]

/-! ## Copy on write -/

/-- A step from one pair of states to another. -/
structure StepRun (f : NodeId → EditM σ ε NodeId) (id : NodeId) (offered : List NodeId)
    (result : Except ε NodeId) (p q : σ × Store) : Prop where
  /-- It ends with this result. -/
  ends : (transformChildren f id).exec p.1 p.2 = some (result, q)
  /-- The nodes are offered to the action in this order, and no others are. -/
  calls : (transformChildren (offering f) id).exec (p.1, []) p.2 =
    some (result, (q.1, offered), q.2)
  /-- It ends in the same way with late copies. -/
  late : (transformChildrenLate f id).exec p.1 p.2 = some (result, q)

/-- A step that does not come back, with late copies neither. -/
structure StepLost (f : NodeId → EditM σ ε NodeId) (id : NodeId) (p : σ × Store) : Prop where
  endless : (transformChildren f id).exec p.1 p.2 = none
  late : (transformChildrenLate f id).exec p.1 p.2 = none

section StepRun

variable {f : NodeId → EditM σ ε NodeId} {id : NodeId} {n : Node} {p q : σ × Store}
  {offered rest : List NodeId}

theorem StepRun.of_refused (hn : p.2.node? id = some n) {e : ε}
    (hchildren : n.children = offered ++ rest) (h : Refused f offered e p q) :
    StepRun f id offered (.error e) p q where
  ends := exec_transformChildren_of_interrupted hn hchildren h
  calls := exec_transformChildren_of_interrupted (p := ((p.1, []), p.2)) hn hchildren
    (Interrupted.offering h [])
  late := by
    rw [transformChildrenLate_eq]
    exact exec_transformChildren_of_interrupted hn hchildren h

theorem StepLost.of_lost (hn : p.2.node? id = some n) (hchildren : n.children = offered ++ rest)
    (h : Lost f offered p) : StepLost f id p where
  endless := exec_transformChildren_of_interrupted hn hchildren h
  late := by
    rw [transformChildrenLate_eq]
    exact exec_transformChildren_of_interrupted hn hchildren h

theorem StepRun.of_answered (hn : p.2.node? id = some n) {answers : List NodeId}
    {after : List (Value NodeId)} (hafter : Refilled n.values answers after)
    (h : Answered f n.children answers p q) :
    StepRun f id n.children (stepOutcome (ε := ε) id n after q).1 p
      (stepOutcome (ε := ε) id n after q).2 := by
  obtain ⟨after', hafter', hexec⟩ := exec_transformChildren_of_answered hn h
  obtain ⟨after'', hafter'', hexec'⟩ :=
    exec_transformChildren_of_answered (p := ((p.1, []), p.2)) hn (h.offering [])
  obtain rfl := hafter.unique hafter'
  obtain rfl := hafter.unique hafter''
  refine ⟨hexec, hexec'.trans ?_, (transformChildrenLate_eq f id).symm ▸ hexec⟩
  rw [stepOutcome, stepOutcome]
  split <;> rfl

/-- If all calls have answers, then the step keeps the node, or it makes one node with the
answers as its children. -/
theorem stepRun_of_answered (hn : p.2.node? id = some n) {answers : List NodeId}
    (h : Answered f n.children answers p q) :
    (answers = n.children → StepRun f id n.children (.ok id) p q) ∧
      (answers ≠ n.children → ∃ m r s', m.kind = n.kind ∧ Refilled n.values answers m.values ∧
        (Store.alloc m).run q.2 = (r, s') ∧ StepRun f id n.children (.ok r) p (q.1, s')) := by
  obtain ⟨after, hafter, -⟩ := exec_transformChildren_of_answered hn h
  have hrun := StepRun.of_answered hn hafter h
  have hsame : after = n.values ↔ answers = n.children := by
    refine ⟨fun hvalues => ?_, fun hanswers => ?_⟩
    · rw [← hafter.children, hvalues]
      rfl
    · exact hafter.unique (hanswers ▸ Refilled.refl n.values)
  refine ⟨fun hanswers => ?_, fun hanswers => ⟨⟨n.kind, after⟩, _, _, rfl, hafter, rfl, ?_⟩⟩
  · rwa [stepOutcome, if_pos (hsame.2 hanswers)] at hrun
  · rwa [stepOutcome, if_neg (mt hsame.1 hanswers)] at hrun

end StepRun

/-- A step offers the children of a node in order. If the action fails on one of them, the
step ends there with its error and its states, and if the action does not come back, neither does
the step. Otherwise it keeps the node if every child was its own answer, and else it allocates one
node that differs from the other in having the answers in the places of the children. An action
that cannot fail makes the same step as what it is and as one that could fail. -/
theorem transformChildren_copies_on_write (f : NodeId → EditM σ ε NodeId) {id : NodeId} {n : Node}
    {p : σ × Store} (hn : p.2.node? id = some n) :
    ((∃ offered rest e q, n.children = offered ++ rest ∧ Refused f offered e p q ∧
        StepRun f id offered (.error e) p q) ∨
      (∃ offered rest, n.children = offered ++ rest ∧ Lost f offered p ∧ StepLost f id p) ∨
      ∃ answers q, Answered f n.children answers p q ∧
        (answers = n.children → StepRun f id n.children (.ok id) p q) ∧
        (answers ≠ n.children → ∃ m r s', m.kind = n.kind ∧ Refilled n.values answers m.values ∧
          (Store.alloc m).run q.2 = (r, s') ∧ StepRun f id n.children (.ok r) p (q.1, s'))) ∧
      ∀ g : NodeId → EditM σ Empty NodeId,
        (∃ offered rest, n.children = offered ++ rest ∧ Lost g offered p ∧ StepLost g id p) ∨
          ∃ r q, StepRun g id n.children (.ok r) p q ∧
            StepRun (fun c => ((g c).widen : EditM σ ε NodeId)) id n.children (.ok r) p q := by
  refine ⟨?_, fun g => ?_⟩
  · rcases answered_or_interrupted f n.children p with
      ⟨offered, rest, _ | ⟨e, q⟩, hchildren, h⟩ | ⟨answers, q, hanswered⟩
    · exact .inr (.inl ⟨offered, rest, hchildren, h, .of_lost hn hchildren h⟩)
    · exact .inl ⟨offered, rest, e, q, hchildren, h, .of_refused hn hchildren h⟩
    · exact .inr (.inr ⟨answers, q, hanswered, stepRun_of_answered hn hanswered⟩)
  · rcases answered_or_interrupted g n.children p with
      ⟨offered, rest, _ | ⟨e, _⟩, hchildren, h⟩ | ⟨answers, q, hanswered⟩
    · exact .inl ⟨offered, rest, hchildren, h, .of_lost hn hchildren h⟩
    · exact e.elim
    · obtain ⟨after, hafter, -⟩ := exec_transformChildren_of_answered hn hanswered
      have hrun := StepRun.of_answered hn hafter hanswered
      have hrun' := StepRun.of_answered hn hafter (hanswered.widen (ε := ε))
      rw [stepOutcome] at hrun hrun'
      split at hrun
      · rename_i hsame
        rw [if_pos hsame] at hrun'
        exact .inr ⟨_, _, hrun, hrun'⟩
      · rename_i hdiffers
        rw [if_neg hdiffers] at hrun'
        exact .inr ⟨_, _, hrun, hrun'⟩

/-- Keeps the node it is given first and puts the number 2 in the place of every other. -/
def keepFirst (c : NodeId) : EditM Nat Empty NodeId := do
  let calls ← get
  set (calls + 1)
  if calls = 0 then return c
  else Store.alloc ⟨.symbolicTerm, [.location .default, .symbol (.number 2)]⟩

/-- The children of `f(1,1)` are one instance, which is offered twice. As the answers differ
in the second place, the step makes the term `f(1,2)` with the old instance as its first
argument. -/
theorem transformChildren_copies_on_write_sharedTerm :
    ∃ n, Store.sharedTerm.node? ⟨1⟩ = some n ∧ n.children = [⟨0⟩, ⟨0⟩] ∧
      ∃ m r s s', Answered keepFirst n.children [⟨0⟩, ⟨2⟩] (0, Store.sharedTerm) (2, s) ∧
        m.kind = .function ∧ Refilled n.values [⟨0⟩, ⟨2⟩] m.values ∧
        (Store.alloc m).run s = (r, s') ∧
        StepRun keepFirst ⟨1⟩ [⟨0⟩, ⟨0⟩] (.ok r) (0, Store.sharedTerm) (2, s') := by
  have hn : Store.sharedTerm.node? ⟨1⟩ = some _ := rfl
  refine ⟨_, hn, rfl, ?_⟩
  obtain ⟨⟨_, _, e, _⟩ | ⟨_, _, -, -, hlost⟩ | ⟨answers, q, hanswered, -, hrebuilt⟩, -⟩ :=
    transformChildren_copies_on_write (p := (0, Store.sharedTerm)) keepFirst hn
  · exact e.elim
  · have hends : (transformChildren keepFirst ⟨1⟩).exec 0 Store.sharedTerm = some _ := rfl
    rw [hlost.endless] at hends
    cases hends
  · have hanswered' := hanswered
    cases hanswered' with
    | cons hfirst hrest =>
      cases hfirst
      cases hrest with
      | cons hsecond hnone =>
        cases hsecond
        cases hnone
        obtain ⟨m, r, s', hkind, hrefilled, halloc, hrun⟩ := hrebuilt (by decide)
        exact ⟨m, r, _, s', hanswered, hkind, hrefilled, halloc, hrun⟩

end AnswerSet
