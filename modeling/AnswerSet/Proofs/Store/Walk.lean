import AnswerSet.Proofs.Store.Order
import AnswerSet.Proofs.Visit
import Mathlib.Algebra.GroupWithZero.Nat

/-!
# The loop of a visit

A visit keeps the nodes that are still to be visited on a stack. Here its rounds are a relation,
so that one round can be spoken of: it takes off the topmost node, visits it and puts the
children of what is entered on the stack, the last child first. In a store without cycles the
loop ends, and it makes the very walk that visits a node and then, by recursion, walks through
its children, whatever the visitor remembers and answers.

The stack is the rest of the walk: what is on it is still to be walked through, from the top
down. One round takes the first node off this walk, and all the rest follows from that.
-/

namespace AnswerSet

variable {σ : Type}

namespace Store

/-! ## The loop and the recursion -/

/-- One round of the loop. The last node of the list is the top of the stack. It is taken off
and visited, and if it is entered, then its children are put on the stack in reverse order. -/
inductive Round (s : Store) (visitor : NodeId → StateM σ Bool) :
    List NodeId × σ → NodeId → List NodeId × σ → Prop where
  | visit {rest : List NodeId} {x : NodeId} {state state' : σ} {enter : Bool}
      (hvisit : (visitor x).run state = (enter, state')) :
      Round s visitor (rest ++ [x], state) x
        (rest ++ (if enter then (s.children x).reverse else []), state')

/-- Rounds of the loop up to the empty stack, with the nodes that they visit and the last state
of the visitor. -/
inductive Loops (s : Store) (visitor : NodeId → StateM σ Bool) :
    List NodeId × σ → List NodeId → σ → Prop where
  | done (state : σ) : Loops s visitor ([], state) [] state
  | round {p q : List NodeId × σ} {x : NodeId} {visited : List NodeId} {final : σ}
      (hround : s.Round visitor p x q) (hrest : Loops s visitor q visited final) :
      Loops s visitor p (x :: visited) final

/-- The walk through nodes in pre-order, with the nodes that it visits and the last state of
the visitor. A node is visited, then comes the walk through its children if it is entered, and
then the walk through the other nodes. -/
inductive Walks (s : Store) (visitor : NodeId → StateM σ Bool) :
    List NodeId → σ → List NodeId → σ → Prop where
  | nil (state : σ) : Walks s visitor [] state [] state
  | cons {x : NodeId} {rest below after : List NodeId} {enter : Bool}
      {state state₁ state₂ final : σ}
      (hvisit : (visitor x).run state = (enter, state₁))
      (hbelow : Walks s visitor (if enter then s.children x else []) state₁ below state₂)
      (hrest : Walks s visitor rest state₂ after final) :
      Walks s visitor (x :: rest) state (x :: (below ++ after)) final

variable {s : Store} {visitor : NodeId → StateM σ Bool} {p q q' : List NodeId × σ}
  {x x' : NodeId} {xs ys visited visited' : List NodeId} {state state' final final' : σ}

namespace Walks

theorem append (h : s.Walks visitor xs state visited state')
    (h' : s.Walks visitor ys state' visited' final) :
    s.Walks visitor (xs ++ ys) state (visited ++ visited') final := by
  induction h with
  | nil => exact h'
  | cons hvisit hbelow _ _ ih =>
      rw [List.cons_append, List.cons_append, List.append_assoc]
      exact .cons hvisit hbelow (ih h')

theorem of_append (h : s.Walks visitor (xs ++ ys) state visited final) :
    ∃ first rest mid, visited = first ++ rest ∧ s.Walks visitor xs state first mid ∧
      s.Walks visitor ys mid rest final := by
  induction xs generalizing state visited with
  | nil => exact ⟨[], visited, state, rfl, .nil state, h⟩
  | cons x xs ih =>
      cases h with
      | cons hvisit hbelow hrest =>
          obtain ⟨first, rest, mid, rfl, hfirst, hys⟩ := ih hrest
          exact ⟨_, rest, mid, by rw [List.cons_append, List.append_assoc],
            .cons hvisit hbelow hfirst, hys⟩

theorem unique (h : s.Walks visitor xs state visited final)
    (h' : s.Walks visitor xs state visited' final') : visited = visited' ∧ final = final' := by
  induction h generalizing visited' final' with
  | nil => cases h'; exact ⟨rfl, rfl⟩
  | cons hvisit _ _ ihbelow ihrest =>
      cases h' with
      | cons hvisit' hbelow' hrest' =>
          cases hvisit.symm.trans hvisit'
          obtain ⟨rfl, rfl⟩ := ihbelow hbelow'
          obtain ⟨rfl, rfl⟩ := ihrest hrest'
          exact ⟨rfl, rfl⟩

end Walks

/-- A round takes the first node off the walk that the stack stands for. -/
theorem Round.walks_iff (h : s.Round visitor p x q) :
    s.Walks visitor p.1.reverse p.2 visited final ↔
      ∃ rest, visited = x :: rest ∧ s.Walks visitor q.1.reverse q.2 rest final := by
  cases h with
  | @visit stack x state state' enter hvisit =>
      have hnext : (stack ++ if enter then (s.children x).reverse else []).reverse =
          (if enter then s.children x else []) ++ stack.reverse := by
        cases enter <;> simp
      rw [hnext, List.reverse_append, List.reverse_singleton, List.singleton_append]
      refine ⟨fun hwalk => ?_, ?_⟩
      · cases hwalk with
        | cons hvisit' hbelow hrest =>
            cases hvisit.symm.trans hvisit'
            exact ⟨_, rfl, hbelow.append hrest⟩
      · rintro ⟨rest, rfl, hwalk⟩
        obtain ⟨below, after, mid, rfl, hbelow, hafter⟩ := hwalk.of_append
        exact .cons hvisit hbelow hafter

/-- If there is something on the stack, then there is another round. -/
theorem exists_round (s : Store) (visitor : NodeId → StateM σ Bool) (rest : List NodeId)
    (x : NodeId) (state : σ) : ∃ q, s.Round visitor (rest ++ [x], state) x q :=
  ⟨_, .visit rfl⟩

theorem Round.unique (h : s.Round visitor p x q) (h' : s.Round visitor p x' q') :
    x = x' ∧ q = q' := by
  cases h with
  | visit hvisit =>
      generalize hp : (_, _) = p at h'
      cases h' with
      | visit hvisit' =>
          obtain ⟨hstack, rfl⟩ := Prod.mk.inj hp
          obtain ⟨rfl, hx⟩ := List.append_inj' hstack rfl
          obtain rfl := List.singleton_inj.1 hx
          cases hvisit.symm.trans hvisit'
          exact ⟨rfl, rfl⟩

/-- The loop makes the walk through its stack. -/
theorem loops_iff_walks :
    s.Loops visitor p visited final ↔ s.Walks visitor p.1.reverse p.2 visited final := by
  refine ⟨fun h => ?_, fun h => ?_⟩
  · induction h with
    | done state => exact .nil state
    | round hround _ ih => exact hround.walks_iff.2 ⟨_, rfl, ih⟩
  · -- There are as many rounds as there are nodes to visit.
    induction visited generalizing p with
    | nil =>
        obtain ⟨stack, state⟩ := p
        generalize hstack : stack.reverse = nodes at h
        cases h
        obtain rfl := List.reverse_eq_nil_iff.1 hstack
        exact .done _
    | cons x visited ih =>
        obtain ⟨stack, state⟩ := p
        rcases List.eq_nil_or_concat stack with rfl | ⟨rest, y, rfl⟩
        · cases h
        · rw [List.concat_eq_append] at h ⊢
          obtain ⟨q, hround⟩ := s.exists_round visitor rest y state
          obtain ⟨_, hvisited, hrest⟩ := hround.walks_iff.1 h
          obtain ⟨rfl, rfl⟩ := List.cons.inj hvisited
          exact .round hround (ih hrest)

/-- A loop that comes to an end has no other rounds than those, and so it terminates. -/
theorem Loops.acc (h : s.Loops visitor p visited final) :
    Acc (fun q p => ∃ x, s.Round visitor p x q) p := by
  induction h with
  | done state =>
      refine .intro _ fun q ⟨x, hround⟩ => ?_
      generalize hp : ([], state) = p at hround
      cases hround
      exact absurd (Prod.mk.inj hp).1 (by simp)
  | round hround _ ih =>
      refine .intro _ fun q' ⟨x', hround'⟩ => ?_
      obtain ⟨-, rfl⟩ := hround.unique hround'
      exact ih

/-! ## Walking through an unfolding -/

/-- A visitor with a record of the nodes that it visits. -/
def logging (visitor : NodeId → StateM σ Bool) (x : NodeId) : StateM (σ × List NodeId) Bool :=
  fun (state, log) =>
    let (enter, state') := (visitor x).run state
    (enter, state', log ++ [x])

theorem Walks.logging (h : s.Walks visitor xs state visited final) (log : List NodeId) :
    s.Walks (logging visitor) xs (state, log) visited (final, log ++ visited) := by
  induction h generalizing log with
  | nil state => rw [List.append_nil]; exact .nil _
  | @cons x _ _ _ enter state state₁ _ _ hvisit _ _ ihbelow ihrest =>
      have hlog : (Store.logging visitor x).run (state, log) = (enter, state₁, log ++ [x]) := by
        change (((visitor x).run state).1, ((visitor x).run state).2, log ++ [x]) = _
        rw [hvisit]
      rw [List.append_cons, ← List.append_assoc]
      exact .cons hlog (ihbelow _) (ihrest _)

/-- The visitor enters everything. -/
def Enters (visitor : NodeId → StateM σ Bool) : Prop := ∀ x state, ((visitor x).run state).1 = true

/-- The walk through these nodes is the walk through their unfoldings. -/
structure WalksAlong (s : Store) (visitor : NodeId → StateM σ Bool) (ts : List (Tree NodeId))
    (state : σ) (visited : List NodeId) (final : σ) : Prop where
  walks : s.Walks visitor (ts.map Tree.label) state visited final
  run : (ts.forM (Tree.walk visitor)).run state = ((), final)
  /-- If everything is entered, then everything is visited. -/
  complete : Enters visitor → visited = ts.flatMap (Tree.reached fun _ => true)

namespace WalksAlong

variable {ts us : List (Tree NodeId)}

theorem append (h : s.WalksAlong visitor ts state visited state')
    (h' : s.WalksAlong visitor us state' visited' final) :
    s.WalksAlong visitor (ts ++ us) state (visited ++ visited') final where
  walks := by
    rw [List.map_append]
    exact h.walks.append h'.walks
  run := by
    have hrun := h.run
    rw [List.forM_eq_forM] at hrun ⊢
    rw [List.forM_append, StateT.run_bind, hrun]
    exact h'.run
  complete henters := by rw [List.flatMap_append, ← h.complete henters, ← h'.complete henters]

theorem exists_of_forall (h : ∀ t ∈ ts, ∀ state, ∃ visited final,
    s.WalksAlong visitor [t] state visited final) (state : σ) :
    ∃ visited final, s.WalksAlong visitor ts state visited final := by
  induction ts generalizing state with
  | nil => exact ⟨[], state, .nil state, rfl, fun _ => rfl⟩
  | cons t ts ih =>
      obtain ⟨first, mid, hfirst⟩ := h t List.mem_cons_self state
      obtain ⟨rest, final, hrest⟩ := ih (fun u hu => h u (List.mem_cons_of_mem t hu)) mid
      exact ⟨first ++ rest, final, hfirst.append hrest⟩

/-- The walk through what is below a node that is visited is the rest of the walk through
the node. -/
theorem node {id : NodeId} {k : Kind} {vs : List (Value (Tree NodeId))} {enter : Bool}
    (hs : s.Unfolds (.node id k vs)) (hvisit : (visitor id).run state = (enter, state'))
    (h : s.WalksAlong visitor (if enter then vs.flatMap Value.children else []) state' visited
      final) :
    s.WalksAlong visitor [.node id k vs] state (id :: visited) final where
  walks := by
    have hbelow := h.walks
    rw [apply_ite (List.map Tree.label), ← hs.children_eq, List.map_nil] at hbelow
    have hwalk := Walks.cons hvisit hbelow (.nil final)
    rwa [List.append_nil] at hwalk
  run := by
    have hrun := h.run
    rw [List.forM_eq_forM, List.forM_cons, StateT.run_bind, Tree.walk_node, StateT.run_bind, hvisit]
    cases enter with
    | false => exact hrun
    | true =>
        change (StateT.run ((vs.flatMap Value.children).forM (Tree.walk visitor)) state' >>= _) = _
        rw [if_pos rfl] at hrun
        rw [hrun]
        rfl
  complete henters := by
    have henter := henters id state
    rw [hvisit] at henter
    obtain rfl : enter = true := henter
    rw [List.flatMap_singleton, Tree.reached_node, h.complete henters, if_pos rfl, if_pos rfl]

end WalksAlong

/-- There is a walk through every unfolding. -/
theorem exists_walksAlong (visitor : NodeId → StateM σ Bool) {t : Tree NodeId} (ht : s.Unfolds t)
    (state : σ) : ∃ visited final, s.WalksAlong visitor [t] state visited final := by
  induction t using Tree.induct generalizing state with
  | step id k vs ih =>
      rcases hvisit : (visitor id).run state with ⟨enter, state'⟩
      have hbelow : ∀ t ∈ (if enter then vs.flatMap Value.children else []), ∀ state,
          ∃ visited final, s.WalksAlong visitor [t] state visited final := by
        intro t htmem
        cases enter with
        | false => cases htmem
        | true =>
            obtain ⟨v, hv, htv⟩ := List.mem_flatMap.1 htmem
            exact ih v hv t htv (ht.child v hv t htv)
      obtain ⟨visited, final, h⟩ := WalksAlong.exists_of_forall hbelow state'
      exact ⟨id :: visited, final, .node ht hvisit h⟩

theorem WalksAlong.visit {t : Tree NodeId} {id : NodeId} (ht : s.unfolding? id = some t)
    (h : s.WalksAlong visitor [t] state visited final) : s.visit visitor id state = .ok final := by
  rw [visit_of_unfolding? ht]
  exact congrArg (fun result => Except.ok result.2) h.run

end Store

theorem Tree.total_eq_sum (ns : List Nat) : total ns = ns.sum := by
  induction ns with
  | nil => rfl
  | cons n ns ih => rw [total, ih, List.sum_cons]

/-- As many labels are reached as there are nodes. -/
theorem Tree.length_reached {α : Type} (t : Tree α) :
    (t.reached fun _ => true).length = t.size := by
  induction t using induct with
  | step l k vs ih =>
      rw [reached_node, if_pos rfl, List.length_cons, size_node, List.length_flatMap, total_eq_sum]
      refine congrArg (fun sizes => List.sum sizes + 1) (List.map_congr_left fun t ht => ?_)
      obtain ⟨v, hv, htv⟩ := List.mem_flatMap.1 ht
      exact ih v hv t htv

/-- Visiting a node of a store without cycles ends in the state in which the walk in pre-order
ends, and visits the same nodes in the same order, an instance as often as the walk comes to
it. The same holds of the loop with the stack: it terminates, and no other run of it comes to
an end. If everything is entered, then the visit is to all nodes of the unfolding. -/
theorem visit_follows_preorder {s : Store} (hclosed : s.Closed) (hacyclic : s.Acyclic) {id : NodeId}
    {n : Node} (hn : s.node? id = some n) (visitor : NodeId → StateM σ Bool) (state : σ) :
    ∃ t visited final, s.unfolding? id = some t ∧
      s.visit visitor id state = .ok final ∧
      s.visit (Store.logging visitor) id (state, []) = .ok (final, visited) ∧
      (∀ visited' final', s.Walks visitor [id] state visited' final' ↔
        visited' = visited ∧ final' = final) ∧
      (∀ visited' final', s.Loops visitor ([id], state) visited' final' ↔
        visited' = visited ∧ final' = final) ∧
      Acc (fun q p => ∃ x, s.Round visitor p x q) ([id], state) ∧
      ((∀ x state, ((visitor x).run state).1 = true) →
        visited = (t.reached fun _ => true) ∧ visited.length = t.size) := by
  obtain ⟨t, ht⟩ := (hclosed.grounded hacyclic hn).exists_unfolding?
  have hunfolds := Store.unfolds_of_unfolding? ht
  obtain ⟨visited, final, h⟩ := Store.exists_walksAlong visitor hunfolds state
  obtain ⟨visited', final', h'⟩ :=
    Store.exists_walksAlong (Store.logging visitor) hunfolds (state, [])
  obtain ⟨rfl, rfl⟩ := (h.walks.logging []).unique h'.walks
  obtain rfl := Store.label_of_unfolding? ht
  have hwalks (visited' : List NodeId) (final' : σ) :
      s.Walks visitor [t.label] state visited' final' ↔ visited' = visited ∧ final' = final :=
    ⟨fun hwalk => hwalk.unique h.walks, fun ⟨hvisited, hfinal⟩ => hvisited ▸ hfinal ▸ h.walks⟩
  have hloops := Store.loops_iff_walks (p := ([t.label], state)).2 h.walks
  refine ⟨t, visited, final, ht, h.visit ht, h'.visit ht, hwalks, fun visited' final' => ?_,
    hloops.acc, fun henters => ?_⟩
  · rw [Store.loops_iff_walks, ← hwalks]
    rfl
  · have hvisited := h.complete henters
    rw [List.flatMap_singleton] at hvisited
    exact ⟨hvisited, hvisited ▸ t.length_reached⟩

/-- The two arguments of `f(1,1)` are one instance, which is visited twice. -/
theorem visit_follows_preorder_sharedTerm :
    Store.sharedTerm.Closed ∧ Store.sharedTerm.Acyclic ∧
      let counting : NodeId → StateM Nat Bool := fun _ count => (true, count + 1)
      ∃ final, Store.sharedTerm.visit counting ⟨1⟩ 0 = .ok final ∧
        Store.sharedTerm.visit (Store.logging counting) ⟨1⟩ (0, []) =
          .ok (final, [⟨1⟩, ⟨0⟩, ⟨0⟩]) ∧
        Store.sharedTerm.Walks counting [⟨1⟩] 0 [⟨1⟩, ⟨0⟩, ⟨0⟩] final ∧
        Store.sharedTerm.Loops counting ([⟨1⟩], 0) [⟨1⟩, ⟨0⟩, ⟨0⟩] final ∧
        Acc (fun q p => ∃ x, Store.sharedTerm.Round counting p x q) ([⟨1⟩], 0) := by
  have hs : Store.sharedTerm.WellFormed := .of_inOrder (by decide)
  refine ⟨hs.closed, hs.acyclic, ?_⟩
  intro counting
  have hn : Store.sharedTerm.node? ⟨1⟩ = some _ := rfl
  obtain ⟨t, visited, final, ht, hvisit, hlogged, hwalks, hloops, hacc, hcomplete⟩ :=
    visit_follows_preorder hs.closed hs.acyclic hn counting 0
  have hreached : ∀ t ∈ Store.sharedTerm.unfolding? ⟨1⟩,
      (t.reached fun _ => true) = [⟨1⟩, ⟨0⟩, ⟨0⟩] := by decide
  obtain rfl := (hcomplete fun _ _ => rfl).1.trans (hreached t ht)
  exact ⟨final, hvisit, hlogged, (hwalks _ _).2 ⟨rfl, rfl⟩, (hloops _ _).2 ⟨rfl, rfl⟩, hacc⟩

end AnswerSet
