import AnswerSet.Proofs.Store.Unfold
import AnswerSet.Visit

/-!
# Visits

A visit of a node that has an unfolding walks through the unfolding by recursion, whatever the
visitor remembers and answers: what is on the stack is still to be walked through. A visitor
that notes down what it is asked about finds the labels of a tree from the root on, without
those below the places that it does not enter.
-/

namespace AnswerSet

namespace Tree

variable {α β σ : Type}

/-! ## The stack and the recursion -/

/-- Walks through a tree by recursion, without what is below the places that the visitor does
not enter. -/
def walk (visitor : α → StateM σ Bool) : Tree α → StateM σ Unit :=
  fold fun l _ values => do
    if ← visitor l then (values.flatMap Value.children).forM fun child => child
    else pure ()

theorem size_node (l : α) (k : Kind) (vs : List (Value (Tree α))) :
    (node l k vs).size = total ((vs.flatMap Value.children).map size) + 1 := by
  rw [size, fold_node]
  simp only [List.flatMap_map, Value.children_map, List.map_flatMap]

/-- One walk through the children after the other is one walk through all of them. -/
theorem forM_children {walk : Tree α → StateM σ Unit} (vs : List (Value (Tree α))) :
    (((vs.map fun v => v.map walk).flatMap Value.children).forM fun child => child) =
      (vs.flatMap Value.children).forM walk := by
  simp only [List.flatMap_map, Value.children_map, ← List.map_flatMap]
  induction vs.flatMap Value.children with
  | nil => rfl
  | cons t ts ih =>
      simp only [List.map_cons, List.forM_eq_forM, List.forM_cons] at ih ⊢
      rw [ih]

theorem walk_node (visitor : α → StateM σ Bool) (l : α) (k : Kind) (vs : List (Value (Tree α))) :
    (node l k vs).walk visitor = visitor l >>= fun enter =>
      if enter then (vs.flatMap Value.children).forM (walk visitor) else pure () := by
  rw [walk, fold_node, forM_children]

/-! ## What is visited -/

/-- The labels from the root on, parents before their children, without those below the
places that are not entered. -/
def reached (enter : α → Bool) : Tree α → List α :=
  fold fun l _ vs => l :: if enter l then (vs.flatMap Value.children).flatten else []

theorem reached_node (enter : α → Bool) (l : α) (k : Kind) (vs : List (Value (Tree α))) :
    (node l k vs).reached enter =
      l :: if enter l then (vs.flatMap Value.children).flatMap (reached enter) else [] := by
  rw [reached, fold_node]
  simp only [List.flatMap_map, Value.children_map, ← List.map_flatMap]
  rfl

theorem reached_map (f : α → β) (enter : β → Bool) (t : Tree α) :
    (t.map f).reached enter = (t.reached fun l => enter (f l)).map f := by
  induction t using induct with
  | step l k vs ih =>
      rw [map_node, reached_node, reached_node, List.map_cons]
      congr 1
      split
      · simp only [List.flatMap_map, Value.children_map, ← List.map_flatMap]
        rw [List.map_flatMap]
        refine List.flatMap_congr fun t ht => ?_
        obtain ⟨v, hv, htv⟩ := List.mem_flatMap.1 ht
        exact ih v hv t htv
      · rfl

/-- Only the answers for what is reached matter. -/
theorem reached_congr {enter enter' : α → Bool} {t : Tree α}
    (h : ∀ l ∈ t.reached enter, enter' l = enter l) : t.reached enter' = t.reached enter := by
  induction t using induct with
  | step l k vs ih =>
      rw [reached_node] at h ⊢
      rw [reached_node, h l List.mem_cons_self]
      congr 1
      split
      · rename_i hl
        rw [if_pos hl] at h
        refine List.flatMap_congr fun t ht => ?_
        obtain ⟨v, hv, htv⟩ := List.mem_flatMap.1 ht
        refine ih v hv t htv fun x hx => h x (List.mem_cons_of_mem l ?_)
        exact List.mem_flatMap.2 ⟨t, ht, hx⟩
      · rfl

/-- A visitor that notes down what it is asked about. -/
def noting (enter : α → Bool) (l : α) : StateM (List α) Bool := do
  modify fun log => log ++ [l]
  return enter l

/-- Walks that each add to the log add to it in turn. -/
theorem run_forM_of_append {walk : Tree α → StateM (List β) Unit} {added : Tree α → List β}
    {ts : List (Tree α)} (h : ∀ t ∈ ts, ∀ log, (walk t).run log = ((), log ++ added t))
    (log : List β) : (ts.forM walk).run log = ((), log ++ ts.flatMap added) := by
  rw [List.forM_eq_forM]
  induction ts generalizing log with
  | nil => rw [List.flatMap_nil, List.append_nil]; rfl
  | cons t ts ih =>
      rw [List.forM_cons, StateT.run_bind, h t List.mem_cons_self, List.flatMap_cons,
        ← List.append_assoc]
      exact ih (fun u hu => h u (List.mem_cons_of_mem t hu)) _

theorem run_walk_noting (enter : α → Bool) (t : Tree α) (log : List α) :
    (t.walk (noting enter)).run log = ((), log ++ t.reached enter) := by
  induction t using induct generalizing log with
  | step l k vs ih =>
      rw [walk_node, reached_node, StateT.run_bind]
      change StateT.run (if enter l then _ else _) (log ++ [l]) = _
      split
      · have hchildren : ∀ t ∈ vs.flatMap Value.children, ∀ log,
            (t.walk (noting enter)).run log = ((), log ++ t.reached enter) := by
          intro t ht
          obtain ⟨v, hv, htv⟩ := List.mem_flatMap.1 ht
          exact ih v hv t htv
        rw [run_forM_of_append hchildren, List.append_assoc]
        rfl
      · rfl

end Tree

namespace Store

variable {σ : Type} {s : Store} {visitor : NodeId → StateM σ Bool}

/-- Taking trees off the stack one after the other is walking through them, if that is so for
each of them. -/
theorem visitAll_append {ts : List (Tree NodeId)}
    (h : ∀ t ∈ ts, ∀ rest state, s.visitAll visitor (t.label :: rest) state =
      s.visitAll visitor rest ((t.walk visitor).run state).2) (rest : List NodeId) (state : σ) :
    s.visitAll visitor (ts.map Tree.label ++ rest) state =
      s.visitAll visitor rest ((ts.forM (Tree.walk visitor)).run state).2 := by
  rw [List.forM_eq_forM]
  induction ts generalizing state with
  | nil => rfl
  | cons t ts ih =>
      rw [List.map_cons, List.cons_append, h t List.mem_cons_self, List.forM_cons]
      exact ih (fun u hu => h u (List.mem_cons_of_mem t hu)) _

/-- What is on the stack is still to be walked through. -/
theorem visitAll_cons {t : Tree NodeId} (ht : s.Unfolds t) (rest : List NodeId) (state : σ) :
    s.visitAll visitor (t.label :: rest) state =
      s.visitAll visitor rest ((t.walk visitor).run state).2 := by
  induction t using Tree.induct generalizing rest state with
  | step id k vs ih =>
      rw [visitAll, Tree.label_node, Tree.walk_node, StateT.run_bind, ht.children_eq]
      rcases (visitor id).run state with ⟨_ | _, state'⟩
      · rfl
      · refine visitAll_append (fun t htmem rest state => ?_) rest state'
        obtain ⟨v, hv, htv⟩ := List.mem_flatMap.1 htmem
        exact ih v hv t htv (ht.child v hv t htv) rest state

theorem visit_of_unfolding? {id : NodeId} {t : Tree NodeId} (ht : s.unfolding? id = some t)
    (state : σ) : s.visit visitor id state = .ok ((t.walk visitor).run state).2 := by
  obtain rfl := label_of_unfolding? ht
  refine Stop.orEndless_eq_ok_iff.2 ?_
  rw [visitAll_cons (unfolds_of_unfolding? ht), visitAll]

/-- A visitor that notes down what it is asked about finds the labels that are reached. -/
theorem visit_noting {id : NodeId} {t : Tree NodeId} (ht : s.unfolding? id = some t)
    (enter : NodeId → Bool) : s.visit (Tree.noting enter) id [] = .ok (t.reached enter) := by
  rw [visit_of_unfolding? ht, Tree.run_walk_noting, List.nil_append]

end Store

end AnswerSet
