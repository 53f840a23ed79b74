import AnswerSet.Store.Plant

/-!
# Copy-on-write transformation

A transformation leaves every instance as it is. A node is rebuilt only if one of its
children was replaced by another instance; otherwise its own identity is the
answer, so what was not touched stays shared between the old and the new tree.

The caller supplies an action on nodes. It may read and write the store, keep a state of its
own and fail; the first failure ends the transformation and keeps both states. It need not come
back, either.
-/

namespace AnswerSet

/-- Actions over a store with a state of the caller. They may fail, and they need not come
back. -/
abbrev EditM (σ ε : Type) := ExceptT ε (StateT σ (StateT Store Option))

namespace EditM

variable {σ ε α β : Type}

/-- The store at present. -/
def store : EditM σ ε Store := (get : StateT Store Option Store)

/-- Runs an operation on the store and fails if it does. -/
def ofRun (operation : RunM α) : EditM σ Error α := ExceptT.mk (liftM operation.run)

/-- Runs an operation on the store; a failure is an answer like any other. -/
def attempt (operation : RunM α) : EditM σ ε (Except Error α) := liftM operation.run

/-- Runs an action with both states; the answer is followed by the states after it. -/
def exec (action : EditM σ ε α) (state : σ) (s : Store) : Option (Except ε α × σ × Store) := do
  let ((answer, state), s) ← ((action.run).run state).run s
  return (answer, state, s)

theorem exec_eq (action : EditM σ ε α) (state : σ) (s : Store) :
    action.exec state s =
      (action state s).map fun result => (result.1.1, result.1.2, result.2) := by
  rw [Option.map_eq_bind]
  rfl

@[simp] theorem exec_pure (a : α) (state : σ) (s : Store) :
    (pure a : EditM σ ε α).exec state s = some (.ok a, state, s) := rfl

theorem exec_bind (x : EditM σ ε α) (f : α → EditM σ ε β) (state : σ) (s : Store) :
    (x >>= f).exec state s =
      match x.exec state s with
      | some (.ok a, state', s') => (f a).exec state' s'
      | some (.error e, state', s') => some (.error e, state', s')
      | none => none := by
  unfold exec
  rw [ExceptT.run_bind, StateT.run_bind, StateT.run_bind]
  rcases (x.run.run state).run s with _ | ⟨⟨answer, state'⟩, s'⟩
  · rfl
  · cases answer <;> rfl

theorem exec_tryCatch (x : EditM σ ε α) (handler : ε → EditM σ ε α) (state : σ) (s : Store) :
    (tryCatch x handler).exec state s =
      match x.exec state s with
      | some (.ok a, state', s') => some (.ok a, state', s')
      | some (.error e, state', s') => (handler e).exec state' s'
      | none => none := by
  unfold exec
  rw [ExceptT.run_tryCatch, StateT.run_bind, StateT.run_bind]
  rcases (x.run.run state).run s with _ | ⟨⟨answer, state'⟩, s'⟩
  · rfl
  · cases answer <;> rfl

theorem exec_store_bind (f : Store → EditM σ ε α) (state : σ) (s : Store) :
    (store >>= f).exec state s = (f s).exec state s := by
  rw [exec_bind]
  rfl

theorem exec_lift (x : StateM Store α) (state : σ) (s : Store) :
    (liftM x : EditM σ ε α).exec state s = some (.ok (x.run s).1, state, (x.run s).2) :=
  rfl

theorem exec_attempt (operation : RunM α) (state : σ) (s : Store) :
    (attempt operation : EditM σ ε (Except Error α)).exec state s =
      (operation.exec s).map fun result => (.ok result.1, state, result.2) := by
  have hrun : (attempt operation : EditM σ ε (Except Error α)) state s =
      ((operation.exec s).bind fun result => some ((result.1, state), result.2)).bind
        fun result => some ((Except.ok result.1.1, result.1.2), result.2) := rfl
  rw [exec_eq, hrun]
  cases operation.exec s <;> rfl

theorem exec_ofRun (operation : RunM α) (state : σ) (s : Store) :
    (ofRun operation).exec state s =
      (operation.exec s).map fun result => (result.1, state, result.2) := by
  have hrun : ofRun operation state s =
      (operation.exec s).bind fun result => some ((result.1, state), result.2) := rfl
  rw [exec_eq, hrun]
  cases operation.exec s <;> rfl

end EditM

variable {σ ε : Type}

/-- The node itself if its values are as before, else a new node with the new
values. -/
def rebuild (id : NodeId) (kind : Kind) (before after : List (Value NodeId)) :
    EditM σ ε NodeId :=
  if after = before then return id else Store.alloc ⟨kind, after⟩

/-- Applies an action to every child of a node, from left to right. -/
def transformChildren (f : NodeId → EditM σ ε NodeId) (id : NodeId) : EditM σ ε NodeId := do
  match (← EditM.store).node? id with
  | some n =>
      let values ← n.values.mapM (Value.mapM f)
      rebuild id n.kind n.values values
  | none => return id

end AnswerSet
