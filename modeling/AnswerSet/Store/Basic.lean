import AnswerSet.Schema.Check

/-!
# Stores

A store holds the instances of nodes. Nodes refer to each other by identity, so
one instance can be a child of several others, and a change to it is seen through
all of them. Instances are never removed; an instance that is allocated gets the
next free identity.

Operations work on the store in place. One that fails leaves the store as it was at that
point, with whatever it has written before.
-/

namespace AnswerSet

/-- The identity of an instance. -/
structure NodeId where
  index : Nat
  deriving DecidableEq, Repr

/-- An instance: its kind, which never changes, and its values in schema order. -/
structure Node where
  kind : Kind
  values : List (Value NodeId)
  deriving DecidableEq

/-- All instances, the oldest first. -/
structure Store where
  nodes : Array Node
  deriving DecidableEq

namespace Node

/-- The value of an attribute. -/
def get (n : Node) (a : Attr) : Except Error (Value NodeId) :=
  match n.kind.valueOf? n.values a with
  | some v => .ok v
  | none => .error (.unknownAttribute n.kind a)

/-- Replaces the value of one attribute. -/
def set (n : Node) (a : Attr) (v : Value NodeId) : Except Error Node := do
  return { n with values := ← n.kind.assign n.values a v }

/-- Puts another value into the slot of an attribute, without a check. -/
def overwrite (n : Node) (a : Attr) (v : Value NodeId) : Node :=
  match n.kind.slotIndex? a with
  | some i => { n with values := n.values.set i v }
  | none => n

/-- Replaces the values of attributes one after the other. -/
def setAll (n : Node) : List (Attr × Value NodeId) → Except Error Node
  | [] => .ok n
  | (a, v) :: rest => do (← n.set a v).setAll rest

/-- The direct children in schema order. -/
def children (n : Node) : List NodeId := n.values.flatMap Value.children

/-- The attributes with their values in schema order. -/
def items (n : Node) : List (Attr × Value NodeId) := n.kind.attrs.zip n.values

/-- The location of the node, if it has one. -/
def location? (n : Node) : Option Location := n.values.findSome? Value.location?

end Node

namespace Store

/-- The store without instances. -/
def empty : Store := ⟨#[]⟩

instance : Inhabited Store := ⟨empty⟩

/-- The number of instances. -/
def size (s : Store) : Nat := s.nodes.size

/-- The instance with an identity. -/
def node? (s : Store) (id : NodeId) : Option Node := s.nodes[id.index]?

/-- The instance with an identity, or an error. -/
def fetch (s : Store) (id : NodeId) : Except Error Node :=
  match s.node? id with
  | some n => .ok n
  | none => .error (.invalidNode .absent)

/-- Adds an instance. -/
def alloc (n : Node) : StateM Store NodeId := fun s =>
  (⟨s.size⟩, ⟨s.nodes.push n⟩)

/-- Replaces an instance. -/
def put (s : Store) (id : NodeId) (n : Node) : Store :=
  ⟨s.nodes.setIfInBounds id.index n⟩

/-- The value of an attribute. -/
def get (s : Store) (id : NodeId) (a : Attr) : Except Error (Value NodeId) := do
  (← s.fetch id).get a

/-- The direct children of an instance in schema order. -/
def children (s : Store) (id : NodeId) : List NodeId :=
  (s.node? id).elim [] Node.children

theorem node?_alloc_self (s : Store) (n : Node) :
    ((alloc n).run s).2.node? ((alloc n).run s).1 = some n := by
  simp [alloc, node?, size, StateT.run]

theorem node?_alloc_of_some {s : Store} {id : NodeId} {m : Node} (n : Node)
    (h : s.node? id = some m) : ((alloc n).run s).2.node? id = some m := by
  have hlt : id.index < s.nodes.size := (Array.getElem?_eq_some_iff.1 h).1
  simp only [node?, alloc, StateT.run] at h ⊢
  rw [Array.getElem?_push_lt hlt, ← h, Array.getElem?_eq_getElem hlt]

end Store

/-! ## Operations -/

/-- Operations on the store. What one of them has written stays written, also if it fails
afterwards. -/
abbrev StoreM := ExceptT Error (StateM Store)

/-- Operations that need not come back. -/
abbrev RunM := ExceptT Error (StateT Store Option)

instance : MonadLift (StateM Store) (StateT Store Option) := ⟨fun x s => some (x.run s)⟩

instance : MonadLift StoreM RunM := ⟨fun x s => some (x.run.run s)⟩

namespace StoreM

variable {α β : Type}

/-- Runs an operation; the answer or the error is followed by the store after it. -/
def exec (operation : StoreM α) (s : Store) : Except Error α × Store := operation.run.run s

/-- The answer of an operation with the store after it, or its error alone. -/
def outcome (operation : StoreM α) (s : Store) : Except Error (α × Store) :=
  match operation.exec s with
  | (.ok answer, s') => .ok (answer, s')
  | (.error e, _) => .error e

/-- The instance with an identity. -/
def fetch (id : NodeId) : StoreM Node := do (← get).fetch id

/-- Adds a node with the given values after checking them against the schema. -/
def create (k : Kind) (values : List (Value NodeId)) : StoreM NodeId := do
  k.check values
  Store.alloc ⟨k, values⟩

/-- Writes an attribute of an instance. -/
def set (id : NodeId) (a : Attr) (v : Value NodeId) : StoreM Unit := do
  let n ← (← fetch id).set a v
  modify fun s => s.put id n

/-- Adds a copy of an instance with some attributes changed. The copy has the same
children where they are not changed. -/
def update (id : NodeId) (changes : List (Attr × Value NodeId)) : StoreM NodeId := do
  Store.alloc (← (← fetch id).setAll changes)

theorem exec_bind (x : StoreM α) (f : α → StoreM β) (s : Store) :
    (x >>= f).exec s =
      match x.exec s with
      | (.ok answer, s') => (f answer).exec s'
      | (.error e, s') => (.error e, s') := by
  unfold exec
  rw [ExceptT.run_bind, StateT.run_bind]
  rcases x.run.run s with ⟨answer, s'⟩
  cases answer <;> rfl

theorem exec_lift (result : Except Error α) (s : Store) :
    (liftM result : StoreM α).exec s = (result, s) := rfl

theorem exec_fetch (id : NodeId) (s : Store) : (fetch id).exec s = (s.fetch id, s) := rfl

theorem outcome_bind (x : StoreM α) (f : α → StoreM β) (s : Store) :
    (x >>= f).outcome s = x.outcome s >>= fun result => (f result.1).outcome result.2 := by
  unfold outcome
  rw [exec_bind]
  rcases x.exec s with ⟨answer, s'⟩
  cases answer <;> rfl

theorem outcome_lift (result : Except Error α) (s : Store) :
    (liftM result : StoreM α).outcome s = result.map fun answer => (answer, s) := by
  cases result <;> rfl

theorem outcome_fetch (id : NodeId) (s : Store) :
    (fetch id).outcome s = (s.fetch id).map fun n => (n, s) := by
  rw [outcome, exec_fetch]
  cases s.fetch id <;> rfl

end StoreM

namespace RunM

variable {α β : Type}

/-- Runs an operation; the answer or the error is followed by the store after it. -/
def exec (operation : RunM α) (s : Store) : Option (Except Error α × Store) := operation.run.run s

/-- The answer of an operation with the store after it, or why there is none. -/
def outcome (operation : RunM α) (s : Store) : Except Stop (α × Store) :=
  match operation.exec s with
  | some (.ok answer, s') => .ok (answer, s')
  | some (.error e, _) => .error (.failed e)
  | none => .error .endless

theorem exec_lift (operation : StoreM α) (s : Store) :
    (liftM operation : RunM α).exec s = some (operation.exec s) := rfl

end RunM

namespace Store

variable (s : Store) (id : NodeId)

/-- What comes of adding a node. -/
def create (k : Kind) (values : List (Value NodeId)) : Except Error (NodeId × Store) :=
  (StoreM.create k values).outcome s

/-- What comes of writing an attribute. -/
def set (a : Attr) (v : Value NodeId) : Except Error Store := do
  return (← (StoreM.set id a v).outcome s).2

/-- What comes of adding a changed copy. -/
def update (changes : List (Attr × Value NodeId)) : Except Error (NodeId × Store) :=
  (StoreM.update id changes).outcome s

theorem create_eq (k : Kind) (values : List (Value NodeId)) :
    s.create k values = do
      k.check values
      return (alloc ⟨k, values⟩).run s := by
  rw [create, StoreM.create, StoreM.outcome_bind, StoreM.outcome_lift]
  cases k.check values <;> rfl

theorem set_eq (a : Attr) (v : Value NodeId) :
    s.set id a v = do return s.put id (← (← s.fetch id).set a v) := by
  rw [set, StoreM.set, StoreM.outcome_bind, StoreM.outcome_fetch]
  cases s.fetch id with
  | error e => rfl
  | ok n =>
      change ((liftM (n.set a v) >>= fun m => modify fun s => s.put id m :
        StoreM Unit).outcome s >>= fun result => pure result.2) =
          n.set a v >>= fun m => pure (s.put id m)
      rw [StoreM.outcome_bind, StoreM.outcome_lift]
      cases n.set a v <;> rfl

theorem update_eq (changes : List (Attr × Value NodeId)) :
    s.update id changes = do return (alloc (← (← s.fetch id).setAll changes)).run s := by
  rw [update, StoreM.update, StoreM.outcome_bind, StoreM.outcome_fetch]
  cases s.fetch id with
  | error e => rfl
  | ok n =>
      change (liftM (n.setAll changes) >>= fun m => liftM (alloc m) : StoreM NodeId).outcome s =
        n.setAll changes >>= fun m => pure ((alloc m).run s)
      rw [StoreM.outcome_bind, StoreM.outcome_lift]
      cases n.setAll changes <;> rfl

end Store

end AnswerSet
