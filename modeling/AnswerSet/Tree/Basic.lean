import AnswerSet.Value

/-!
# Trees

A tree is a node together with everything below it. Every occurrence of a node
carries a label: trees read from a store are labelled with the identities of the
instances, plain trees with nothing.

Trees nest through lists and options inside values. `Tree.elim` is the one
recursion over them; its rule sees the values of a node with every child paired
with the answer for that child. `Tree.induct` is the matching induction.
-/

namespace AnswerSet

/-- A node with everything below it. -/
inductive Tree (α : Type) where
  | node (label : α) (kind : Kind) (values : List (Value (Tree α)))

namespace Tree

variable {α β : Type}

/-- The label of the root. -/
def label : Tree α → α
  | .node label _ _ => label

/-- The kind of the root. -/
def kind : Tree α → Kind
  | .node _ kind _ => kind

/-- The values of the root. -/
def values : Tree α → List (Value (Tree α))
  | .node _ _ values => values

/-- The direct subtrees in schema order. -/
def children (t : Tree α) : List (Tree α) := t.values.flatMap Value.children

@[simp] theorem label_node (l : α) (k : Kind) (vs : List (Value (Tree α))) :
    (node l k vs).label = l := rfl

@[simp] theorem kind_node (l : α) (k : Kind) (vs : List (Value (Tree α))) :
    (node l k vs).kind = k := rfl

@[simp] theorem values_node (l : α) (k : Kind) (vs : List (Value (Tree α))) :
    (node l k vs).values = vs := rfl

mutual

/-- Recursion over a tree. -/
def elim (rule : α → Kind → List (Value (Tree α × β)) → β) : Tree α → β
  | .node label kind values => rule label kind (elimValues rule values)

/-- The values of a node with the answers for their children. -/
def elimValues (rule : α → Kind → List (Value (Tree α × β)) → β) :
    List (Value (Tree α)) → List (Value (Tree α × β))
  | [] => []
  | v :: vs => elimValue rule v :: elimValues rule vs

/-- A value with the answers for its children. -/
def elimValue (rule : α → Kind → List (Value (Tree α × β)) → β) :
    Value (Tree α) → Value (Tree α × β)
  | .int n => .int n
  | .symbol s => .symbol s
  | .location l => .location l
  | .text s => .text s
  | .node t => .node (t, elim rule t)
  | .optional none => .optional none
  | .optional (some t) => .optional (some (t, elim rule t))
  | .texts items => .texts items
  | .nodes ts => .nodes (elimAll rule ts)

/-- Trees with their answers. -/
def elimAll (rule : α → Kind → List (Value (Tree α × β)) → β) :
    List (Tree α) → List (Tree α × β)
  | [] => []
  | t :: ts => (t, elim rule t) :: elimAll rule ts

end

section Elim

variable (rule : α → Kind → List (Value (Tree α × β)) → β)

theorem elimAll_eq_map (ts : List (Tree α)) :
    elimAll rule ts = ts.map fun t => (t, elim rule t) := by
  induction ts with
  | nil => rfl
  | cons t ts ih => rw [elimAll, ih]; rfl

theorem elimValue_eq_map (v : Value (Tree α)) :
    elimValue rule v = v.map fun t => (t, elim rule t) := by
  cases v with
  | optional child => cases child <;> rfl
  | nodes ts => rw [elimValue, elimAll_eq_map]; rfl
  | _ => rfl

theorem elimValues_eq_map (vs : List (Value (Tree α))) :
    elimValues rule vs = vs.map fun v => v.map fun t => (t, elim rule t) := by
  induction vs with
  | nil => rfl
  | cons v vs ih => rw [elimValues, elimValue_eq_map, ih]; rfl

theorem elim_node (l : α) (k : Kind) (vs : List (Value (Tree α))) :
    elim rule (.node l k vs) =
      rule l k (vs.map fun v => v.map fun t => (t, elim rule t)) := by
  rw [elim, elimValues_eq_map]

end Elim

mutual

/-- Induction over a tree: a property of all children of a node carries over to
the node. -/
theorem induct {motive : Tree α → Prop}
    (step : ∀ l k vs, (∀ v ∈ vs, ∀ t ∈ v.children, motive t) → motive (.node l k vs)) :
    (t : Tree α) → motive t
  | .node l k vs => step l k vs (inductValues step vs)

theorem inductValues {motive : Tree α → Prop}
    (step : ∀ l k vs, (∀ v ∈ vs, ∀ t ∈ v.children, motive t) → motive (.node l k vs)) :
    (vs : List (Value (Tree α))) → ∀ v ∈ vs, ∀ t ∈ v.children, motive t
  | [] => by simp
  | v :: vs => List.forall_mem_cons.2 ⟨inductValue step v, inductValues step vs⟩

theorem inductValue {motive : Tree α → Prop}
    (step : ∀ l k vs, (∀ v ∈ vs, ∀ t ∈ v.children, motive t) → motive (.node l k vs)) :
    (v : Value (Tree α)) → ∀ t ∈ v.children, motive t
  | .int _ | .symbol _ | .location _ | .text _ | .texts _ | .optional none => by
      simp [Value.children]
  | .node t => List.forall_mem_cons.2 ⟨induct step t, by simp⟩
  | .optional (some t) => List.forall_mem_cons.2 ⟨induct step t, by simp⟩
  | .nodes ts => inductAll step ts

theorem inductAll {motive : Tree α → Prop}
    (step : ∀ l k vs, (∀ v ∈ vs, ∀ t ∈ v.children, motive t) → motive (.node l k vs)) :
    (ts : List (Tree α)) → ∀ t ∈ ts, motive t
  | [] => by simp
  | t :: ts => List.forall_mem_cons.2 ⟨induct step t, inductAll step ts⟩

end

/-- The answers of a rule that looks at the answers for children only. -/
def fold (rule : α → Kind → List (Value β) → β) : Tree α → β :=
  elim fun l k vs => rule l k (vs.map fun v => v.map Prod.snd)

/-- Replaces every label. -/
def map (f : α → β) : Tree α → Tree β :=
  fold fun l k vs => .node (f l) k vs

/-- The sum of numbers. -/
def total : List Nat → Nat
  | [] => 0
  | n :: ns => n + total ns

/-- The number of nodes, one for each occurrence. -/
def size : Tree α → Nat :=
  fold fun _ _ vs => total (vs.flatMap Value.children) + 1

/-- The location of the root, if it has one. -/
def location? (t : Tree α) : Option Location :=
  t.values.findSome? Value.location?

theorem fold_node (rule : α → Kind → List (Value β) → β) (l : α) (k : Kind)
    (vs : List (Value (Tree α))) :
    fold rule (.node l k vs) = rule l k (vs.map fun v => v.map (fold rule)) := by
  rw [fold, elim_node, List.map_map]
  congr 1
  apply List.map_congr_left
  intro v _
  exact Value.map_map _ _ v

end Tree

end AnswerSet
