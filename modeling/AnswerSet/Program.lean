import AnswerSet.Pool.Expand
import AnswerSet.Transform.Basic

/-!
# Programs

A program is a sequence of statements. A source yields statements, a builder takes
them one by one and may refuse one. Transferring stops at the first statement that
is refused; what was taken before stays taken.
-/

namespace AnswerSet

/-- Something that takes statements and keeps a state. -/
structure Builder (σ : Type) where
  add : NodeId → EditM σ Error Unit

namespace Builder

/-- Keeps the statements, up to a number of them if one is given. -/
def collecting (limit : Option Nat) : Builder (List NodeId) where
  add id := do
    let taken ← getThe (List NodeId)
    if limit.any fun n => n ≤ taken.length then throw (.invalidNode (.refused "rejected"))
    set (taken ++ [id])

/-- Hands on the alternatives of every statement instead of the statement. -/
def unpooling {σ : Type} (builder : Builder σ) (regions : Regions) : Builder σ where
  add id := do
    let alternatives ← EditM.ofRun (RunM.unpool id regions)
    alternatives.forM builder.add

end Builder

/-- Something that yields statements in order. -/
class StatementSource (τ : Type) where
  statements : τ → List NodeId

instance : StatementSource (List NodeId) := ⟨fun statements => statements⟩

instance : StatementSource (Array NodeId) := ⟨Array.toList⟩

/-- Adds the statements in order and counts them. -/
def transferFrom {σ : Type} (builder : Builder σ) : List NodeId → (count : Nat) → EditM σ Error Nat
  | [], count => return count
  | id :: rest, count => do
      builder.add id
      transferFrom builder rest (count + 1)

/-- Hands every statement of a source to a builder and answers their number. -/
def transfer {τ σ : Type} [StatementSource τ] (source : τ) (builder : Builder σ) :
    EditM σ Error Nat :=
  transferFrom builder (StatementSource.statements source) 0

/-- The surface text of a program, one statement per line. -/
def Store.programText (s : Store) (statements : List NodeId) : Except Stop String := do
  return joinWith "\n" (← statements.mapM s.code)

end AnswerSet
