import AnswerSet.Tree.Basic

/-!
# Comparing trees

Trees are compared by their structure: kinds first, then the values slot by slot
and so on below. Locations are left out at every depth, and labels do not count.
A caller that knows some pairs of occurrences to be alike, such as two occurrences
of one instance, may say so through `shortcut`; those pairs are not looked into.
-/

namespace AnswerSet

/-- The values that take part in comparison. -/
def structural {ν : Type} (values : List (Value ν)) : List (Value ν) :=
  values.filter fun v => !v.isLocation

namespace Tree

variable {α β : Type}

/-- Structural equality. -/
def sameWith (shortcut : α → β → Bool) : Tree α → Tree β → Bool :=
  elim fun l k vs other =>
    shortcut l other.label ||
      (k == other.kind &&
        sameLists (Value.sameWith fun a b => a.2 b) (structural vs) (structural other.values))

/-- Structural order. -/
def compareWith (shortcut : α → β → Bool) : Tree α → Tree β → Ordering :=
  elim fun l k vs other =>
    if shortcut l other.label then .eq
    else
      (k.compare other.kind).then
        (compareLists (Value.compareWith fun a b => a.2 b) (structural vs)
          (structural other.values))

/-- Structural equality, looking into every pair. -/
def same : Tree α → Tree β → Bool := sameWith fun _ _ => false

/-- Structural order, looking into every pair. -/
def compare : Tree α → Tree β → Ordering := compareWith fun _ _ => false

end Tree

end AnswerSet
