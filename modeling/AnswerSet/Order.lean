/-!
# Comparing containers

Equality and order of lists and options, from an equality or order of their
members. The two sides may hold members of different types.
-/

namespace AnswerSet

variable {α β : Type}

/-- The lists are equally long and agree member by member. -/
def sameLists (same : α → β → Bool) : List α → List β → Bool
  | [], [] => true
  | a :: as, b :: bs => same a b && sameLists same as bs
  | _, _ => false

/-- Both are absent, or both are present and agree. -/
def sameOptions (same : α → β → Bool) : Option α → Option β → Bool
  | none, none => true
  | some a, some b => same a b
  | _, _ => false

/-- The lexicographic order of lists. -/
def compareLists (compare : α → β → Ordering) : List α → List β → Ordering
  | [], [] => .eq
  | [], _ :: _ => .lt
  | _ :: _, [] => .gt
  | a :: as, b :: bs => (compare a b).then (compareLists compare as bs)

/-- Absent members come first. -/
def compareOptions (compare : α → β → Ordering) : Option α → Option β → Ordering
  | none, none => .eq
  | none, some _ => .lt
  | some _, none => .gt
  | some a, some b => compare a b

end AnswerSet
