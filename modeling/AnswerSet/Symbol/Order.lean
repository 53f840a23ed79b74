import AnswerSet.Symbol.Basic

/-!
# The order of ground symbols

Symbols fall into bands: the infimum, numbers, functions without arguments,
strings, functions with arguments, the supremum. Numbers and strings are ordered
by value. Of two functions the one with fewer arguments is smaller, then positive
comes before negative, then the names and at last the arguments decide.
-/

namespace AnswerSet.Symbol

/-- The band of a symbol. -/
def rank : Symbol → Nat
  | .infimum => 0
  | .number _ => 1
  | .function _ [] _ => 2
  | .string _ => 3
  | .function _ (_ :: _) _ => 4
  | .supremum => 5

mutual

/-- The order of symbols. -/
def compare : Symbol → Symbol → Ordering
  | .number m, .number n => Ord.compare m.toInt n.toInt
  | .string s, .string t => Ord.compare s t
  | .function f as p, .function g bs q =>
      (Ord.compare as.length bs.length).then
        ((Ord.compare q p).then ((Ord.compare f g).then (compareAll as bs)))
  | a, b => Ord.compare a.rank b.rank

/-- The lexicographic order of lists of symbols. -/
def compareAll : List Symbol → List Symbol → Ordering
  | [], [] => .eq
  | [], _ :: _ => .lt
  | _ :: _, [] => .gt
  | a :: as, b :: bs => (compare a b).then (compareAll as bs)

end

end AnswerSet.Symbol
