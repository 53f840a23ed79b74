import AnswerSet.Text.Join
import AnswerSet.Text.Quoted

/-!
# Ground symbols

A ground symbol is a number, a string, a function of symbols, or one of the two
bounds. A function without a name is a tuple, a positive function without
arguments is a constant. Symbols are equal when they are built alike; printing
puts a comma behind the only member of a tuple.
-/

namespace AnswerSet

/-- A term without variables. -/
inductive Symbol where
  | infimum
  | number (n : Int32)
  | string (s : String)
  | function (name : String) (arguments : List Symbol) (positive : Bool)
  | supremum
  deriving Repr

namespace Symbol

instance : Inhabited Symbol := ⟨.infimum⟩

/-- A positive function without arguments. -/
def constant (name : String) : Symbol := .function name [] true

/-- A positive function without a name. -/
def tuple (members : List Symbol) : Symbol := .function "" members true

/-- The symbol is a function without a name. -/
def isTuple : Symbol → Bool
  | .function name _ _ => name.isEmpty
  | _ => false

mutual

/-- Both symbols are built alike. -/
def same : Symbol → Symbol → Bool
  | .infimum, .infimum => true
  | .number m, .number n => m == n
  | .string s, .string t => s == t
  | .function f as p, .function g bs q => f == g && p == q && sameAll as bs
  | .supremum, .supremum => true
  | _, _ => false

/-- Both lists hold the same symbols in the same order. -/
def sameAll : List Symbol → List Symbol → Bool
  | [], [] => true
  | a :: as, b :: bs => same a b && sameAll as bs
  | _, _ => false

end

mutual

theorem eq_of_same : {a b : Symbol} → same a b = true → a = b
  | .infimum, .infimum, _ => rfl
  | .number m, .number n, h => by simpa [same] using h
  | .string s, .string t, h => by simpa [same] using h
  | .function f as p, .function g bs q, h => by
      simp only [same, Bool.and_eq_true, beq_iff_eq] at h
      rw [h.1.1, h.1.2, eq_of_sameAll h.2]
  | .supremum, .supremum, _ => rfl

theorem eq_of_sameAll : {as bs : List Symbol} → sameAll as bs = true → as = bs
  | [], [], _ => rfl
  | a :: as, b :: bs, h => by
      simp only [sameAll, Bool.and_eq_true] at h
      rw [eq_of_same h.1, eq_of_sameAll h.2]

end

mutual

theorem same_refl : (a : Symbol) → same a a = true
  | .infimum => rfl
  | .number n => by simp [same]
  | .string s => by simp [same]
  | .function f as p => by simp [same, sameAll_refl as]
  | .supremum => rfl

theorem sameAll_refl : (as : List Symbol) → sameAll as as = true
  | [] => rfl
  | a :: as => by simp [sameAll, same_refl a, sameAll_refl as]

end

theorem same_iff_eq {a b : Symbol} : same a b = true ↔ a = b :=
  ⟨eq_of_same, fun h => h ▸ same_refl a⟩

instance : DecidableEq Symbol := fun _ _ => decidable_of_iff _ same_iff_eq

/-- The argument list of a function; constants have none, tuples always do. -/
def argumentText (name : String) (arguments : List String) : String :=
  if arguments.isEmpty && !name.isEmpty then ""
  else
    "(" ++ joinWith "," arguments ++
      (if name.isEmpty && arguments.length == 1 then "," else "") ++ ")"

mutual

/-- The symbol as it is written in a program. -/
def text : Symbol → String
  | .infimum => "#inf"
  | .supremum => "#sup"
  | .number n => toString n.toInt
  | .string s => Quoted.quote s
  | .function name arguments positive =>
      (if positive then "" else "-") ++ name ++ argumentText name (texts arguments)

/-- The texts of symbols in order. -/
def texts : List Symbol → List String
  | [] => []
  | a :: as => text a :: texts as

end

@[simp] theorem texts_eq_map (as : List Symbol) : texts as = as.map text := by
  induction as with
  | nil => rfl
  | cons a as ih => simp [texts, ih]

end Symbol

end AnswerSet
