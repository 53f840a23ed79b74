/-!
# Operators

Eight families of operators are stored in nodes as small integers. Each family
numbers its members from zero in declaration order. `Enumerated` gives the
number, the name and the surface text of a member; `ofNumber?` finds the member
with a number.
-/

namespace AnswerSet

/-- A family of operators. -/
class Enumerated (ε : Type) where
  /-- The name of the family. -/
  typeName : String
  /-- The members in the order of their numbers. -/
  members : List ε
  /-- The position of a member in `members`. -/
  index : ε → Nat
  /-- The name of a member. -/
  variantName : ε → String
  /-- The text of a member in programs. -/
  text : ε → String
  members_index : ∀ e, members[index e]? = some e

namespace Enumerated

variable {ε : Type} [Enumerated ε]

/-- The number of a member. -/
def number (e : ε) : Int32 := Int32.ofNat (index e)

/-- The member with the given number. -/
def ofNumber? (ε : Type) [Enumerated ε] (n : Int32) : Option ε :=
  if n.toInt < 0 then none else (members : List ε)[n.toInt.toNat]?

end Enumerated

/-- Default negation in front of a literal. -/
inductive Sign where
  | noSign
  | negation
  | doubleNegation
  deriving DecidableEq, Repr

instance : Enumerated Sign where
  typeName := "Sign"
  members := [.noSign, .negation, .doubleNegation]
  index := Sign.ctorIdx
  variantName
    | .noSign => "NoSign"
    | .negation => "Negation"
    | .doubleNegation => "DoubleNegation"
  text
    | .noSign => ""
    | .negation => "not "
    | .doubleNegation => "not not "
  members_index e := by cases e <;> rfl

/-- Comparison of two terms. -/
inductive Comparison where
  | greaterThan
  | lessThan
  | lessEqual
  | greaterEqual
  | notEqual
  | equal
  deriving DecidableEq, Repr

instance : Enumerated Comparison where
  typeName := "ComparisonOperator"
  members := [.greaterThan, .lessThan, .lessEqual, .greaterEqual, .notEqual, .equal]
  index := Comparison.ctorIdx
  variantName
    | .greaterThan => "GreaterThan"
    | .lessThan => "LessThan"
    | .lessEqual => "LessEqual"
    | .greaterEqual => "GreaterEqual"
    | .notEqual => "NotEqual"
    | .equal => "Equal"
  text
    | .greaterThan => ">"
    | .lessThan => "<"
    | .lessEqual => "<="
    | .greaterEqual => ">="
    | .notEqual => "!="
    | .equal => "="
  members_index e := by cases e <;> rfl

/-- The comparison with its two sides exchanged. -/
def Comparison.flip : Comparison → Comparison
  | .greaterThan => .lessThan
  | .lessThan => .greaterThan
  | .lessEqual => .greaterEqual
  | .greaterEqual => .lessEqual
  | .notEqual => .notEqual
  | .equal => .equal

@[simp] theorem Comparison.flip_flip (c : Comparison) : c.flip.flip = c := by
  cases c <;> rfl

/-- Operators on one term. -/
inductive UnaryOperator where
  | minus
  | negation
  | absolute
  deriving DecidableEq, Repr

instance : Enumerated UnaryOperator where
  typeName := "UnaryOperator"
  members := [.minus, .negation, .absolute]
  index := UnaryOperator.ctorIdx
  variantName
    | .minus => "Minus"
    | .negation => "Negation"
    | .absolute => "Absolute"
  text
    | .minus => "-"
    | .negation => "~"
    | .absolute => "|"
  members_index e := by cases e <;> rfl

/-- Operators on two terms. -/
inductive BinaryOperator where
  | xor
  | or
  | and
  | plus
  | minus
  | multiplication
  | division
  | modulo
  | power
  deriving DecidableEq, Repr

instance : Enumerated BinaryOperator where
  typeName := "BinaryOperator"
  members := [.xor, .or, .and, .plus, .minus, .multiplication, .division, .modulo, .power]
  index := BinaryOperator.ctorIdx
  variantName
    | .xor => "Xor"
    | .or => "Or"
    | .and => "And"
    | .plus => "Plus"
    | .minus => "Minus"
    | .multiplication => "Multiplication"
    | .division => "Division"
    | .modulo => "Modulo"
    | .power => "Power"
  text
    | .xor => "^"
    | .or => "?"
    | .and => "&"
    | .plus => "+"
    | .minus => "-"
    | .multiplication => "*"
    | .division => "/"
    | .modulo => "\\"
    | .power => "**"
  members_index e := by cases e <;> rfl

/-- Functions of aggregates. -/
inductive AggregateFunction where
  | count
  | sum
  | sumPlus
  | min
  | max
  deriving DecidableEq, Repr

instance : Enumerated AggregateFunction where
  typeName := "AggregateFunction"
  members := [.count, .sum, .sumPlus, .min, .max]
  index := AggregateFunction.ctorIdx
  variantName
    | .count => "Count"
    | .sum => "Sum"
    | .sumPlus => "SumPlus"
    | .min => "Min"
    | .max => "Max"
  text
    | .count => "#count"
    | .sum => "#sum"
    | .sumPlus => "#sum+"
    | .min => "#min"
    | .max => "#max"
  members_index e := by cases e <;> rfl

/-- Brackets around a sequence of theory terms. -/
inductive SequenceType where
  | tuple
  | list
  | set
  deriving DecidableEq, Repr

instance : Enumerated SequenceType where
  typeName := "TheorySequenceType"
  members := [.tuple, .list, .set]
  index := SequenceType.ctorIdx
  variantName
    | .tuple => "Tuple"
    | .list => "List"
    | .set => "Set"
  text
    | .tuple => "Tuple"
    | .list => "List"
    | .set => "Set"
  members_index e := by cases e <;> rfl

/-- The opening and the closing bracket. -/
def SequenceType.delimiters : SequenceType → String × String
  | .tuple => ("(", ")")
  | .list => ("[", "]")
  | .set => ("\x7b", "\x7d")

/-- Arity and associativity of a theory operator. -/
inductive TheoryOperatorType where
  | unary
  | binaryLeft
  | binaryRight
  deriving DecidableEq, Repr

instance : Enumerated TheoryOperatorType where
  typeName := "TheoryOperatorType"
  members := [.unary, .binaryLeft, .binaryRight]
  index := TheoryOperatorType.ctorIdx
  variantName
    | .unary => "Unary"
    | .binaryLeft => "BinaryLeft"
    | .binaryRight => "BinaryRight"
  text
    | .unary => "unary"
    | .binaryLeft => "binary, left"
    | .binaryRight => "binary, right"
  members_index e := by cases e <;> rfl

/-- Where a theory atom may occur. -/
inductive TheoryAtomType where
  | head
  | body
  | any
  | directive
  deriving DecidableEq, Repr

instance : Enumerated TheoryAtomType where
  typeName := "TheoryAtomType"
  members := [.head, .body, .any, .directive]
  index := TheoryAtomType.ctorIdx
  variantName
    | .head => "Head"
    | .body => "Body"
    | .any => "Any"
    | .directive => "Directive"
  text
    | .head => "head"
    | .body => "body"
    | .any => "any"
    | .directive => "directive"
  members_index e := by cases e <;> rfl

/-- The families of operators. -/
inductive Enumeration where
  | sign
  | comparison
  | unary
  | binary
  | aggregate
  | sequence
  | theoryOperator
  | theoryAtom
  deriving DecidableEq, Repr

namespace Enumeration

/-- The type of the members of a family. -/
abbrev Member : Enumeration → Type
  | .sign => Sign
  | .comparison => Comparison
  | .unary => UnaryOperator
  | .binary => BinaryOperator
  | .aggregate => AggregateFunction
  | .sequence => SequenceType
  | .theoryOperator => TheoryOperatorType
  | .theoryAtom => TheoryAtomType

instance (e : Enumeration) : Enumerated e.Member :=
  match e with
  | .sign => inferInstanceAs (Enumerated Sign)
  | .comparison => inferInstanceAs (Enumerated Comparison)
  | .unary => inferInstanceAs (Enumerated UnaryOperator)
  | .binary => inferInstanceAs (Enumerated BinaryOperator)
  | .aggregate => inferInstanceAs (Enumerated AggregateFunction)
  | .sequence => inferInstanceAs (Enumerated SequenceType)
  | .theoryOperator => inferInstanceAs (Enumerated TheoryOperatorType)
  | .theoryAtom => inferInstanceAs (Enumerated TheoryAtomType)

/-- All families in declaration order. -/
def all : List Enumeration :=
  [.sign, .comparison, .unary, .binary, .aggregate, .sequence, .theoryOperator, .theoryAtom]

/-- The name of a family. -/
def name (e : Enumeration) : String := Enumerated.typeName e.Member

/-- The number of members. -/
def count (e : Enumeration) : Nat := (Enumerated.members : List e.Member).length

/-- The family with the given name. -/
def ofName? (name : String) : Option Enumeration :=
  all.find? fun e => e.name == name

end Enumeration

end AnswerSet
