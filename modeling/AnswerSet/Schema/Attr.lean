/-!
# Attributes

The closed set of attribute names. Their declaration order is fixed.
-/

namespace AnswerSet

/-- A named slot of a node. -/
inductive Attr where
  | argument
  | arguments
  | arity
  | atom
  | atoms
  | atomType
  | bias
  | body
  | code
  | coefficient
  | comparison
  | condition
  | csp
  | elements
  | external
  | externalType
  | function
  | guard
  | guards
  | head
  | isDefault
  | left
  | leftGuard
  | literal
  | location
  | modifier
  | name
  | nodeU
  | nodeV
  | operatorName
  | operatorType
  | operators
  | parameters
  | positive
  | priority
  | right
  | rightGuard
  | sequenceType
  | sign
  | symbol
  | term
  | terms
  | value
  | var
  | weight
  deriving DecidableEq, Repr

namespace Attr

/-- The name of an attribute as a field key. -/
def key : Attr → String
  | .argument => "argument"
  | .arguments => "arguments"
  | .arity => "arity"
  | .atom => "atom"
  | .atoms => "atoms"
  | .atomType => "atom_type"
  | .bias => "bias"
  | .body => "body"
  | .code => "code"
  | .coefficient => "coefficient"
  | .comparison => "comparison"
  | .condition => "condition"
  | .csp => "csp"
  | .elements => "elements"
  | .external => "external"
  | .externalType => "external_type"
  | .function => "function"
  | .guard => "guard"
  | .guards => "guards"
  | .head => "head"
  | .isDefault => "is_default"
  | .left => "left"
  | .leftGuard => "left_guard"
  | .literal => "literal"
  | .location => "location"
  | .modifier => "modifier"
  | .name => "name"
  | .nodeU => "node_u"
  | .nodeV => "node_v"
  | .operatorName => "operator_name"
  | .operatorType => "operator_type"
  | .operators => "operators"
  | .parameters => "parameters"
  | .positive => "positive"
  | .priority => "priority"
  | .right => "right"
  | .rightGuard => "right_guard"
  | .sequenceType => "sequence_type"
  | .sign => "sign"
  | .symbol => "symbol"
  | .term => "term"
  | .terms => "terms"
  | .value => "value"
  | .var => "variable"
  | .weight => "weight"

/-- All attributes in declaration order. -/
def all : List Attr :=
  [.argument, .arguments, .arity, .atom, .atoms, .atomType, .bias, .body, .code, .coefficient,
   .comparison, .condition, .csp, .elements, .external, .externalType, .function, .guard,
   .guards, .head, .isDefault, .left, .leftGuard, .literal, .location, .modifier, .name,
   .nodeU, .nodeV, .operatorName, .operatorType, .operators, .parameters, .positive, .priority,
   .right, .rightGuard, .sequenceType, .sign, .symbol, .term, .terms, .value, .var, .weight]

theorem mem_all (a : Attr) : a ∈ all := by
  cases a <;> decide

/-- The attribute with the given key. -/
def ofKey? (key : String) : Option Attr :=
  all.find? fun a => a.key == key

end Attr

end AnswerSet
