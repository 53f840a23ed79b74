import AnswerSet.Schema.Slot

/-!
# Kinds of nodes

The closed set of node shapes. The schema gives every kind its slots in order;
it is the one table from which checks, decoders and printers take the shape of a
node. The location, where there is one, comes first, and no attribute occurs
twice.
-/

namespace AnswerSet

/-- The kind of a node. -/
inductive Kind where
  | id
  | var
  | symbolicTerm
  | unaryOperation
  | binaryOperation
  | interval
  | function
  | pool
  | cspProduct
  | cspSum
  | cspGuard
  | booleanConstant
  | symbolicAtom
  | comparison
  | cspLiteral
  | aggregateGuard
  | conditionalLiteral
  | aggregate
  | bodyAggregateElement
  | bodyAggregate
  | headAggregateElement
  | headAggregate
  | disjunction
  | disjointElement
  | disjoint
  | theorySequence
  | theoryFunction
  | theoryUnparsedTermElement
  | theoryUnparsedTerm
  | theoryGuard
  | theoryAtomElement
  | theoryAtom
  | literal
  | theoryOperatorDefinition
  | theoryTermDefinition
  | theoryGuardDefinition
  | theoryAtomDefinition
  | rule
  | definition
  | showSignature
  | showTerm
  | minimize
  | script
  | program
  | external
  | edge
  | heuristic
  | projectAtom
  | projectSignature
  | defined
  | theoryDefinition
  deriving DecidableEq, Repr

namespace Kind

/-- The name of a kind. -/
def name : Kind → String
  | .id => "Id"
  | .var => "Variable"
  | .symbolicTerm => "SymbolicTerm"
  | .unaryOperation => "UnaryOperation"
  | .binaryOperation => "BinaryOperation"
  | .interval => "Interval"
  | .function => "Function"
  | .pool => "Pool"
  | .cspProduct => "CspProduct"
  | .cspSum => "CspSum"
  | .cspGuard => "CspGuard"
  | .booleanConstant => "BooleanConstant"
  | .symbolicAtom => "SymbolicAtom"
  | .comparison => "Comparison"
  | .cspLiteral => "CspLiteral"
  | .aggregateGuard => "AggregateGuard"
  | .conditionalLiteral => "ConditionalLiteral"
  | .aggregate => "Aggregate"
  | .bodyAggregateElement => "BodyAggregateElement"
  | .bodyAggregate => "BodyAggregate"
  | .headAggregateElement => "HeadAggregateElement"
  | .headAggregate => "HeadAggregate"
  | .disjunction => "Disjunction"
  | .disjointElement => "DisjointElement"
  | .disjoint => "Disjoint"
  | .theorySequence => "TheorySequence"
  | .theoryFunction => "TheoryFunction"
  | .theoryUnparsedTermElement => "TheoryUnparsedTermElement"
  | .theoryUnparsedTerm => "TheoryUnparsedTerm"
  | .theoryGuard => "TheoryGuard"
  | .theoryAtomElement => "TheoryAtomElement"
  | .theoryAtom => "TheoryAtom"
  | .literal => "Literal"
  | .theoryOperatorDefinition => "TheoryOperatorDefinition"
  | .theoryTermDefinition => "TheoryTermDefinition"
  | .theoryGuardDefinition => "TheoryGuardDefinition"
  | .theoryAtomDefinition => "TheoryAtomDefinition"
  | .rule => "Rule"
  | .definition => "Definition"
  | .showSignature => "ShowSignature"
  | .showTerm => "ShowTerm"
  | .minimize => "Minimize"
  | .script => "Script"
  | .program => "Program"
  | .external => "External"
  | .edge => "Edge"
  | .heuristic => "Heuristic"
  | .projectAtom => "ProjectAtom"
  | .projectSignature => "ProjectSignature"
  | .defined => "Defined"
  | .theoryDefinition => "TheoryDefinition"

/-- All kinds in declaration order, which is also the order of nodes of
different kinds. -/
def all : List Kind :=
  [.id, .var, .symbolicTerm, .unaryOperation, .binaryOperation, .interval, .function, .pool,
   .cspProduct, .cspSum, .cspGuard, .booleanConstant, .symbolicAtom, .comparison, .cspLiteral,
   .aggregateGuard, .conditionalLiteral, .aggregate, .bodyAggregateElement, .bodyAggregate,
   .headAggregateElement, .headAggregate, .disjunction, .disjointElement, .disjoint,
   .theorySequence, .theoryFunction, .theoryUnparsedTermElement, .theoryUnparsedTerm,
   .theoryGuard, .theoryAtomElement, .theoryAtom, .literal, .theoryOperatorDefinition,
   .theoryTermDefinition, .theoryGuardDefinition, .theoryAtomDefinition, .rule, .definition,
   .showSignature, .showTerm, .minimize, .script, .program, .external, .edge, .heuristic,
   .projectAtom, .projectSignature, .defined, .theoryDefinition]

theorem mem_all (k : Kind) : k ∈ all := by
  cases k <;> decide

/-- The kind with the given name. -/
def ofName? (name : String) : Option Kind :=
  all.find? fun k => k.name == name

/-- Kinds in declaration order. -/
def compare (j k : Kind) : Ordering := Ord.compare j.ctorIdx k.ctorIdx

/-- The slots of a kind in schema order. -/
def slots : Kind → List Slot
  | .id => [⟨.location, .location⟩, ⟨.name, .text⟩]
  | .var => [⟨.location, .location⟩, ⟨.name, .text⟩]
  | .symbolicTerm => [⟨.location, .location⟩, ⟨.symbol, .symbol⟩]
  | .unaryOperation =>
      [⟨.location, .location⟩, ⟨.operatorType, .choice .unary⟩, ⟨.argument, .node⟩]
  | .binaryOperation =>
      [⟨.location, .location⟩, ⟨.operatorType, .choice .binary⟩, ⟨.left, .node⟩,
       ⟨.right, .node⟩]
  | .interval => [⟨.location, .location⟩, ⟨.left, .node⟩, ⟨.right, .node⟩]
  | .function =>
      [⟨.location, .location⟩, ⟨.name, .text⟩, ⟨.arguments, .nodes⟩, ⟨.external, .flag⟩]
  | .pool => [⟨.location, .location⟩, ⟨.arguments, .nodes⟩]
  | .cspProduct => [⟨.location, .location⟩, ⟨.coefficient, .node⟩, ⟨.var, .optional⟩]
  | .cspSum => [⟨.location, .location⟩, ⟨.terms, .nodes⟩]
  | .cspGuard => [⟨.location, .location⟩, ⟨.comparison, .choice .comparison⟩, ⟨.term, .node⟩]
  | .booleanConstant => [⟨.value, .flag⟩]
  | .symbolicAtom => [⟨.symbol, .node⟩]
  | .comparison => [⟨.comparison, .choice .comparison⟩, ⟨.left, .node⟩, ⟨.right, .node⟩]
  | .cspLiteral => [⟨.location, .location⟩, ⟨.term, .node⟩, ⟨.guards, .nodes⟩]
  | .aggregateGuard => [⟨.comparison, .choice .comparison⟩, ⟨.term, .node⟩]
  | .conditionalLiteral => [⟨.location, .location⟩, ⟨.literal, .node⟩, ⟨.condition, .nodes⟩]
  | .aggregate =>
      [⟨.location, .location⟩, ⟨.leftGuard, .optional⟩, ⟨.elements, .nodes⟩,
       ⟨.rightGuard, .optional⟩]
  | .bodyAggregateElement => [⟨.terms, .nodes⟩, ⟨.condition, .nodes⟩]
  | .bodyAggregate =>
      [⟨.location, .location⟩, ⟨.leftGuard, .optional⟩, ⟨.function, .choice .aggregate⟩,
       ⟨.elements, .nodes⟩, ⟨.rightGuard, .optional⟩]
  | .headAggregateElement => [⟨.terms, .nodes⟩, ⟨.condition, .node⟩]
  | .headAggregate =>
      [⟨.location, .location⟩, ⟨.leftGuard, .optional⟩, ⟨.function, .choice .aggregate⟩,
       ⟨.elements, .nodes⟩, ⟨.rightGuard, .optional⟩]
  | .disjunction => [⟨.location, .location⟩, ⟨.elements, .nodes⟩]
  | .disjointElement =>
      [⟨.location, .location⟩, ⟨.terms, .nodes⟩, ⟨.term, .node⟩, ⟨.condition, .nodes⟩]
  | .disjoint => [⟨.location, .location⟩, ⟨.elements, .nodes⟩]
  | .theorySequence =>
      [⟨.location, .location⟩, ⟨.sequenceType, .choice .sequence⟩, ⟨.terms, .nodes⟩]
  | .theoryFunction => [⟨.location, .location⟩, ⟨.name, .text⟩, ⟨.arguments, .nodes⟩]
  | .theoryUnparsedTermElement => [⟨.operators, .texts⟩, ⟨.term, .node⟩]
  | .theoryUnparsedTerm => [⟨.location, .location⟩, ⟨.elements, .nodes⟩]
  | .theoryGuard => [⟨.operatorName, .text⟩, ⟨.term, .node⟩]
  | .theoryAtomElement => [⟨.terms, .nodes⟩, ⟨.condition, .nodes⟩]
  | .theoryAtom =>
      [⟨.location, .location⟩, ⟨.term, .node⟩, ⟨.elements, .nodes⟩, ⟨.guard, .optional⟩]
  | .literal => [⟨.location, .location⟩, ⟨.sign, .choice .sign⟩, ⟨.atom, .node⟩]
  | .theoryOperatorDefinition =>
      [⟨.location, .location⟩, ⟨.name, .text⟩, ⟨.priority, .unsigned⟩,
       ⟨.operatorType, .choice .theoryOperator⟩]
  | .theoryTermDefinition => [⟨.location, .location⟩, ⟨.name, .text⟩, ⟨.operators, .nodes⟩]
  | .theoryGuardDefinition => [⟨.operators, .texts⟩, ⟨.term, .text⟩]
  | .theoryAtomDefinition =>
      [⟨.location, .location⟩, ⟨.atomType, .choice .theoryAtom⟩, ⟨.name, .text⟩,
       ⟨.arity, .unsigned⟩, ⟨.term, .text⟩, ⟨.guard, .optional⟩]
  | .rule => [⟨.location, .location⟩, ⟨.head, .node⟩, ⟨.body, .nodes⟩]
  | .definition =>
      [⟨.location, .location⟩, ⟨.name, .text⟩, ⟨.value, .node⟩, ⟨.isDefault, .flag⟩]
  | .showSignature =>
      [⟨.location, .location⟩, ⟨.name, .text⟩, ⟨.arity, .unsigned⟩, ⟨.positive, .flag⟩,
       ⟨.csp, .flag⟩]
  | .showTerm => [⟨.location, .location⟩, ⟨.term, .node⟩, ⟨.body, .nodes⟩, ⟨.csp, .flag⟩]
  | .minimize =>
      [⟨.location, .location⟩, ⟨.weight, .node⟩, ⟨.priority, .node⟩, ⟨.terms, .nodes⟩,
       ⟨.body, .nodes⟩]
  | .script => [⟨.location, .location⟩, ⟨.name, .text⟩, ⟨.code, .text⟩]
  | .program => [⟨.location, .location⟩, ⟨.name, .text⟩, ⟨.parameters, .nodes⟩]
  | .external =>
      [⟨.location, .location⟩, ⟨.atom, .node⟩, ⟨.body, .nodes⟩, ⟨.externalType, .node⟩]
  | .edge => [⟨.location, .location⟩, ⟨.nodeU, .node⟩, ⟨.nodeV, .node⟩, ⟨.body, .nodes⟩]
  | .heuristic =>
      [⟨.location, .location⟩, ⟨.atom, .node⟩, ⟨.body, .nodes⟩, ⟨.bias, .node⟩,
       ⟨.priority, .node⟩, ⟨.modifier, .node⟩]
  | .projectAtom => [⟨.location, .location⟩, ⟨.atom, .node⟩, ⟨.body, .nodes⟩]
  | .projectSignature =>
      [⟨.location, .location⟩, ⟨.name, .text⟩, ⟨.arity, .unsigned⟩, ⟨.positive, .flag⟩]
  | .defined =>
      [⟨.location, .location⟩, ⟨.name, .text⟩, ⟨.arity, .unsigned⟩, ⟨.positive, .flag⟩]
  | .theoryDefinition =>
      [⟨.location, .location⟩, ⟨.name, .text⟩, ⟨.terms, .nodes⟩, ⟨.atoms, .nodes⟩]

/-- The place of an attribute among the slots. -/
def slotIndex? (k : Kind) (a : Attr) : Option Nat :=
  k.slots.findIdx? fun slot => slot.attr = a

/-- The slot of an attribute, after its place among the slots. -/
def slot? (k : Kind) (a : Attr) : Option (Nat × Slot) := do
  let i ← k.slotIndex? a
  let slot ← k.slots[i]?
  return (i, slot)

/-- The kind owns the attribute. -/
def owns (k : Kind) (a : Attr) : Bool := (k.slotIndex? a).isSome

/-- The attributes of a kind in schema order. -/
def attrs (k : Kind) : List Attr := k.slots.map (·.attr)

/-- The field names of a kind other than its location. -/
def childKeys (k : Kind) : List String :=
  (k.attrs.filter (· ≠ .location)).map Attr.key

theorem nodup_attrs (k : Kind) : k.attrs.Nodup := by
  cases k <;> decide

end Kind

end AnswerSet
