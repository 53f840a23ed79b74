import AnswerSet.Schema.Check
import AnswerSet.Tree.Basic

/-!
# Surface text

Every node prints from the texts of its children. A guard of an aggregate is
printed by the aggregate, which puts the term before or after the operator; so
the answer for a node also says how it reads as a guard. Nodes that follow the
schema print, except that an aggregate needs guards with a comparison and a term.
-/

namespace AnswerSet

/-- The answer for one node. -/
structure Rendering where
  /-- The text of the node. -/
  text : Option String
  /-- The operator and the text of the term, if the node can guard an aggregate. -/
  guard : Option (Comparison × String)

/-- A node whose children are answered. -/
structure Fields where
  kind : Kind
  values : List (Value Rendering)

namespace Fields

variable (f : Fields)

/-- The value of an attribute. -/
def value (a : Attr) : Option (Value Rendering) := f.kind.valueOf? f.values a

/-- The text of a child. -/
def node (a : Attr) : Option String := do
  match ← f.value a with
  | .node child => child.text
  | _ => none

/-- The answer for a child that may be absent. -/
def optional (a : Attr) : Option (Option Rendering) := do
  match ← f.value a with
  | .optional child => some child
  | _ => none

/-- The text of a child that may be absent. -/
def optionalText (a : Attr) : Option (Option String) := do
  (← f.optional a).mapM (·.text)

/-- The texts of children. -/
def nodes (a : Attr) : Option (List String) := do
  (← (← f.value a).nodes?).mapM (·.text)

/-- A text. -/
def text (a : Attr) : Option String := do (← f.value a).text?

/-- Texts. -/
def texts (a : Attr) : Option (List String) := do (← f.value a).texts?

/-- An integer. -/
def int (a : Attr) : Option Int32 := do (← f.value a).int?

/-- The decimal text of an integer. -/
def number (a : Attr) : Option String := do return toString (← f.int a).toInt

/-- A flag. -/
def flag (a : Attr) : Option Bool := do return (← f.int a) != 0

/-- A text that is shown only if a flag has the given value. -/
def flagText (a : Attr) (shownFor : Bool) (s : String) : Option String := do
  return if (← f.flag a) = shownFor then s else ""

/-- A symbol. -/
def symbol (a : Attr) : Option Symbol := do (← f.value a).symbol?

/-- An operator. -/
def member (ε : Type) [Enumerated ε] (a : Attr) : Option ε := do
  Enumerated.ofNumber? ε (← f.int a)

/-- The text of an operator. -/
def operator (ε : Type) [Enumerated ε] (a : Attr) : Option String := do
  return Enumerated.text (← f.member ε a)

/-! ## Parts of statements -/

/-- A text in front of a list, or nothing for an empty list. -/
def introduced (intro separator : String) (items : List String) : String :=
  if items.isEmpty then "" else intro ++ joinWith separator items

/-- The body of a directive. -/
def bodyText (body : List String) : String := introduced " : " "; " body

/-- A condition. -/
def conditionText (condition : List String) : String := introduced ": " ", " condition

/-- Elements between braces. -/
def elementsText (elements : List String) : String :=
  if elements.isEmpty then "\x7b \x7d" else "\x7b " ++ joinWith "; " elements ++ " \x7d"

/-- Arguments between parentheses, or nothing if there are none. -/
def parenthesized (arguments : List String) : String :=
  if arguments.isEmpty then "" else "(" ++ joinWith "," arguments ++ ")"

/-- An aggregate between its guards. -/
def guarded (inner : String) : Option String := do
  let left ← match ← f.optional .leftGuard with
    | none => pure ""
    | some r => do
        let (op, term) ← r.guard
        pure (term ++ " " ++ Enumerated.text op ++ " ")
  let right ← match ← f.optional .rightGuard with
    | none => pure ""
    | some r => do
        let (op, term) ← r.guard
        pure (" " ++ Enumerated.text op ++ " " ++ term)
  return left ++ inner ++ right

/-- The name and arity of a predicate, with its sign. -/
def signature : Option String := do
  return (← f.flagText .positive false "-") ++ (← f.text .name) ++ "/" ++ (← f.number .arity)

/-! ## Terms, atoms and elements -/

/-- The text of terms. -/
def term : Option String := do
  match f.kind with
  | .id | .var => f.text .name
  | .symbolicTerm => return (← f.symbol .symbol).text
  | .unaryOperation =>
      let argument ← f.node .argument
      match ← f.member UnaryOperator .operatorType with
      | .absolute => return "|" ++ argument ++ "|"
      | op => return Enumerated.text op ++ argument
  | .binaryOperation =>
      return "(" ++ (← f.node .left) ++ (← f.operator BinaryOperator .operatorType) ++
        (← f.node .right) ++ ")"
  | .interval => return "(" ++ (← f.node .left) ++ ".." ++ (← f.node .right) ++ ")"
  | .function =>
      let name ← f.text .name
      let arguments ← f.nodes .arguments
      return (← f.flagText .external true "@") ++ name ++ Symbol.argumentText name arguments
  | .pool => return "(" ++ joinWith ";" (← f.nodes .arguments) ++ ")"
  | .cspProduct =>
      let coefficient ← f.node .coefficient
      match ← f.optionalText .var with
      | some factor => return coefficient ++ "$*$" ++ factor
      | none => return coefficient
  | .cspSum =>
      let terms ← f.nodes .terms
      return if terms.isEmpty then "0" else joinWith "$+" terms
  | .cspGuard => return "$" ++ (← f.operator Comparison .comparison) ++ (← f.node .term)
  | _ => none

/-- The text of atoms and literals. -/
def literal : Option String := do
  match f.kind with
  | .booleanConstant => return if ← f.flag .value then "#true" else "#false"
  | .symbolicAtom => f.node .symbol
  | .comparison =>
      return (← f.node .left) ++ (← f.operator Comparison .comparison) ++ (← f.node .right)
  | .cspLiteral => return (← f.node .term) ++ joinWith "" (← f.nodes .guards)
  | .literal => return (← f.operator Sign .sign) ++ (← f.node .atom)
  | .conditionalLiteral =>
      return (← f.node .literal) ++ conditionText (← f.nodes .condition)
  | .disjunction => return joinWith "; " (← f.nodes .elements)
  | .disjointElement =>
      return joinWith "," (← f.nodes .terms) ++ ": " ++ (← f.node .term) ++
        conditionText (← f.nodes .condition)
  | .disjoint => return "#disjoint " ++ elementsText (← f.nodes .elements)
  | _ => none

/-- The text of aggregates and their parts. -/
def aggregate : Option String := do
  match f.kind with
  | .aggregateGuard => return (← f.operator Comparison .comparison) ++ " " ++ (← f.node .term)
  | .aggregate => f.guarded (elementsText (← f.nodes .elements))
  | .bodyAggregate | .headAggregate =>
      let function ← f.operator AggregateFunction .function
      f.guarded (function ++ " " ++ elementsText (← f.nodes .elements))
  | .bodyAggregateElement =>
      return joinWith "," (← f.nodes .terms) ++ conditionText (← f.nodes .condition)
  | .headAggregateElement =>
      return joinWith "," (← f.nodes .terms) ++ ": " ++ (← f.node .condition)
  | _ => none

/-- The text of theory atoms and their parts. -/
def theory : Option String := do
  match f.kind with
  | .theorySequence =>
      let type ← f.member SequenceType .sequenceType
      let terms ← f.nodes .terms
      let comma := if type = .tuple && terms.length == 1 then "," else ""
      return type.delimiters.1 ++ joinWith "," terms ++ comma ++ type.delimiters.2
  | .theoryFunction => return (← f.text .name) ++ parenthesized (← f.nodes .arguments)
  | .theoryUnparsedTermElement =>
      return String.join ((← f.texts .operators).map (· ++ " ")) ++ (← f.node .term)
  | .theoryUnparsedTerm =>
      match ← f.nodes .elements with
      | [element] => return element
      | elements => return "(" ++ joinWith " " elements ++ ")"
  | .theoryGuard => return (← f.text .operatorName) ++ " " ++ (← f.node .term)
  | .theoryAtomElement =>
      return joinWith "," (← f.nodes .terms) ++ conditionText (← f.nodes .condition)
  | .theoryAtom =>
      let atom := "&" ++ (← f.node .term) ++ " " ++ elementsText (← f.nodes .elements)
      match ← f.optionalText .guard with
      | some guard => return atom ++ " " ++ guard
      | none => return atom
  | .theoryOperatorDefinition =>
      return (← f.text .name) ++ " : " ++ (← f.number .priority) ++ ", " ++
        (← f.operator TheoryOperatorType .operatorType)
  | .theoryTermDefinition =>
      return (← f.text .name) ++ " " ++ elementsText (← f.nodes .operators)
  | .theoryGuardDefinition =>
      return "\x7b " ++ joinWith ", " (← f.texts .operators) ++ " \x7d, " ++ (← f.text .term)
  | .theoryAtomDefinition =>
      let atom := "&" ++ (← f.text .name) ++ "/" ++ (← f.number .arity) ++ " : " ++
        (← f.text .term) ++ ", "
      let guard ← match ← f.optionalText .guard with
        | some guard => pure (guard ++ ", ")
        | none => pure ""
      return atom ++ guard ++ (← f.operator TheoryAtomType .atomType)
  | _ => none

/-! ## Statements -/

/-- The text of statements. -/
def statement : Option String := do
  match f.kind with
  | .rule => return (← f.node .head) ++ introduced " :- " "; " (← f.nodes .body) ++ "."
  | .definition =>
      return "#const " ++ (← f.text .name) ++ " = " ++ (← f.node .value) ++ "." ++
        (← f.flagText .isDefault false " [override]")
  | .showSignature => return "#show " ++ (← f.flagText .csp true "$") ++ (← f.signature) ++ "."
  | .showTerm =>
      return "#show " ++ (← f.flagText .csp true "$") ++ (← f.node .term) ++
        bodyText (← f.nodes .body) ++ "."
  | .minimize =>
      return ":~" ++ introduced " " "; " (← f.nodes .body) ++ ". [" ++ (← f.node .weight) ++ "@" ++
        (← f.node .priority) ++ introduced "," "," (← f.nodes .terms) ++ "]"
  | .script => f.text .code
  | .program =>
      return "#program " ++ (← f.text .name) ++ parenthesized (← f.nodes .parameters) ++ "."
  | .external =>
      return "#external " ++ (← f.node .atom) ++ bodyText (← f.nodes .body) ++ ". [" ++
        (← f.node .externalType) ++ "]"
  | .edge =>
      return "#edge (" ++ (← f.node .nodeU) ++ "," ++ (← f.node .nodeV) ++ ")" ++
        bodyText (← f.nodes .body) ++ "."
  | .heuristic =>
      return "#heuristic " ++ (← f.node .atom) ++ bodyText (← f.nodes .body) ++ ". [" ++
        (← f.node .bias) ++ "@" ++ (← f.node .priority) ++ "," ++ (← f.node .modifier) ++ "]"
  | .projectAtom => return "#project " ++ (← f.node .atom) ++ bodyText (← f.nodes .body) ++ "."
  | .projectSignature => return "#project " ++ (← f.signature) ++ "."
  | .defined => return "#defined " ++ (← f.signature) ++ "."
  | .theoryDefinition =>
      return "#theory " ++ (← f.text .name) ++ " " ++
        elementsText ((← f.nodes .terms) ++ (← f.nodes .atoms)) ++ "."
  | _ => none

/-- The text of a node. -/
def code : Option String :=
  f.term <|> f.literal <|> f.aggregate <|> f.theory <|> f.statement

/-- How the node reads as a guard. -/
def asGuard : Option (Comparison × String) := do
  return (← f.member Comparison .comparison, ← f.node .term)

end Fields

namespace Tree

variable {α : Type}

/-- The answers for a tree. -/
def render : Tree α → Rendering :=
  fold fun _ kind values =>
    let f : Fields := ⟨kind, values⟩
    { text := f.code, guard := f.asGuard }

/-- The surface text of a tree, unless it holds an aggregate with a bad guard. -/
def code? (t : Tree α) : Option String := t.render.text

end Tree

end AnswerSet
