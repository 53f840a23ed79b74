import AnswerSet.Text.Literal
import AnswerSet.Tree.Code

/-!
# Inspection

Inspection shows how a value is built: constructors with their arguments, strings
as literals, and nodes by their kind and surface text.
-/

namespace AnswerSet

/-- Items between brackets. -/
def inspectList (items : List String) : String := "[" ++ joinWith ", " items ++ "]"

/-- A constructor with one argument. -/
def inspectApplied (constructor argument : String) : String :=
  constructor ++ "(" ++ argument ++ ")"

/-- A constructor with named fields. -/
def inspectRecord (constructor : String) (fields : List (String × String)) : String :=
  constructor ++ " \x7b " ++ joinWith ", " (fields.map fun (k, v) => k ++ ": " ++ v) ++ " \x7d"

/-- A value that may be absent. -/
def inspectOption : Option String → String
  | none => "None"
  | some s => inspectApplied "Some" s

/-- A truth value. -/
def inspectFlag (b : Bool) : String := if b then "true" else "false"

mutual

/-- How a symbol is built. -/
def Symbol.inspect : Symbol → String
  | .infimum => "Infimum"
  | .supremum => "Supremum"
  | .number n => inspectApplied "Number" (toString n.toInt)
  | .string s => inspectApplied "String" (Literal.literal s)
  | .function name arguments positive =>
      inspectRecord "Function"
        [("name", Literal.literal name), ("arguments", inspectList (Symbol.inspectAll arguments)),
          ("positive", inspectFlag positive)]

/-- How symbols are built. -/
def Symbol.inspectAll : List Symbol → List String
  | [] => []
  | a :: as => a.inspect :: Symbol.inspectAll as

end

/-- How a position is built. -/
def Position.inspect (p : Position) : String :=
  inspectRecord "Position"
    [("filename", Literal.literal p.filename), ("line", toString p.line.toNat),
      ("column", toString p.column.toNat)]

/-- How a location is built. -/
def Location.inspect (l : Location) : String :=
  inspectRecord "Location" [("begin", l.first.inspect), ("end", l.last.inspect)]

/-- How a value is built, given its children as inspected. -/
def Value.inspect : Value String → String
  | .int n => inspectApplied "Int" (toString n.toInt)
  | .symbol s => inspectApplied "Symbol" s.inspect
  | .location l => inspectApplied "Location" l.inspect
  | .text s => inspectApplied "Str" (Literal.literal s)
  | .node child => inspectApplied "Ast" child
  | .optional child => inspectApplied "OptionalAst" (inspectOption child)
  | .texts items => inspectApplied "StrList" (inspectList (items.map Literal.literal))
  | .nodes children => inspectApplied "AstList" (inspectList children)

/-- The words of a key, each beginning with a capital. -/
def Attr.inspect (a : Attr) : String :=
  String.join ((a.key.splitOn "_").map String.capitalize)

/-- The kind of a tree and its surface text, if it prints. -/
def Tree.inspect? {α : Type} (t : Tree α) : Option String := do
  return inspectApplied t.kind.name (Literal.literal (← t.code?))

end AnswerSet
