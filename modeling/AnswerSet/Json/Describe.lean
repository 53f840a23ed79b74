import AnswerSet.Json.Token
import AnswerSet.Text.Literal

/-!
# Naming JSON values in messages

Two forms: a subject that should have had another kind, and a description of the
unwanted value itself.
-/

namespace AnswerSet.Json

/-- The message that `subject` should have been something else. -/
def unexpected (subject expected : String) (found : Json) : String :=
  subject ++ ": expected " ++ expected ++ ", found " ++ found.kindName

/-- A value as it is named in a message; scalars are shown, containers are not. -/
def describe : Json → String
  | .null => "null"
  | .bool b => "boolean `" ++ (if b then "true" else "false") ++ "`"
  | .num (.int n) => "integer `" ++ toString n ++ "`"
  | .num (.float x) => "floating point `" ++ Decimal.text x ++ "`"
  | .str s => "string " ++ Literal.literal s
  | .arr _ => "sequence"
  | .obj _ => "map"

end AnswerSet.Json
