import AnswerSet.Text.Unprintable

/-!
# String literals for inspection

Inspection shows a string between double quotes with every character visible:
quotes and backslashes are escaped, line feeds, carriage returns, tabs and NUL
have short names, and whatever else does not print is written by its number.
-/

namespace AnswerSet.Literal

/-- The number of `c` in lower-case hexadecimal digits without padding. -/
def hexadecimal (c : Char) : String :=
  String.ofList (Nat.toDigits 16 c.toNat)

/-- One character of a literal. -/
def escapeChar (c : Char) : String :=
  if c = '"' then "\\\""
  else if c = '\\' then "\\\\"
  else if c = '\n' then "\\n"
  else if c = '\r' then "\\r"
  else if c = '\t' then "\\t"
  else if c = '\x00' then "\\0"
  else if c.toNat < 0x20 || c.toNat = 0x7F || isUnprintable c then
    "\\u\x7b" ++ hexadecimal c ++ "\x7d"
  else c.toString

/-- The literal that shows `s`. -/
def literal (s : String) : String :=
  "\"" ++ String.join (s.toList.map escapeChar) ++ "\""

end AnswerSet.Literal
