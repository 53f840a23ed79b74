/-!
# Quoted ground strings

A ground string is written between double quotes. Inside them a backslash, a
quote and a line feed are written as two characters, and every other character
stands for itself. The writer keeps each string on one line; the scanner beside
it reads such a text from the left up to the quote that closes it.
-/

namespace AnswerSet.Quoted

/-- The characters that stand for `c` between quotes. -/
def escapeChar (c : Char) : List Char :=
  if c = '\\' then ['\\', '\\']
  else if c = '"' then ['\\', '"']
  else if c = '\n' then ['\\', 'n']
  else [c]

/-- The characters between the quotes. -/
def escape (cs : List Char) : List Char :=
  cs.flatMap escapeChar

/-- The character that a backslash followed by `c` stands for. -/
def unescape? (c : Char) : Option Char :=
  if c = '\\' then some '\\'
  else if c = '"' then some '"'
  else if c = 'n' then some '\n'
  else none

/-- Reads the text after an opening quote. A backslash and the character after
it are one unit; the first quote outside such a unit closes the string. The
result is the string and what follows the closing quote. -/
def scan : List Char → Option (List Char × List Char)
  | [] => none
  | [c] => if c = '"' then some ([], []) else none
  | c :: d :: rest =>
      if c = '"' then some ([], d :: rest)
      else if c = '\\' then do
        let unit ← unescape? d
        let (body, after) ← scan rest
        return (unit :: body, after)
      else do
        let (body, after) ← scan (d :: rest)
        return (c :: body, after)

/-- The string between double quotes. -/
def quote (s : String) : String :=
  "\"" ++ String.ofList (escape s.toList) ++ "\""

end AnswerSet.Quoted
