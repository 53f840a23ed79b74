import AnswerSet.Json.Basic
import AnswerSet.Json.Error
import AnswerSet.Decimal.Shortest

/-!
# JSON tokens

Between values and text stand tokens. `Json.tokens` lists the tokens of a value
without blanks between them, and `Json.text` writes them. A fault met while text
is cut into tokens becomes a token as well: what is wrong with the text depends
on where the fault stands, and that only the reader of tokens knows.
-/

namespace AnswerSet.Json

/-- A unit of JSON text. -/
inductive Token where
  | openArray
  | closeArray
  | openObject
  | closeObject
  | comma
  | colon
  | null
  | bool (b : Bool)
  | num (n : Number)
  | str (s : String)
  /-- A string that is cut short or malformed. -/
  | badString (error : ReadError)
  /-- Text that begins no token, or a malformed number or word. -/
  | bad (error : ReadError)

/-- The text of a number. -/
def Number.text : Number → String
  | .int n => toString n
  | .float x => Decimal.text x

/-- One character between the quotes of a JSON string. -/
def escapeChar (c : Char) : List Char :=
  if c = '"' then ['\\', '"']
  else if c = '\\' then ['\\', '\\']
  else if c = '\x08' then ['\\', 'b']
  else if c = '\x0c' then ['\\', 'f']
  else if c = '\n' then ['\\', 'n']
  else if c = '\r' then ['\\', 'r']
  else if c = '\t' then ['\\', 't']
  else if c.toNat < 0x20 then
    ['\\', 'u', '0', '0', (c.toNat / 16).digitChar, (c.toNat % 16).digitChar]
  else [c]

/-- A JSON string with its quotes. -/
def quote (s : String) : String :=
  "\"" ++ String.ofList (s.toList.flatMap escapeChar) ++ "\""

/-- The text of a token; a fault has none. -/
def Token.text : Token → String
  | .openArray => "["
  | .closeArray => "]"
  | .openObject => "\x7b"
  | .closeObject => "\x7d"
  | .comma => ","
  | .colon => ":"
  | .null => "null"
  | .bool b => if b then "true" else "false"
  | .num n => n.text
  | .str s => quote s
  | .badString _ => ""
  | .bad _ => ""

mutual

/-- The tokens of a value, followed by `rest`. -/
def tokensThen : Json → List Token → List Token
  | .null, rest => .null :: rest
  | .bool b, rest => .bool b :: rest
  | .num n, rest => .num n :: rest
  | .str s, rest => .str s :: rest
  | .arr items, rest => .openArray :: itemTokens items rest
  | .obj fields, rest => .openObject :: fieldTokens fields rest

/-- The tokens after the bracket that opens an array. -/
def itemTokens : List Json → List Token → List Token
  | [], rest => .closeArray :: rest
  | [v], rest => tokensThen v (.closeArray :: rest)
  | v :: next :: more, rest => tokensThen v (.comma :: itemTokens (next :: more) rest)

/-- The tokens after the brace that opens an object. -/
def fieldTokens : List (String × Json) → List Token → List Token
  | [], rest => .closeObject :: rest
  | [(k, v)], rest => .str k :: .colon :: tokensThen v (.closeObject :: rest)
  | (k, v) :: next :: more, rest =>
      .str k :: .colon :: tokensThen v (.comma :: fieldTokens (next :: more) rest)

end

/-- The tokens of a value. -/
def tokens (v : Json) : List Token := v.tokensThen []

/-- The compact text of a value. -/
def text (v : Json) : String := String.join (v.tokens.map Token.text)

end AnswerSet.Json
