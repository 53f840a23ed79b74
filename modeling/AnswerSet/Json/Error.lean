/-!
# Faults in JSON text

One constructor per fault, the wording in one function.
-/

namespace AnswerSet.Json

/-- Why a text is not JSON. -/
inductive ReadError where
  | endInValue
  | endInArray
  | endInObject
  | endInString
  | expectedValue
  | expectedWord
  | expectedItemEnd
  | expectedFieldEnd
  | expectedColon
  | keyNotString
  | trailingComma
  | trailingCharacters
  | invalidNumber
  | numberOutOfRange
  | controlCharacter
  | invalidEscape
  | endOfHexEscape
  | loneSurrogate
  | tooDeep
  deriving DecidableEq, Repr

/-- The text shown for a fault. -/
def ReadError.message : ReadError → String
  | .endInValue => "EOF while parsing a value"
  | .endInArray => "EOF while parsing a list"
  | .endInObject => "EOF while parsing an object"
  | .endInString => "EOF while parsing a string"
  | .expectedValue => "expected value"
  | .expectedWord => "expected ident"
  | .expectedItemEnd => "expected `,` or `]`"
  | .expectedFieldEnd => "expected `,` or `\x7d`"
  | .expectedColon => "expected `:`"
  | .keyNotString => "key must be a string"
  | .trailingComma => "trailing comma"
  | .trailingCharacters => "trailing characters"
  | .invalidNumber => "invalid number"
  | .numberOutOfRange => "number out of range"
  | .controlCharacter => "control character (\\u0000-\\u001F) found while parsing a string"
  | .invalidEscape => "invalid escape"
  | .endOfHexEscape => "unexpected end of hex escape"
  | .loneSurrogate => "lone leading surrogate in hex escape"
  | .tooDeep => "recursion limit exceeded"

end AnswerSet.Json
