import AnswerSet.Json.Token
import AnswerSet.Json.Numeral

/-!
# Cutting JSON text into tokens

Every reader of a lexeme answers with the lexeme and the number of characters it
takes; reading goes on after skipping that many. The first fault ends the list of
tokens.
-/

namespace AnswerSet.Json

/-- The blanks between tokens. -/
def isBlank (c : Char) : Bool :=
  c = ' ' || c = '\n' || c = '\t' || c = '\r'

/-- The value of a hexadecimal digit of either case. -/
def hexValue? (c : Char) : Option Nat :=
  if '0' ≤ c ∧ c ≤ '9' then some (c.toNat - '0'.toNat)
  else if 'a' ≤ c ∧ c ≤ 'f' then some (c.toNat - 'a'.toNat + 10)
  else if 'A' ≤ c ∧ c ≤ 'F' then some (c.toNat - 'A'.toNat + 10)
  else none

/-- The number given by four hexadecimal digits. The text must still hold four
bytes; if it does, four digits must come. -/
def readHex (cs : List Char) : Except ReadError Nat :=
  if (String.ofList (cs.take 4)).utf8ByteSize < 4 then .error .endInString
  else
    match (cs.take 4).mapM hexValue? with
    | some digits => .ok (digits.foldl (fun n d => n * 16 + d) 0)
    | none => .error .invalidEscape

/-- The second half of a surrogate pair, which is an escape of its own. -/
def readLowSurrogate : List Char → Except ReadError Nat
  | [] => .error .endInString
  | [c] => .error (if c = '\\' then .endInString else .endOfHexEscape)
  | c :: d :: rest =>
      if c = '\\' ∧ d = 'u' then do
        let low ← readHex rest
        if 0xDC00 ≤ low ∧ low ≤ 0xDFFF then return low else throw .loneSurrogate
      else .error .endOfHexEscape

/-- The character given by the digits after `\u`, and how many characters it
takes: four, or ten for a pair of surrogates. -/
def readUnicode (cs : List Char) : Except ReadError (Char × Nat) := do
  let n ← readHex cs
  if 0xDC00 ≤ n ∧ n ≤ 0xDFFF then throw .loneSurrogate
  else if 0xD800 ≤ n ∧ n ≤ 0xDBFF then
    let low ← readLowSurrogate (cs.drop 4)
    return (Char.ofNat ((n - 0xD800) * 0x400 + (low - 0xDC00) + 0x10000), 10)
  else return (Char.ofNat n, 4)

/-- The character that a backslash followed by `c` stands for. -/
def unescape? (c : Char) : Option Char :=
  if c = '"' ∨ c = '\\' ∨ c = '/' then some c
  else if c = 'b' then some '\x08'
  else if c = 'f' then some '\x0c'
  else if c = 'n' then some '\n'
  else if c = 'r' then some '\r'
  else if c = 't' then some '\t'
  else none

/-- The character that an escape stands for, read after its backslash, with the
number of characters after the backslash. -/
def readEscape : List Char → Except ReadError (Char × Nat)
  | [] => .error .endInString
  | c :: rest =>
      if c = 'u' then do
        let (unit, width) ← readUnicode rest
        return (unit, width + 1)
      else
        match unescape? c with
        | some unit => .ok (unit, 1)
        | none => .error .invalidEscape

/-- The string after an opening quote, with the number of characters up to and
with the closing quote. The first `skip` characters belong to an escape that has
been read already; they count, but add nothing. -/
def readString : (skip : Nat) → List Char → Except ReadError (List Char × Nat)
  | _, [] => .error .endInString
  | skip + 1, _ :: rest => do
      let (body, count) ← readString skip rest
      return (body, count + 1)
  | 0, c :: rest =>
      if c = '"' then .ok ([], 1)
      else if c = '\\' then do
        let (unit, width) ← readEscape rest
        let (body, count) ← readString width rest
        return (unit :: body, count + 1)
      else if c.toNat < 0x20 then .error .controlCharacter
      else do
        let (body, count) ← readString 0 rest
        return (c :: body, count + 1)

/-- Reads the rest of a word whose first letter is known. -/
def readWord : (word text : List Char) → Except ReadError Unit
  | [], _ => .ok ()
  | _ :: _, [] => .error .endInValue
  | w :: word, c :: text => if w = c then readWord word text else .error .expectedWord

/-- The token at the beginning of a text that starts with no blank, and the
number of characters it takes. -/
def readToken (c : Char) (rest : List Char) : Token × Nat :=
  let word (letters : String) (token : Token) : Token × Nat :=
    match readWord letters.toList rest with
    | .ok _ => (token, letters.length + 1)
    | .error e => (.bad e, 0)
  if c = '[' then (.openArray, 1)
  else if c = ']' then (.closeArray, 1)
  else if c = '\x7b' then (.openObject, 1)
  else if c = '\x7d' then (.closeObject, 1)
  else if c = ',' then (.comma, 1)
  else if c = ':' then (.colon, 1)
  else if c = '"' then
    match readString 0 rest with
    | .ok (body, count) => (.str (String.ofList body), count + 1)
    | .error e => (.badString e, 0)
  else if c = 'n' then word "ull" .null
  else if c = 't' then word "rue" (.bool true)
  else if c = 'f' then word "alse" (.bool false)
  else if c = '-' ∨ c.isDigit then
    match Numeral.read (c :: rest) with
    | .ok (numeral, count) =>
        match numeral.value with
        | .ok n => (.num n, count)
        | .error e => (.bad e, 0)
    | .error e => (.bad e, 0)
  else (.bad .expectedValue, 0)

/-- The tokens of a text after `skip` characters that have been read already. A
fault is the last token. -/
def scanFrom : (skip : Nat) → List Char → List Token
  | _, [] => []
  | skip + 1, _ :: rest => scanFrom skip rest
  | 0, c :: rest =>
      if isBlank c then scanFrom 0 rest
      else
        match readToken c rest with
        | (token, 0) => [token]
        | (token, width + 1) => token :: scanFrom width rest

/-- The tokens of a text. -/
def scan (cs : List Char) : List Token := scanFrom 0 cs

end AnswerSet.Json
