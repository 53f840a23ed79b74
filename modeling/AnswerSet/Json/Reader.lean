import AnswerSet.Json.Lexer

/-!
# Reading JSON

A reader consumes one token at a time. Its state is what may come next together
with the containers that are still open, from the innermost outwards. `run`
answers with the value that was read or the first fault, and also with the state
that was reached, so that a caller can use what was complete before a fault.

Arrays and objects may nest at most as deep as a limit given by the caller.
-/

namespace AnswerSet.Json

/-- Where a value stands: at the top, in an array after some items, or in an
object after some fields and its own key. Earlier items are kept in reverse. -/
inductive Context where
  | top
  | item (before : List Json) (outer : Context)
  | field (before : List (String × Json)) (key : String) (outer : Context)

/-- The number of containers around a value. -/
def Context.depth : Context → Nat
  | .top => 0
  | .item _ outer => outer.depth + 1
  | .field _ _ outer => outer.depth + 1

/-- What a reader expects next. -/
inductive Expecting where
  /-- A value. -/
  | value (context : Context)
  /-- The first item of an array, or its end. -/
  | firstItem (outer : Context)
  /-- A comma or the end of an array. -/
  | itemEnd (items : List Json) (outer : Context)
  /-- The item after a comma. -/
  | nextItem (items : List Json) (outer : Context)
  /-- The first key of an object, or its end. -/
  | firstKey (outer : Context)
  /-- A comma or the end of an object. -/
  | fieldEnd (fields : List (String × Json)) (outer : Context)
  /-- The key after a comma. -/
  | nextKey (fields : List (String × Json)) (outer : Context)
  /-- The colon after a key. -/
  | colon (fields : List (String × Json)) (key : String) (outer : Context)
  /-- The end of the text. -/
  | finish (value : Json)

/-- Puts a complete value at its place. -/
def Context.fill : Context → Json → Expecting
  | .top, v => .finish v
  | .item before outer, v => .itemEnd (v :: before) outer
  | .field before key outer, v => .fieldEnd (insertField key v before) outer

/-- Reads the first token of a value. -/
def readValue (limit : Nat) (context : Context) : Token → Except ReadError Expecting
  | .openArray =>
      if context.depth < limit then .ok (.firstItem context) else .error .tooDeep
  | .openObject =>
      if context.depth < limit then .ok (.firstKey context) else .error .tooDeep
  | .null => .ok (context.fill .null)
  | .bool b => .ok (context.fill (.bool b))
  | .num n => .ok (context.fill (.num n))
  | .str s => .ok (context.fill (.str s))
  | .badString e => .error e
  | .bad e => .error e
  | .closeArray | .closeObject | .comma | .colon => .error .expectedValue

/-- Reads a key. -/
def readKey (fields : List (String × Json)) (outer : Context) :
    Token → Except ReadError Expecting
  | .str key => .ok (.colon fields key outer)
  | .badString e => .error e
  | _ => .error .keyNotString

/-- Reads one token. -/
def Expecting.step (limit : Nat) : Expecting → Token → Except ReadError Expecting
  | .value context, t => readValue limit context t
  | .firstItem outer, .closeArray => .ok (outer.fill (.arr []))
  | .firstItem outer, t => readValue limit (.item [] outer) t
  | .itemEnd items outer, .closeArray => .ok (outer.fill (.arr items.reverse))
  | .itemEnd items outer, .comma => .ok (.nextItem items outer)
  | .itemEnd _ _, _ => .error .expectedItemEnd
  | .nextItem _ _, .closeArray => .error .trailingComma
  | .nextItem items outer, t => readValue limit (.item items outer) t
  | .firstKey outer, .closeObject => .ok (outer.fill (.obj []))
  | .firstKey outer, t => readKey [] outer t
  | .fieldEnd fields outer, .closeObject => .ok (outer.fill (.obj fields))
  | .fieldEnd fields outer, .comma => .ok (.nextKey fields outer)
  | .fieldEnd _ _, _ => .error .expectedFieldEnd
  | .nextKey _ _, .closeObject => .error .trailingComma
  | .nextKey fields outer, t => readKey fields outer t
  | .colon fields key outer, .colon => .ok (.value (.field fields key outer))
  | .colon _ _ _, _ => .error .expectedColon
  | .finish _, _ => .error .trailingCharacters

/-- What the end of the text means in each state. -/
def Expecting.close : Expecting → Except ReadError Json
  | .value _ | .nextItem _ _ | .nextKey _ _ => .error .endInValue
  | .firstItem _ | .itemEnd _ _ => .error .endInArray
  | .firstKey _ | .fieldEnd _ _ | .colon _ _ _ => .error .endInObject
  | .finish v => .ok v

/-- Reads tokens up to their end or to the first fault. The state is the one in
which the reader stopped. -/
def Expecting.run (limit : Nat) : Expecting → List Token → Expecting × Except ReadError Json
  | state, [] => (state, state.close)
  | state, t :: ts =>
      match state.step limit t with
      | .ok next => next.run limit ts
      | .error e => (state, .error e)

/-- The items that the outermost container holds, if it is an array. -/
def Context.outermost (inner : List Json) : Context → List Json
  | .top => inner
  | .item before outer => outer.outermost before.reverse
  | .field _ _ outer => outer.outermost []

/-- The complete items of the outermost array. -/
def Expecting.items : Expecting → List Json
  | .value context => context.outermost []
  | .firstItem outer | .firstKey outer => outer.outermost []
  | .itemEnd items outer | .nextItem items outer => outer.outermost items.reverse
  | .fieldEnd _ outer | .nextKey _ outer | .colon _ _ outer => outer.outermost []
  | .finish (.arr items) => items
  | .finish _ => []

/-- How deep values may nest where nothing else is said. -/
def standardLimit : Nat := 127

/-- The value that a text holds. -/
def parse (limit : Nat) (text : String) : Except ReadError Json :=
  ((Expecting.value .top).run limit (scan text.toList)).2

end AnswerSet.Json
