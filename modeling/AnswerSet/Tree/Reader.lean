import AnswerSet.Tree.Json

/-!
# Trees from JSON text

A text is either read as a whole before its value is decoded, or decoded while it
is read. In the second way a value that is complete is decoded at once, so what is
wrong with it is reported before anything wrong with the text after it.
-/

namespace AnswerSet

/-- Why a text that is decoded while it is read gives no trees. -/
inductive StreamError where
  | text (error : Json.ReadError)
  | node (error : Error)
  /-- The text holds something else than an array. -/
  | notSequence (found : Json)

/-- The text shown for an error. -/
def StreamError.message : StreamError → String
  | .text error => error.message
  | .node error => error.message
  | .notSequence found => "invalid type: " ++ found.describe ++ ", expected a sequence"

/-- The value that a token begins. An object is named without its fields. -/
def Json.Token.leading : Json.Token → Except Json.ReadError Json
  | .openArray => .ok (.arr [])
  | .openObject => .ok (.obj [])
  | .null => .ok .null
  | .bool b => .ok (.bool b)
  | .num n => .ok (.num n)
  | .str s => .ok (.str s)
  | .badString e | .bad e => .error e
  | .closeArray | .closeObject | .comma | .colon => .error .expectedValue

namespace Tree

/-- The tree that a text holds, once the text is known to be JSON. -/
def ofText (text : String) : Except Error (Tree Unit) :=
  match Json.parse Json.standardLimit text with
  | .ok v => ofJson v
  | .error e => .error (.invalidArgument (.malformedJson e))

/-- The JSON text of a tree. -/
def toText {α : Type} (t : Tree α) : String := t.toJson.text

/-- Decodes one value. -/
def decode (v : Json) : Except StreamError (Tree Unit) := (ofJson v).mapError .node

/-- The tree that a text holds, decoded before the rest of the text is looked at. -/
def read (text : String) : Except StreamError (Tree Unit) :=
  match (Json.Expecting.value .top).run Json.standardLimit (Json.scan text.toList) with
  | (_, .ok v) => decode v
  | (.finish v, .error e) => do
      let _ ← decode v
      throw (.text e)
  | (_, .error e) => .error (.text e)

/-- The trees of the array that a text holds, each decoded when it is complete. -/
def readAll (text : String) : Except StreamError (List (Tree Unit)) := do
  let tokens := Json.scan text.toList
  let first ← match tokens.head? with
    | some token => token.leading.mapError .text
    | none => throw (.text .endInValue)
  match first with
  | .arr _ =>
      let (state, result) := (Json.Expecting.value .top).run Json.standardLimit tokens
      let trees ← state.items.mapM decode
      match result with
      | .ok _ => return trees
      | .error e => throw (.text e)
  | other => throw (.notSequence other)

end Tree

end AnswerSet
