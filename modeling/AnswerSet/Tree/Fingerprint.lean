import AnswerSet.Tree.Order

/-!
# Fingerprints

What a tree feeds to a hash function, as a sequence of words. The words depend on
exactly what equality looks at, so equal trees have equal fingerprints whatever
the hash function is.
-/

namespace AnswerSet

/-- One unit fed to a hash function. -/
inductive Word where
  | tag (n : Nat)
  | int (n : Int32)
  | flag (b : Bool)
  | text (s : String)
  | length (n : Nat)
  deriving DecidableEq, Repr

mutual

/-- The words of a symbol. -/
def Symbol.words : Symbol → List Word
  | .infimum => [.tag 0]
  | .number n => [.tag 1, .int n]
  | .string s => [.tag 2, .text s]
  | .function name arguments positive =>
      .tag 3 :: .text name :: .length arguments.length ::
        (Symbol.wordsAll arguments ++ [.flag positive])
  | .supremum => [.tag 4]

/-- The words of symbols in order. -/
def Symbol.wordsAll : List Symbol → List Word
  | [] => []
  | a :: as => a.words ++ Symbol.wordsAll as

end

/-- The words of a value whose children are given by theirs. Locations, which
equality of nodes leaves out, give their tag only. -/
def Value.words (v : Value (List Word)) : List Word :=
  .tag v.shape.ctorIdx ::
    match v with
    | .int n => [.int n]
    | .symbol s => s.words
    | .location _ => []
    | .text s => [.text s]
    | .node child => child
    | .optional none => [.tag 0]
    | .optional (some child) => .tag 1 :: child
    | .texts items => .length items.length :: items.map .text
    | .nodes children => .length children.length :: children.flatten

namespace Tree

variable {α β : Type}

/-- The words of a tree. -/
def fingerprint : Tree α → List Word :=
  fold fun _ k vs => .tag k.ctorIdx :: (structural vs).flatMap Value.words

/-- The trees have one entry in a hash table: their fingerprints agree, and they
are equal. -/
def sameEntry (shortcut : α → β → Bool) (t : Tree α) (u : Tree β) : Bool :=
  t.fingerprint == u.fingerprint && t.sameWith shortcut u

end Tree

end AnswerSet
