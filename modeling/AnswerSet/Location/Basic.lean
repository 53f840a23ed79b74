/-!
# Source locations

A location is the range between two positions, both included. Locations are
carried along with nodes and never take part in the comparison of nodes; among
themselves they are ordered by their begin and then by their end.
-/

namespace AnswerSet

/-- A place in a file; lines and columns are words of 64 bits. -/
structure Position where
  filename : String
  line : UInt64
  column : UInt64
  deriving DecidableEq, Repr

/-- A range of source text. -/
structure Location where
  first : Position
  last : Position
  deriving DecidableEq, Repr

namespace Position

/-- The position of text that has no file. -/
def default : Position := ⟨"<string>", 1, 1⟩

/-- File names first, then lines, then columns. -/
def compare (p q : Position) : Ordering :=
  (Ord.compare p.filename q.filename).then
    ((Ord.compare p.line q.line).then (Ord.compare p.column q.column))

/-- The file, line and column. -/
def text (p : Position) : String :=
  p.filename ++ ":" ++ toString p.line.toNat ++ ":" ++ toString p.column.toNat

end Position

namespace Location

/-- The location of text that has no file. -/
def default : Location := ⟨.default, .default⟩

/-- A range of columns in one line. -/
def span (filename : String) (line first last : UInt64) : Location :=
  ⟨⟨filename, line, first⟩, ⟨filename, line, last⟩⟩

/-- Begins first, then ends. -/
def compare (a b : Location) : Ordering :=
  (a.first.compare b.first).then (a.last.compare b.last)

/-- The position lies in the range. Only lines and columns are looked at. -/
def contains (l : Location) (p : Position) : Bool :=
  (l.first.line < p.line || (l.first.line == p.line && l.first.column ≤ p.column)) &&
  (p.line < l.last.line || (l.last.line == p.line && p.column ≤ l.last.column))

/-- The begin of the range and as much of its end as differs from the begin. -/
def text (l : Location) : String :=
  l.first.text ++
    if l.first.filename ≠ l.last.filename then "-" ++ l.last.text
    else if l.first.line ≠ l.last.line then
      "-" ++ toString l.last.line.toNat ++ ":" ++ toString l.last.column.toNat
    else if l.first.column ≠ l.last.column then "-" ++ toString l.last.column.toNat
    else ""

end Location

end AnswerSet
