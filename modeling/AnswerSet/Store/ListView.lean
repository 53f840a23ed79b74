import AnswerSet.Store.Unfold

/-!
# List views

A view names a list-valued attribute of an instance. It holds no elements: every
operation reads or writes the instance, so all views of one attribute see each
other's changes. An element reference names a place in such a list and is resolved
anew at each access; it fails while the list is too short.

Edits work on the list in place, so an edit that fails leaves a list behind as well.
-/

namespace AnswerSet

/-- The edits of a list. The index is the type of the answer. -/
inductive ListEdit (ε : Type) : Type → Type where
  /-- Replaces an element and answers the one before. -/
  | set (index : Nat) (element : ε) : ListEdit ε ε
  /-- Puts an element before the one at `index`, or at the end. -/
  | insert (index : Nat) (element : ε) : ListEdit ε Unit
  /-- Takes an element out and answers it. -/
  | remove (index : Nat) : ListEdit ε ε
  /-- Puts an element at the end. -/
  | push (element : ε) : ListEdit ε Unit
  /-- Takes the last element out, if there is one. -/
  | pop : ListEdit ε (Option ε)
  /-- Puts elements at the end. -/
  | extend (elements : List ε) : ListEdit ε Unit
  /-- Takes all elements out and answers them. -/
  | clear : ListEdit ε (List ε)

/-- What an edit answers or why it fails, with the list after it. -/
def ListEdit.run {ε α : Type} : ListEdit ε α → List ε → Except Error α × List ε
  | .set index element, list =>
      match list[index]? with
      | some previous => (.ok previous, list.set index element)
      | none => (.error (.outOfBounds index list.length), list)
  | .insert index element, list =>
      if list.length < index then (.error (.outOfBounds index list.length), list)
      else (.ok (), list.insertIdx index element)
  | .remove index, list =>
      match list[index]? with
      | some removed => (.ok removed, list.eraseIdx index)
      | none => (.error (.outOfBounds index list.length), list)
  | .push element, list => (.ok (), list ++ [element])
  | .pop, list => (.ok list.getLast?, list.dropLast)
  | .extend elements, list => (.ok (), list ++ elements)
  | .clear, list => (.ok list, [])

/-- The elements of a list-valued attribute. -/
class ListElement (ε : Type) where
  /-- The shape of values that hold such lists. -/
  shape : Shape
  /-- The list in a value. -/
  ofValue? : Value NodeId → Option (List ε)
  /-- The value that holds a list. -/
  toValue : List ε → Value NodeId
  ofValue?_toValue : ∀ list, ofValue? (toValue list) = some list

instance : ListElement NodeId where
  shape := .nodes
  ofValue? := Value.nodes?
  toValue := .nodes
  ofValue?_toValue _ := rfl

instance : ListElement String where
  shape := .texts
  ofValue? := Value.texts?
  toValue := .texts
  ofValue?_toValue _ := rfl

/-- A list-valued attribute of an instance. -/
structure ListView (ε : Type) where
  owner : NodeId
  attr : Attr
  deriving DecidableEq, Repr

/-- A place in a list-valued attribute. -/
structure ElementRef (ε : Type) where
  view : ListView ε
  index : Nat
  deriving DecidableEq, Repr

namespace ListView

variable {ε : Type} [ListElement ε]

/-- The view of an attribute, if the attribute holds such a list. -/
def open? (ε : Type) [ListElement ε] (s : Store) (owner : NodeId) (attr : Attr) :
    Except Error (ListView ε) := do
  let n ← s.fetch owner
  let (_, slot) ← n.kind.locate attr
  if slot.shape ≠ ListElement.shape ε then
    throw (.typeMismatch (ListElement.shape ε) slot.shape)
  return ⟨owner, attr⟩

/-- The elements at present. -/
def toList (view : ListView ε) (s : Store) : List ε :=
  match s.get view.owner view.attr with
  | .ok v => (ListElement.ofValue? v).getD []
  | .error _ => []

/-- Applies an edit to the list in place. -/
def edit {α : Type} (view : ListView ε) (change : ListEdit ε α) : StoreM α := do
  let n ← StoreM.fetch view.owner
  let v ← n.get view.attr
  match ListElement.ofValue? v with
  | none => throw (v.mismatch (ListElement.shape ε))
  | some list =>
      let (answer, list) := change.run list
      modify fun s => s.put view.owner (n.overwrite view.attr (ListElement.toValue list))
      answer

/-- The number of elements. -/
def length (view : ListView ε) (s : Store) : Nat := (view.toList s).length

/-- The element at a place, if there is one. -/
def get? (view : ListView ε) (s : Store) (index : Nat) : Option ε := (view.toList s)[index]?

/-- There are no elements. -/
def isEmpty (view : ListView ε) (s : Store) : Bool := view.length s == 0

/-- The element at a place that the list must have. -/
def elementAt (view : ListView ε) (s : Store) (index : Nat) : Except Error ε :=
  match view.get? s index with
  | some e => .ok e
  | none => .error (.outOfBounds index (view.length s))

def first? (view : ListView ε) (s : Store) : Option ε := view.get? s 0

def last? (view : ListView ε) (s : Store) : Option ε := (view.toList s).getLast?

/-- A reference to an element that is there now. -/
def element (view : ListView ε) (s : Store) (index : Nat) : Except Error (ElementRef ε) := do
  let _ ← view.elementAt s index
  return ⟨view, index⟩

end ListView

namespace ElementRef

variable {ε : Type} [ListElement ε]

/-- The error of a reference whose element is gone. -/
def stale (ref : ElementRef ε) : Error := .invalidNode (.stale ref.index ref.view.attr)

/-- What an error of the list means for the reference. -/
def explain (ref : ElementRef ε) : Error → Error
  | .outOfBounds _ _ => ref.stale
  | e => e

/-- The element at present. -/
def get (ref : ElementRef ε) (s : Store) : Except Error ε :=
  match ref.view.get? s ref.index with
  | some e => .ok e
  | none => .error ref.stale

/-- Replaces the element and answers the one before. -/
def set (ref : ElementRef ε) (element : ε) : StoreM ε :=
  (ref.view.edit (.set ref.index element)).adapt ref.explain

end ElementRef

end AnswerSet
