import AnswerSet.Program
import AnswerSet.Store.Build
import AnswerSet.Store.Compare
import AnswerSet.Store.ListView
import AnswerSet.Store.Text
import AnswerSet.Visit

/-!
# Operations

The operations on a store as data, so that they can be spoken about together. Each is run
in place: it answers or fails, and in both cases it leaves a store behind. Operations that follow
the children of a node need not come back.
-/

namespace AnswerSet

/-- An operation that only looks at a store. The index is the type of the answer. -/
inductive Reading : Type → Type 1 where
  | get (id : NodeId) (a : Attr) : Reading (Value NodeId)
  | kind (id : NodeId) : Reading Kind
  | location? (id : NodeId) : Reading (Option Location)
  | items (id : NodeId) : Reading (List (Attr × Value NodeId))
  | children (id : NodeId) : Reading (List NodeId)
  | openView (τ : Type) [ListElement τ] (id : NodeId) (a : Attr) : Reading (ListView τ)
  | toList {τ : Type} [ListElement τ] (view : ListView τ) : Reading (List τ)
  | length {τ : Type} [ListElement τ] (view : ListView τ) : Reading Nat
  | elementAt {τ : Type} [ListElement τ] (view : ListView τ) (index : Nat) : Reading τ
  | element {τ : Type} [ListElement τ] (view : ListView τ) (index : Nat) : Reading (ElementRef τ)
  | readRef {τ : Type} [ListElement τ] (ref : ElementRef τ) : Reading τ
  | same (a b : NodeId) : Reading Bool
  | compare (a b : NodeId) : Reading Ordering
  | sameValues (v w : Value NodeId) : Reading Bool
  | compareValues (v w : Value NodeId) : Reading Ordering
  | code (id : NodeId) : Reading String
  | inspect (id : NodeId) : Reading String
  | valueText (v : Value NodeId) : Reading String
  | valueInspect (v : Value NodeId) : Reading String
  | programText (statements : List NodeId) : Reading String
  | toJson (id : NodeId) : Reading Json
  | toText (id : NodeId) : Reading String
  | visit {σ : Type} (visitor : NodeId → StateM σ Bool) (id : NodeId) (state : σ) : Reading σ

/-- What a reading answers in a store. -/
def Reading.answer {α : Type} : Reading α → Store → Except Stop α
  | .get id a, s => s.get id a
  | .kind id, s => return (← s.fetch id).kind
  | .location? id, s => return (← s.fetch id).location?
  | .items id, s => return (← s.fetch id).items
  | .children id, s => return s.children id
  | @openView τ _ id a, s => ListView.open? τ s id a
  | @toList _ _ view, s => return view.toList s
  | @length _ _ view, s => return view.length s
  | @elementAt _ _ view index, s => view.elementAt s index
  | @element _ _ view index, s => view.element s index
  | @readRef _ _ ref, s => ref.get s
  | .same a b, s => s.same a b
  | .compare a b, s => s.compare a b
  | .sameValues v w, s => s.sameValues v w
  | .compareValues v w, s => s.compareValues v w
  | .code id, s => s.code id
  | .inspect id, s => s.inspect id
  | .valueText v, s => s.valueText v
  | .valueInspect v, s => s.valueInspect v
  | .programText statements, s => s.programText statements
  | .toJson id, s => s.toJson id
  | .toText id, s => s.toText id
  | .visit visitor id state, s => s.visit visitor id state

/-- Runs a reading. -/
def Reading.run {α : Type} (reading : Reading α) : RunM α := do
  match reading.answer (← MonadState.get) with
  | .ok answer => return answer
  | .error (.failed e) => throw e
  | .error .endless => RunM.endless

/-- A call of an operation with its arguments. The index is the type of the answer. -/
inductive Operation : Type → Type 1 where
  | read {α : Type} (reading : Reading α) : Operation α
  | build (k : Kind) (args : Args k.slots) : Operation NodeId
  | create (k : Kind) (values : List (Value NodeId)) : Operation NodeId
  | set (id : NodeId) (a : Attr) (v : Value NodeId) : Operation Unit
  | update (id : NodeId) (changes : List (Attr × Value NodeId)) : Operation NodeId
  | deepCopy (id : NodeId) : Operation NodeId
  | editNodes {α : Type} (view : ListView NodeId) (change : ListEdit NodeId α) : Operation α
  | editTexts {α : Type} (view : ListView String) (change : ListEdit String α) : Operation α
  | assignNode (ref : ElementRef NodeId) (element : NodeId) : Operation NodeId
  | assignText (ref : ElementRef String) (element : String) : Operation String
  | unpool (id : NodeId) (regions : Regions) : Operation (List NodeId)
  | ofJson (v : Json) : Operation NodeId
  | ofText (text : String) : Operation NodeId

/-- Carries out a call. -/
def Operation.run {α : Type} : Operation α → RunM α
  | .read reading => reading.run
  | .build k args => (k.build args : StateM Store NodeId)
  | .create k values => StoreM.create k values
  | .set id a v => StoreM.set id a v
  | .update id changes => StoreM.update id changes
  | .deepCopy id => RunM.deepCopy id
  | .editNodes view change => view.edit change
  | .editTexts view change => view.edit change
  | .assignNode ref element => ref.set element
  | .assignText ref element => ref.set element
  | .unpool id regions => RunM.unpool id regions
  | .ofJson v => StoreM.ofJson v
  | .ofText text => StoreM.ofText text

/-- Carries out a call in the middle of an action. A failure is an answer like any other. -/
def EditM.call {σ ε α : Type} (op : Operation α) : EditM σ ε (Except Error α) := attempt op.run

end AnswerSet
