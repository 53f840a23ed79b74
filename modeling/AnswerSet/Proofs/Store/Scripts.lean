import AnswerSet.Proofs.Store.Lists

/-!
# Scripts

Any number of views and references may stand for one attribute, and several clients may
use them in turn. They may all think of plain lists: there is one list for each attribute
of each instance, and every call answers and changes what it would answer and change on
that list.

A script is a sequence of calls in which a call may depend on the answers before it. It
is compared with the same script on plain lists, call by call.
-/

namespace AnswerSet

/-! ## Scripts of calls -/

/-- A view that was opened in the store. -/
structure OpenView (τ : Type) [ListElement τ] (s : Store) extends ListView τ where
  open_eq : ListView.open? τ s owner attr = .ok toListView

/-- Calls one after the other on views that were opened in the store, each of which may
depend on the answers before it. -/
inductive Script (s : Store) (α : Type) : Type 1 where
  | done (answer : α)
  | nodes {β : Type} (view : OpenView NodeId s) (call : ListCall NodeId β) (next : β → Script s α)
  | texts {β : Type} (view : OpenView String s) (call : ListCall String β) (next : β → Script s α)

/-- One list of nodes and one of texts for each attribute of each instance. An attribute
without such a list has the empty one. -/
structure Lists where
  nodes : ListView NodeId → List NodeId
  texts : ListView String → List String

/-- The lists that the attributes hold. -/
def Lists.of (s : Store) : Lists := ⟨fun view => view.toList s, fun view => view.toList s⟩

namespace Script

variable {s : Store} {α β : Type}

/-- Carries out the calls in a store. -/
def run : Script s α → Store → α × Store
  | .done answer, current => (answer, current)
  | .nodes view call next, current =>
      let outcome := call.run view.toListView current
      (next outcome.1).run outcome.2
  | .texts view call next, current =>
      let outcome := call.run view.toListView current
      (next outcome.1).run outcome.2

/-- Carries out the calls on plain lists. -/
def eval : Script s α → Lists → α × Lists
  | .done answer, lists => (answer, lists)
  | .nodes view call next, lists =>
      let outcome := call.eval view.toListView (lists.nodes view.toListView)
      (next outcome.1).eval
        { lists with nodes := Function.update lists.nodes view.toListView outcome.2 }
  | .texts view call next, lists =>
      let outcome := call.eval view.toListView (lists.texts view.toListView)
      (next outcome.1).eval
        { lists with texts := Function.update lists.texts view.toListView outcome.2 }

/-- Runs one script and then the one that its answer chooses. -/
def bind : Script s α → (α → Script s β) → Script s β
  | .done answer, f => f answer
  | .nodes view call next, f => .nodes view call fun answer => (next answer).bind f
  | .texts view call next, f => .texts view call fun answer => (next answer).bind f

/-- Goes through elements one after the other and answers those it has met. -/
def each {τ : Type} (body : τ → Script s Unit) : List τ → Script s (List τ)
  | [] => .done []
  | e :: es => (body e).bind fun _ => (each body es).bind fun met => .done (e :: met)

/-- Iterates over the elements of a view. The body may change the list meanwhile. -/
def forEachNode (view : OpenView NodeId s) (body : NodeId → Script s Unit) :
    Script s (List NodeId) :=
  .nodes view .toList fun elements => each body elements

def forEachText (view : OpenView String s) (body : String → Script s Unit) :
    Script s (List String) :=
  .texts view .toList fun elements => each body elements

theorem run_bind (script : Script s α) (f : α → Script s β) (current : Store) :
    (script.bind f).run current = (f (script.run current).1).run (script.run current).2 := by
  induction script generalizing current with
  | done answer => rfl
  | nodes view call next ih => exact ih _ _
  | texts view call next ih => exact ih _ _

/-- A loop meets all the elements it was given, whatever its body does. -/
theorem run_each {τ : Type} (body : τ → Script s Unit) (elements : List τ) (current : Store) :
    ((each body elements).run current).1 = elements := by
  induction elements generalizing current with
  | nil => rfl
  | cons e es ih =>
      rw [each, run_bind, run_bind]
      exact congrArg (e :: ·) (ih _)

end Script

namespace Store

/-- The second store has the same instances with the same attributes as the first, and
only attributes that hold lists may have other values. -/
structure DiffersInLists (s s' : Store) : Prop where
  size_eq : s'.size = s.size
  kind_eq : ∀ x, (s'.node? x).map Node.kind = (s.node? x).map Node.kind
  get_eq : ∀ x a, (∀ view, ListView.open? NodeId s x a ≠ .ok view) →
    (∀ view, ListView.open? String s x a ≠ .ok view) → s'.get x a = s.get x a

variable {s s' s'' : Store}

theorem DiffersInLists.refl (s : Store) : s.DiffersInLists s :=
  ⟨rfl, fun _ => rfl, fun _ _ _ _ => rfl⟩

theorem DiffersInLists.write {x : NodeId} {a : Attr} {v : Value NodeId}
    (h : s.DiffersInLists s') (hwrites : s'.WritesOnly s'' x a v)
    (hlist : (∃ view, ListView.open? NodeId s x a = .ok view) ∨
      ∃ view, ListView.open? String s x a = .ok view) : s.DiffersInLists s'' := by
  refine ⟨hwrites.size_eq.trans h.size_eq, fun y => (hwrites.kind_eq y).trans (h.kind_eq y), ?_⟩
  intro y b hnodes htexts
  have hne : ¬(y = x ∧ b = a) := by
    rintro ⟨rfl, rfl⟩
    rcases hlist with ⟨view, hopen⟩ | ⟨view, hopen⟩
    · exact hnodes view hopen
    · exact htexts view hopen
  exact (hwrites.get_of_ne hne).trans (h.get_eq y b hnodes htexts)

end Store

/-! ## Runs of scripts -/

namespace ListView

variable {τ υ : Type} [ListElement τ] [ListElement υ] {view : ListView τ} {s s' : Store}
  {list : List τ}

theorem toList_congr (h : s'.get view.owner view.attr = s.get view.owner view.attr) :
    view.toList s' = view.toList s := by
  rw [toList, toList, h]

theorem open?_congr {x : NodeId} {a : Attr}
    (h : (s'.node? x).map Node.kind = (s.node? x).map Node.kind) :
    open? τ s' x a = open? τ s x a := by
  cases hn : s.node? x with
  | none =>
      rw [hn, Option.map_none, Option.map_eq_none_iff] at h
      simp [open?, Store.fetch, hn, h, bind, Except.bind]
  | some n =>
      rw [hn, Option.map_some, Option.map_eq_some_iff] at h
      obtain ⟨m, hm, hkind⟩ := h
      simp [open?, Store.fetch, hn, hm, hkind, bind, Except.bind]

/-- A list of its elements may always be written where a view was opened. -/
theorem valid_of_writesOnly [LawfulListElement τ]
    (hopen : open? τ s view.owner view.attr = .ok view) (hs : s.Valid)
    (h : s.WritesOnly s' view.owner view.attr (ListElement.toValue list)) : s'.Valid := by
  obtain ⟨-, n, i, slot, hn, hslot, hshape⟩ := open?_eq_ok_iff.1 hopen
  obtain ⟨hindex, hfound⟩ := Kind.slot?_eq_some_iff.1 hslot
  obtain ⟨m, j, hm, hj, hwritten⟩ := h.slot
  obtain rfl : n = m := Option.some.inj (hn.symm.trans hm)
  obtain rfl : i = j := Option.some.inj (hindex.symm.trans hj)
  intro x k hk
  by_cases hx : x = view.owner
  · subst hx
    rw [hwritten, Option.some.injEq] at hk
    subst hk
    exact Kind.Admits.set (hs hn) hfound (LawfulListElement.fits_toValue hshape list)
  · exact hs ((h.others x hx).symm.trans hk)

theorem get_of_writesOnly_of_ne
    (h : s.WritesOnly s' view.owner view.attr (ListElement.toValue list)) {x : NodeId} {a : Attr}
    (hne : (⟨x, a⟩ : ListView τ) ≠ view) : s'.get x a = s.get x a := by
  apply h.get_of_ne
  rintro ⟨rfl, rfl⟩
  exact hne rfl

/-- A write through a view changes the list of this view and no other list. -/
theorem toList_eq_update [DecidableEq τ]
    (h : s.WritesOnly s' view.owner view.attr (ListElement.toValue list)) :
    (fun w : ListView τ => w.toList s') = Function.update (fun w => w.toList s) view list := by
  funext w
  by_cases hw : w = view
  · rw [hw, Function.update_self]
    exact toList_of_get_eq h.read
  · rw [Function.update_of_ne hw]
    exact toList_congr (get_of_writesOnly_of_ne h hw)

/-- Lists of elements of another type are not touched, not even where the write is. -/
theorem toList_eq_of_foreign (hlive : view.Live s)
    (h : s.WritesOnly s' view.owner view.attr (ListElement.toValue list))
    (hforeign : ∀ l : List τ,
      (ListElement.ofValue? (ListElement.toValue l) : Option (List υ)) = none) :
    (fun w : ListView υ => w.toList s') = fun w => w.toList s := by
  funext w
  by_cases hw : (⟨w.owner, w.attr⟩ : ListView τ) = view
  · subst hw
    rw [toList, toList, h.read, hlive.get_eq]
    simp only [hforeign]
  · exact toList_congr (get_of_writesOnly_of_ne h hw)

end ListView

theorem Lists.of_write_nodes {view : ListView NodeId} {s s' : Store} {list : List NodeId}
    (hlive : view.Live s) (h : s.WritesOnly s' view.owner view.attr (.nodes list)) :
    Lists.of s' = { Lists.of s with nodes := Function.update (Lists.of s).nodes view list } :=
  congrArg₂ Lists.mk (ListView.toList_eq_update h)
    (ListView.toList_eq_of_foreign hlive h fun _ => rfl)

theorem Lists.of_write_texts {view : ListView String} {s s' : Store} {list : List String}
    (hlive : view.Live s) (h : s.WritesOnly s' view.owner view.attr (.texts list)) :
    Lists.of s' = { Lists.of s with texts := Function.update (Lists.of s).texts view list } :=
  congrArg₂ Lists.mk (ListView.toList_eq_of_foreign hlive h fun _ => rfl)
    (ListView.toList_eq_update h)

namespace Script

variable {s current : Store} {α : Type}

/-- The second store may be one that a script has reached from the first. -/
structure Reaches (s current : Store) : Prop where
  valid : current.Valid
  differs : s.DiffersInLists current

namespace Reaches

variable {τ : Type} [ListElement τ] [LawfulListElement τ]

omit [LawfulListElement τ] in
theorem open? (h : Reaches s current) (view : OpenView τ s) :
    ListView.open? τ current view.owner view.attr = .ok view.toListView :=
  (ListView.open?_congr (h.differs.kind_eq view.owner)).trans view.open_eq

theorem live (h : Reaches s current) (view : OpenView τ s) : view.toListView.Live current :=
  ListView.live_of_open? (h.open? view) (.refl current) h.valid

theorem call (h : Reaches s current) (view : OpenView τ s) (call : ListCall τ α)
    (hlist : (∃ view', ListView.open? NodeId s view.owner view.attr = .ok view') ∨
      ∃ view', ListView.open? String s view.owner view.attr = .ok view') :
    Reaches s (call.run view.toListView current).2 := by
  have hwrites := (call.mirrors (h.open? view) h.valid).writes
  exact ⟨ListView.valid_of_writesOnly (h.open? view) h.valid hwrites, h.differs.write hwrites hlist⟩

end Reaches

/-- Every script does in the store what it does on plain lists. -/
theorem run_eq_eval (script : Script s α) (h : Reaches s current) :
    (script.run current).1 = (script.eval (.of current)).1 ∧
      Lists.of (script.run current).2 = (script.eval (.of current)).2 ∧
      Reaches s (script.run current).2 := by
  induction script generalizing current with
  | done answer => exact ⟨rfl, rfl, h⟩
  | nodes view call next ih =>
      have hm := call.mirrors (h.open? view) h.valid
      have hnext := ih (call.run view.toListView current).1
        (h.call view call (.inl ⟨_, view.open_eq⟩))
      rw [Lists.of_write_nodes (h.live view) hm.writes, hm.answer] at hnext
      rw [run, eval, hm.answer]
      exact hnext
  | texts view call next ih =>
      have hm := call.mirrors (h.open? view) h.valid
      have hnext := ih (call.run view.toListView current).1
        (h.call view call (.inr ⟨_, view.open_eq⟩))
      rw [Lists.of_write_texts (h.live view) hm.writes, hm.answer] at hnext
      rw [run, eval, hm.answer]
      exact hnext

/-- What may be relied on when a script has been run in the store. -/
structure Refines (script : Script s α) : Prop where
  answer : (script.run s).1 = (script.eval (.of s)).1
  lists : Lists.of (script.run s).2 = (script.eval (.of s)).2
  /-- The attributes hold the lists. -/
  nodeValues : ∀ view : OpenView NodeId s, (script.run s).2.get view.owner view.attr =
    .ok (.nodes ((script.eval (.of s)).2.nodes view.toListView))
  textValues : ∀ view : OpenView String s, (script.run s).2.get view.owner view.attr =
    .ok (.texts ((script.eval (.of s)).2.texts view.toListView))
  /-- Besides the lists nothing has changed, and so the same views can be opened. -/
  differs : s.DiffersInLists (script.run s).2
  opens : ∀ (τ : Type) [ListElement τ] (x : NodeId) (a : Attr),
    ListView.open? τ (script.run s).2 x a = ListView.open? τ s x a
  nodeViews : ∀ view : OpenView NodeId s, view.toListView.Contract (script.run s).2
  textViews : ∀ view : OpenView String s, view.toListView.Contract (script.run s).2
  /-- Loops meet the elements that were there when they began. -/
  nodeLoops : ∀ (view : OpenView NodeId s) (body : NodeId → Script s Unit),
    ((forEachNode view body).run (script.run s).2).1 = view.toListView.toList (script.run s).2
  textLoops : ∀ (view : OpenView String s) (body : String → Script s Unit),
    ((forEachText view body).run (script.run s).2).1 = view.toListView.toList (script.run s).2

end Script

/-- Views, references and attributes as a whole can be used as if each attribute had one plain
list. -/
theorem list_views_refine_lists {s : Store} (hs : s.Valid) {α : Type} (script : Script s α) :
    script.Refines := by
  obtain ⟨hanswer, hlists, hreach⟩ := script.run_eq_eval ⟨hs, .refl s⟩
  exact {
    answer := hanswer
    lists := hlists
    nodeValues := fun view => hlists ▸ (hreach.live view).get_eq
    textValues := fun view => hlists ▸ (hreach.live view).get_eq
    differs := hreach.differs
    opens := fun τ _ x a => ListView.open?_congr (hreach.differs.kind_eq x)
    nodeViews := fun view => ListView.contract_of_open? (hreach.open? view) hreach.valid
    textViews := fun view => ListView.contract_of_open? (hreach.open? view) hreach.valid
    nodeLoops := fun view body => Script.run_each body _ _
    textLoops := fun view body => Script.run_each body _ _ }

/-- The second argument of `f(1,1)` is taken out and put back. In between a reference to it is
stale, and a text is refused in place of the arguments. -/
theorem list_views_refine_lists_sharedTerm :
    ∃ view : OpenView NodeId Store.sharedTerm,
      let script : Script Store.sharedTerm (List (Except Error NodeId)) :=
        .nodes view (.remove 1) fun removed =>
        .nodes view (.readRef 1) fun stale =>
        .nodes view (.setValue (.text "x")) fun _ =>
        .nodes view (.push ⟨0⟩) fun _ =>
        .nodes view (.readRef 1) fun found => .done [removed, stale, found]
      Store.sharedTerm.Valid ∧ script.Refines ∧
        (script.run Store.sharedTerm).1 =
          [.ok ⟨0⟩, .error (.invalidNode (.stale 1 .arguments)), .ok ⟨0⟩] := by
  have hs : Store.sharedTerm.WellFormed := .of_inOrder (by decide)
  refine ⟨⟨⟨⟨1⟩, .arguments⟩, rfl⟩, hs.valid, list_views_refine_lists hs.valid _, ?_⟩
  exact (list_views_refine_lists hs.valid _).answer

end AnswerSet
