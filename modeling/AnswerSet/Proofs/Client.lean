import AnswerSet.Proofs.Store.Unchecked
import Mathlib.Data.Set.Insert

/-!
# Clients

A client is a program that changes the store through the operations of the library
only. It may call them in any order, go on after a failure or give up, keep a state of
its own, look at the whole store, and hand clients to the transformations as actions
on nodes. So whole-tree transformations nest without a limit, and an action may write to the
very nodes that are being transformed. A client may also bring a transformer of its own, which
calls itself for whatever nodes it likes.

Whatever a client does, the store evolves. Starting from the empty store every instance
therefore follows the schema at all times, although most operations check nothing:
reading a slot always finds a value of its type, a view that was opened once always
finds its list, and the values of an instance pass the check of its kind again.
-/

namespace AnswerSet

/-! ## Operations -/

/-- A call in a valid store evolves it, whether it succeeds or fails. -/
theorem Operation.evolution_governs {α : Type} (op : Operation α) :
    Store.evolution.Governs op.run := by
  cases op with
  | read reading =>
      intro s _ s' _ hexec
      exact Reading.eq_of_exec_run hexec ▸ .refl s
  | build k args =>
      intro s _ _ _ hexec
      cases hexec
      exact .alloc s (k.admits_values args)
  | create k values =>
      refine Discipline.governs_of_outcome (StoreM.atomic_create k values) fun s _ _ _ h => ?_
      obtain ⟨hvalues, h⟩ := Store.create_eq_ok_iff.1 h
      cases h
      exact .alloc s hvalues
  | set id a v =>
      exact Discipline.governs_of_outcome (StoreM.atomic_set id a v) fun s _ _ _ h =>
        .set (Store.set_eq_ok_of_outcome h)
  | update id changes =>
      exact Discipline.governs_of_outcome (StoreM.atomic_update id changes) fun s _ _ hs h =>
        .update h hs
  | deepCopy id =>
      exact Discipline.governs_unfolding fun t s hs ht =>
        (Tree.evolving_plant (hs.unfolding? ht) s hs).1
  | editNodes view change =>
      intro s _ _ hs hexec
      exact ListView.evolves_of_edit hs (Option.some.inj hexec)
  | editTexts view change =>
      intro s _ _ hs hexec
      exact ListView.evolves_of_edit hs (Option.some.inj hexec)
  | assignNode ref element =>
      intro s _ _ hs hexec
      exact ElementRef.evolves_of_set hs (Option.some.inj hexec)
  | assignText ref element =>
      intro s _ _ hs hexec
      exact ElementRef.evolves_of_set hs (Option.some.inj hexec)
  | unpool id regions =>
      exact Discipline.governs_unfolding fun t s hs ht =>
        (Tree.evolving_unpool (hs.unfolding? ht) regions s hs).1
  | ofJson v =>
      refine Discipline.governs_of_outcome (StoreM.atomic_ofJson v) fun s _ _ hs h => ?_
      rw [← Store.ofJson, Store.ofJson_eq] at h
      obtain ⟨t, ht, h⟩ := bind_eq_ok_iff.1 h
      obtain rfl := congrArg Prod.snd (Except.ok.inj h)
      exact (Tree.evolving_plant (Tree.valid_of_ofJson v ht) s hs).1
  | ofText text =>
      refine Discipline.governs_of_outcome (StoreM.atomic_ofText text) fun s _ _ hs h => ?_
      rw [← Store.ofText, Store.ofText_eq] at h
      obtain ⟨t, ht, h⟩ := bind_eq_ok_iff.1 h
      obtain rfl := congrArg Prod.snd (Except.ok.inj h)
      exact (Tree.evolving_plant (Tree.valid_of_ofText ht) s hs).1

/-! ## Programs of clients -/

/-- Sets of actions on nodes. -/
abbrev Actions (σ ε : Type) := Set (NodeId → EditM σ ε NodeId)

/-- The action changes the store through the operations of the library and through actions on
nodes that are known to do so. -/
inductive UsesLibrary {σ ε : Type} : Actions σ ε → {α : Type} → EditM σ ε α → Prop where
  | pure {known : Actions σ ε} {α : Type} (a : α) : UsesLibrary known (pure a)
  | bind {known : Actions σ ε} {α β : Type} {x : EditM σ ε α} {f : α → EditM σ ε β}
      (hx : UsesLibrary known x) (hf : ∀ a, UsesLibrary known (f a)) : UsesLibrary known (x >>= f)
  | fail {known : Actions σ ε} {α : Type} (e : ε) : UsesLibrary known (throw e : EditM σ ε α)
  | recover {known : Actions σ ε} {α : Type} {x : EditM σ ε α} {handler : ε → EditM σ ε α}
      (hx : UsesLibrary known x) (hhandler : ∀ e, UsesLibrary known (handler e)) :
      UsesLibrary known (tryCatch x handler)
  | own {known : Actions σ ε} {α : Type} (step : σ → α × σ) :
      UsesLibrary known (modifyGetThe σ step : EditM σ ε α)
  | observe {known : Actions σ ε} : UsesLibrary known EditM.store
  | call {known : Actions σ ε} {α : Type} (op : Operation α) : UsesLibrary known (EditM.call op)
  | known {known : Actions σ ε} {f : NodeId → EditM σ ε NodeId} (hf : f ∈ known) (id : NodeId) :
      UsesLibrary known (f id)
  | transformChildren {known : Actions σ ε} {f : NodeId → EditM σ ε NodeId}
      (hf : ∀ id, UsesLibrary known (f id)) (id : NodeId) :
      UsesLibrary known (transformChildren f id)
  /-- A transformer may use its calls to itself like an action that is known. -/
  | transformer {known : Actions σ ε} {T : Transformer σ ε}
      (hT : ∀ self id, UsesLibrary (insert self known) (T.transform self id)) (id : NodeId) :
      UsesLibrary known (T.run id)

namespace UsesLibrary

variable {σ ε α : Type} {known known' : Actions σ ε} {action : EditM σ ε α}

theorem weaken (h : UsesLibrary known action) (hknown : known ⊆ known') :
    UsesLibrary known' action := by
  induction h generalizing known' with
  | pure a => exact .pure a
  | bind _ _ ihx ihf => exact .bind (ihx hknown) fun a => ihf a hknown
  | fail e => exact .fail e
  | recover _ _ ihx ihhandler => exact .recover (ihx hknown) fun e => ihhandler e hknown
  | own step => exact .own step
  | observe => exact .observe
  | call op => exact .call op
  | known hf id => exact .known (hknown hf) id
  | transformChildren _ id ih => exact .transformChildren (fun id => ih id hknown) id
  | transformer _ id ih =>
      exact .transformer (fun self id => ih self id (Set.insert_subset_insert hknown)) id

/-- An action that uses the library evolves the store, however it ends. -/
theorem evolving (h : UsesLibrary known action)
    (hknown : ∀ f ∈ known, ∀ id, EditM.evolving.Holds (f id) fun _ => True) :
    EditM.evolving.Holds action fun _ => True := by
  induction h with
  | pure a => exact EditM.evolving.holds_pure trivial
  | bind _ _ ihx ihf => exact EditM.evolving.holds_bind (ihx hknown) fun a _ => ihf a hknown
  | fail e => exact Discipline.holds_throw e
  | recover _ _ ihx ihhandler =>
      exact Discipline.holds_tryCatch (ihx hknown) fun e => ihhandler e hknown
  | own step => exact Discipline.holds_own step
  | observe => exact Discipline.holds_store
  | call op => exact Discipline.holds_attempt op.evolution_governs
  | known hf id => exact hknown _ hf id
  | transformChildren _ id ih => exact evolving_transformChildren (fun id => ih id hknown) id
  | transformer _ id ih =>
      refine Discipline.holds_transformer (fun self hself id => ih self id ?_) id
      rintro f (rfl | hf)
      · exact hself
      · exact hknown f hf

end UsesLibrary

/-- The action changes the store through the operations of the library only. -/
def Client {σ ε α : Type} (action : EditM σ ε α) : Prop := UsesLibrary ∅ action

namespace Client

variable {σ ε α : Type}

/-- A client evolves the store, however it ends. -/
theorem evolving {action : EditM σ ε α} (h : Client action) :
    EditM.evolving.Holds action fun _ => True :=
  UsesLibrary.evolving h fun _ hf => absurd hf (Set.notMem_empty _)

theorem transformBottomUp {f : NodeId → EditM σ ε NodeId} (hf : ∀ id, Client (f id)) (id : NodeId) :
    Client (transformBottomUp f id) :=
  .transformer (fun _ id => .bind (.transformChildren (.known (Set.mem_insert _ _)) id)
    fun rebuilt => (hf rebuilt).weaken (Set.empty_subset _)) id

theorem transformTopDown {g : NodeId → EditM σ ε (Option NodeId)} (hg : ∀ id, Client (g id))
    (id : NodeId) : Client (transformTopDown g id) :=
  .transformer (fun _ id => .bind ((hg id).weaken (Set.empty_subset _)) fun answer => by
    cases answer with
    | some replacement => exact .pure replacement
    | none => exact .transformChildren (.known (Set.mem_insert _ _)) id) id

end Client

/-! ## What a client may rely on -/

/-- What holds of a store that a client has made from another one. -/
structure Store.SchemaKept (s s' : Store) : Prop where
  /-- Whatever was added passes the check of its kind, and whatever was written fits
  its slot. -/
  evolves : s.Evolves s'
  /-- An instance has one value per slot. -/
  arity : ∀ id n, s'.node? id = some n → n.values.length = n.kind.slots.length
  /-- Every slot is in range, is found by its attribute and holds a value of its type. -/
  typed : ∀ id n (i : Nat) (slot : Slot), s'.node? id = some n → n.kind.slots[i]? = some slot →
    ∃ v, n.values[i]? = some v ∧ s'.get id slot.attr = .ok v ∧ v.shape = slot.shape ∧
      v.inDomain slot.domain = true
  /-- The items are the attributes of the schema with values of their shapes. -/
  items : ∀ id n, s'.node? id = some n → n.items.map Prod.fst = n.kind.attrs ∧
    n.items.map (fun item => item.2.shape) = n.kind.slots.map Slot.shape
  /-- An instance can be created anew from its kind and values. -/
  create : ∀ id n, s'.node? id = some n →
    s'.create n.kind n.values = .ok ((Store.alloc n).run s')
  /-- A view that was opened finds its list, and an edit is a plain write of the slot. -/
  nodeView : ∀ owner a view, ListView.open? NodeId s owner a = .ok view → view.Live s'
  textView : ∀ owner a view, ListView.open? String s owner a = .ok view → view.Live s'

theorem Store.SchemaKept.of_evolves {s s' : Store} (h : s.Evolves s') (hs : s.Valid) :
    s.SchemaKept s' where
  evolves := h
  arity _ _ hn := (h.valid hs hn).length_eq.symm
  typed id n i slot hn hslot := by
    obtain ⟨v, hv, hget, hfits⟩ := (h.valid hs hn).exists_get (Kind.slot?_of_getElem? hslot)
    have hread : s'.get id slot.attr = .ok v :=
      bind_eq_ok_iff.2 ⟨n, Store.fetch_eq_ok_iff.2 hn, hget⟩
    exact ⟨v, hv, hread, Value.fits_iff.1 hfits⟩
  items _ _ hn := ⟨(h.valid hs hn).items_attrs, (h.valid hs hn).items_shapes⟩
  create _ _ hn := Store.create_eq_ok_iff.2 ⟨h.valid hs hn, rfl⟩
  nodeView _ _ _ hopen := ListView.live_of_open? hopen h (h.valid hs)
  textView _ _ _ hopen := ListView.live_of_open? hopen h (h.valid hs)

/-- Clients that run one after the other from the empty store on, each to its end or to its
failure, keep every instance in the schema. -/
theorem client_runs_keep_schema {σ σ' ε ε' α β : Type} {earlier : EditM σ ε α}
    {later : EditM σ' ε' β} (hearlier : Client earlier) (hlater : Client later) {state₀ state₁ : σ}
    {state₀' state₁' : σ'} {answer : Except ε α} {answer' : Except ε' β} {s s' : Store}
    (hs : earlier.exec state₀ .empty = some (answer, state₁, s))
    (hs' : later.exec state₀' s = some (answer', state₁', s')) :
    Store.empty.SchemaKept s' ∧ s.SchemaKept s' := by
  have hfirst : Store.empty.Evolves s := (hearlier.evolving Store.valid_empty hs).1
  have hvalid := hfirst.valid Store.valid_empty
  have hsecond : s.Evolves s' := (hlater.evolving hvalid hs').1
  exact ⟨.of_evolves (hfirst.trans hsecond) Store.valid_empty, .of_evolves hsecond hvalid⟩

/-! ## A rewrite within a rewrite -/

/-- `f(1,…,1)`, where all arguments are one instance. -/
def Store.repeatedTerm (count : Nat) : Store :=
  ⟨#[⟨.symbolicTerm, [.location .default, .symbol (.number 1)]⟩,
    ⟨.function, [.location .default, .text "f", .nodes (List.replicate count ⟨0⟩), .int 0]⟩]⟩

/-- Gives `f` one more argument, whatever node it is called for. -/
def addArgument (id : NodeId) : EditM Unit Empty NodeId := do
  let _ ← EditM.call (.editNodes ⟨⟨1⟩, .arguments⟩ (.push ⟨0⟩))
  return id

theorem exec_addArgument (id : NodeId) (count : Nat) :
    (addArgument id).exec () (.repeatedTerm count) =
      some (.ok id, (), .repeatedTerm (count + 1)) := by
  have hput : (Store.repeatedTerm count).put ⟨1⟩ ⟨.function, [.location .default, .text "f",
      .nodes (List.replicate count ⟨0⟩ ++ [⟨0⟩]), .int 0]⟩ = .repeatedTerm (count + 1) := by
    rw [← List.replicate_succ']
    rfl
  rw [← hput]
  rfl

/-- As many arguments are added as there are at the beginning. -/
theorem exec_transformChildren_repeatedTerm {f : NodeId → EditM Unit Empty NodeId}
    (hf : ∀ count, (f ⟨0⟩).exec () (.repeatedTerm count) =
      some (.ok ⟨0⟩, (), .repeatedTerm (count + 1))) (count : Nat) :
    (transformChildren f ⟨1⟩).exec () (.repeatedTerm count) =
      some (.ok ⟨1⟩, (), .repeatedTerm (count + count)) := by
  have hlist (todo : Nat) : ∀ count, ((List.replicate todo ⟨0⟩).mapM f).exec ()
      (.repeatedTerm count) =
        some (.ok (List.replicate todo ⟨0⟩), (), .repeatedTerm (count + todo)) := by
    induction todo with
    | zero => exact fun _ => rfl
    | succ todo ih =>
        intro count
        rw [List.replicate_succ, List.mapM_cons, EditM.exec_bind, hf]
        dsimp only
        rw [EditM.exec_bind, ih, Nat.add_right_comm]
        rfl
  have hlist := hlist count count
  rw [transformChildren, EditM.exec_store_bind]
  simp [Store.repeatedTerm, Store.node?, Value.mapM, EditM.exec_bind, rebuild] at hlist ⊢
  simp [hlist]

theorem exec_transformBottomUp_argument {f : NodeId → EditM Unit Empty NodeId}
    (hf : ∀ count, (f ⟨0⟩).exec () (.repeatedTerm count) =
      some (.ok ⟨0⟩, (), .repeatedTerm (count + 1))) (count : Nat) :
    (transformBottomUp f ⟨0⟩).exec () (.repeatedTerm count) =
      some (.ok ⟨0⟩, (), .repeatedTerm (count + 1)) := by
  rw [transformBottomUp_eq, EditM.exec_bind]
  exact hf count

theorem exec_transformBottomUp_repeatedTerm {f : NodeId → EditM Unit Empty NodeId}
    (hf : ∀ count, (f ⟨0⟩).exec () (.repeatedTerm count) =
      some (.ok ⟨0⟩, (), .repeatedTerm (count + 1))) (count : Nat) :
    (transformBottomUp f ⟨1⟩).exec () (.repeatedTerm count) =
      (f ⟨1⟩).exec () (.repeatedTerm (count + count)) := by
  rw [transformBottomUp_eq, EditM.exec_bind,
    exec_transformChildren_repeatedTerm (exec_transformBottomUp_argument hf)]

/-- One client builds `f(1)`. The other rewrites it, and what it does with each node is to rewrite
everything below the node again, where each call adds an argument to the term that is being
rewritten. So the inner rewrite finds two arguments when it comes to the term, and in the end
there are five. -/
theorem nested_clients_keep_schema :
    let earlier : EditM Unit Empty (Except Error NodeId) := do
      let _ ← EditM.call (.build .symbolicTerm (Location.default, Symbol.number 1, ()))
      EditM.call (.build .function (Location.default, "f", [⟨0⟩], false, ()))
    let later : EditM Unit Empty NodeId :=
      transformBottomUp (fun id => transformBottomUp addArgument id) ⟨1⟩
    Client earlier ∧ Client later ∧ ∃ s s', earlier.exec () .empty = some (.ok (.ok ⟨1⟩), (), s) ∧
      later.exec () s = some (.ok ⟨1⟩, (), s') ∧
      (⟨⟨1⟩, .arguments⟩ : ListView NodeId).toList s' = List.replicate 5 ⟨0⟩ ∧
      Store.empty.SchemaKept s' ∧ s.SchemaKept s' := by
  intro earlier later
  have hearlier : Client earlier := .bind (.call _) fun _ => .call _
  have hadd (id : NodeId) : Client (addArgument id) := .bind (.call _) fun _ => .pure id
  have hlater : Client later := .transformBottomUp (fun id => .transformBottomUp hadd id) ⟨1⟩
  have hbuilt : earlier.exec () .empty = some (.ok (.ok ⟨1⟩), (), .repeatedTerm 1) := rfl
  have hrewritten : later.exec () (.repeatedTerm 1) = some (.ok ⟨1⟩, (), .repeatedTerm 5) := by
    rw [show later = transformBottomUp _ ⟨1⟩ from rfl, exec_transformBottomUp_repeatedTerm
      (exec_transformBottomUp_argument (exec_addArgument ⟨0⟩)),
      exec_transformBottomUp_repeatedTerm (exec_addArgument ⟨0⟩), exec_addArgument]
  obtain ⟨hempty, hkept⟩ := client_runs_keep_schema hearlier hlater hbuilt hrewritten
  exact ⟨hearlier, hlater, _, _, hbuilt, hrewritten, rfl, hempty, hkept⟩

end AnswerSet
