import AnswerSet.Proofs.Pool.Product
import AnswerSet.Proofs.Pool.Slots
import AnswerSet.Proofs.Pool.Unpool
import AnswerSet.Proofs.Store.Order
import AnswerSet.Proofs.Tree.Neutral

/-!
# Observing equal nodes

Equality of nodes looks neither at locations nor at how instances are shared. No other
operation that reads a node tells equal nodes apart: they print alike, are unpooled into
equal nodes, can be changed in the same ways with equal results, and a visitor that decides
by kinds sees the same kinds below them. All of this is read off the neutral form of the
unfolding, which equal nodes have in common.
-/

namespace AnswerSet

/-! ## Alternatives -/

namespace Tree

/-- The value with neutral children and without its location. -/
def neutralValue (v : Value (Tree Unit)) : Value (Tree Unit) := (v.map neutral).neutral

theorem spliced_neutral_iff {k : Kind} {a : Attr} {t : Tree Unit} :
    Spliced k a t.neutral ↔ Spliced k a t := by
  rw [Spliced, Spliced, kind_neutral]

theorem slotAlternatives_neutralValue {regions : Regions} {v : Value (Tree Unit)}
    (h : ∀ t ∈ v.children, ∀ enabled,
      t.neutral.alternatives regions enabled = (t.alternatives regions enabled).map neutral)
    (k : Kind) (enabled : Bool) (a : Attr) :
    slotAlternatives regions k enabled a (neutralValue v) =
      (slotAlternatives regions k enabled a v).map neutralValue := by
  cases v with
  | node t =>
      change slotAlternatives regions k enabled a (.node t.neutral) = _
      rw [slotAlternatives_node, slotAlternatives_node, h t (by simp [Value.children]),
        List.map_map, List.map_map]
      rfl
  | optional child =>
      cases child with
      | none => rfl
      | some t =>
          change slotAlternatives regions k enabled a (.optional (some t.neutral)) = _
          rw [slotAlternatives_some, slotAlternatives_some, h t (by simp [Value.children]),
            List.map_map, List.map_map]
          rfl
  | nodes ts =>
      have hfactors (enabled : Bool) : (ts.map neutral).map (segments regions k a enabled) =
          (ts.map (segments regions k a enabled)).map (List.map (List.map neutral)) := by
        rw [List.map_map, List.map_map]
        refine List.map_congr_left fun t ht => ?_
        simp only [Function.comp_apply, segments, spliced_neutral_iff, h t ht]
        split
        · rfl
        · rw [List.map_map, List.map_map]
          rfl
      change slotAlternatives regions k enabled a (.nodes (ts.map neutral)) = _
      rw [slotAlternatives_nodes, slotAlternatives_nodes, hfactors, product_map_map]
      simp only [List.map_map]
      refine List.map_congr_left fun choice _ => ?_
      change Value.nodes (choice.map (List.map neutral)).flatten =
        Value.nodes (choice.flatten.map neutral)
      rw [List.map_flatten]
  | _ => rfl

/-- The alternatives of the neutral form are the neutral forms of the alternatives. -/
theorem alternatives_neutral (regions : Regions) {t : Tree Unit} (ht : t.Valid) (enabled : Bool) :
    t.neutral.alternatives regions enabled = (t.alternatives regions enabled).map neutral := by
  induction t using induct generalizing enabled with
  | step l k vs ih =>
      obtain ⟨hadmits, hvalid⟩ := valid_node_iff.1 ht
      rw [neutral_node]
      by_cases hpool : enabled = true ∧ k = .pool
      · obtain ⟨rfl, rfl⟩ := hpool
        obtain ⟨arguments, harguments⟩ := Kind.exists_arguments hadmits
        have hneutral : Kind.pool.valueOf? (vs.map fun v => (v.map neutral).neutral) .arguments =
            some (.nodes (arguments.map neutral)) := by
          rw [Kind.valueOf?_map, harguments]
          rfl
        have hv := Kind.mem_of_valueOf? harguments
        rw [alternatives_pool _ hneutral, alternatives_pool _ harguments, List.flatMap_map,
          List.map_flatMap]
        exact List.flatMap_congr fun t ht => ih _ hv t ht (hvalid _ hv t ht) true
      · have hslots : ((k.attrs.zip (vs.map neutralValue)).map fun slot =>
            slotAlternatives regions k enabled slot.1 slot.2) =
            ((k.attrs.zip vs).map fun slot =>
              slotAlternatives regions k enabled slot.1 slot.2).map (List.map neutralValue) := by
          rw [List.zip_map_right, List.map_map, List.map_map]
          refine List.map_congr_left fun slot hslot => ?_
          have hv := (List.of_mem_zip hslot).2
          exact slotAlternatives_neutralValue
            (fun t ht enabled => ih _ hv t ht (hvalid _ hv t ht) enabled) k enabled slot.1
        change (node () k (vs.map neutralValue)).alternatives regions enabled = _
        rw [alternatives_of_not_pool _ _ _ _ hpool, alternatives_of_not_pool _ _ _ _ hpool, hslots,
          product_map_map, List.map_map, List.map_map]
        refine List.map_congr_left fun choice _ => ?_
        rw [Function.comp_apply, Function.comp_apply, neutral_node]
        rfl

end Tree

/-! ## Changes -/

namespace Store

variable {s s' : Store} {a b : NodeId} {n m : Node}

/-- The instances are of one kind, and the trees below them have one neutral form. -/
def AlikeNodes (s : Store) (n m : Node) : Prop :=
  n.kind = m.kind ∧ ∃ ps qs, List.Forall₂ (Value.Rel s.Denotes) n.values ps ∧
    List.Forall₂ (Value.Rel s.Denotes) m.values qs ∧
    ps.map Tree.neutralValue = qs.map Tree.neutralValue

/-- The nodes stand for trees with one neutral form. -/
def Alike (s : Store) (a b : NodeId) : Prop :=
  ∃ p q, s.Denotes a p ∧ s.Denotes b q ∧ p.neutral = q.neutral

theorem Alike.nodes (h : s.Alike a b) :
    ∃ n m, s.node? a = some n ∧ s.node? b = some m ∧ s.AlikeNodes n m := by
  obtain ⟨⟨_, k, ps⟩, ⟨_, j, qs⟩, hp, hq, hneutral⟩ := h
  obtain ⟨n, hn, rfl, hps⟩ := denotes_node_iff.1 hp
  obtain ⟨m, hm, rfl, hqs⟩ := denotes_node_iff.1 hq
  rw [Tree.neutral_node, Tree.neutral_node, Tree.node.injEq] at hneutral
  exact ⟨n, m, hn, hm, hneutral.2.1, ps, qs, hps, hqs, hneutral.2.2⟩

theorem AlikeNodes.alike (h : s.AlikeNodes n m) (hs : s.Extends s')
    (hn : s'.node? a = some n) (hm : s'.node? b = some m) : s'.Alike a b := by
  obtain ⟨hkind, ps, qs, hps, hqs, hneutral⟩ := h
  have hlift : ∀ {values ps}, List.Forall₂ (Value.Rel s.Denotes) values ps →
      List.Forall₂ (Value.Rel s'.Denotes) values ps :=
    fun hvalues => hvalues.imp fun v p hvp => hvp.imp fun _ _ hc => hs.denotes hc
  refine ⟨.node () n.kind ps, .node () m.kind qs, denotes_node_iff.2 ⟨n, hn, rfl, hlift hps⟩,
    denotes_node_iff.2 ⟨m, hm, rfl, hlift hqs⟩, ?_⟩
  rw [Tree.neutral_node, Tree.neutral_node, hkind]
  exact congrArg (Tree.node () m.kind) hneutral

/-- Equal changes of alike instances fail alike or give alike instances. -/
theorem AlikeNodes.setAll (h : s.AlikeNodes n m) {changes : List (Attr × Value NodeId)}
    (hchanges : ∀ change ∈ changes, ∃ p, Value.Rel s.Denotes change.2 p) :
    (∃ e, n.setAll changes = .error e ∧ m.setAll changes = .error e) ∨
      ∃ n' m', n.setAll changes = .ok n' ∧ m.setAll changes = .ok m' ∧ s.AlikeNodes n' m' := by
  induction changes generalizing n m with
  | nil => exact .inr ⟨n, m, rfl, rfl, h⟩
  | cons change rest ih =>
      obtain ⟨attr, v⟩ := change
      obtain ⟨p, hp⟩ := hchanges _ List.mem_cons_self
      obtain ⟨hkind, ps, qs, hps, hqs, hneutral⟩ := h
      rcases n.kind.assign_uniform attr v with ⟨e, hfail⟩ | ⟨i, hassign⟩
      · refine .inl ⟨e, ?_, ?_⟩
        · simp [Node.setAll, Node.set, hfail, bind, Except.bind]
        · simp [Node.setAll, Node.set, ← hkind, hfail, bind, Except.bind]
      · have hrest : s.AlikeNodes { n with values := n.values.set i v }
            { m with values := m.values.set i v } := by
          refine ⟨hkind, ps.set i p, qs.set i p, forall₂_set hps hp i, forall₂_set hqs hp i, ?_⟩
          rw [List.map_set, List.map_set, hneutral]
        have hn : n.setAll ((attr, v) :: rest) =
            { n with values := n.values.set i v }.setAll rest := by
          simp [Node.setAll, Node.set, hassign, bind, Except.bind, pure, Except.pure]
        have hm : m.setAll ((attr, v) :: rest) =
            { m with values := m.values.set i v }.setAll rest := by
          simp [Node.setAll, Node.set, ← hkind, hassign, bind, Except.bind, pure, Except.pure]
        rw [hn, hm]
        exact ih hrest fun change hchange => hchanges change (List.mem_cons_of_mem _ hchange)

theorem Alike.same (h : s.Alike a b) : s.same a b = .ok true := by
  obtain ⟨_, _, ⟨t, ht, rfl⟩, ⟨u, hu, rfl⟩, hneutral⟩ := h
  rw [Tree.neutral_plain, Tree.neutral_plain] at hneutral
  rw [same_of_unfolding? ht hu, Tree.same_iff_erase_eq.2 (Tree.erase_eq_of_neutral_eq hneutral)]

/-! ## Visits -/

/-- Takes a decision by a kind and notes the kind. -/
def notingKind {σ : Type} (decision : Kind → StateM σ Bool) (k : Kind) :
    StateM (σ × List Kind) Bool := fun (state, kinds) =>
  let (enter, state) := (decision k).run state
  (enter, state, kinds ++ [k])

/-- A visitor that decides by the kinds of the nodes it has seen, and notes these kinds. -/
def kindVisitor {σ : Type} (s : Store) (decision : Kind → StateM σ Bool) (x : NodeId) :
    StateM (σ × List Kind) Bool :=
  match s.node? x with
  | some n => notingKind decision n.kind
  | none => return false

theorem visit_kindVisitor {σ : Type} {t : Tree NodeId} (ht : s.unfolding? a = some t)
    (decision : Kind → StateM σ Bool) (log : σ × List Kind) :
    s.visit (s.kindVisitor decision) a log =
      .ok ((t.neutral.walkKinds (notingKind decision)).run log).2 := by
  have hkinds : ∀ w ∈ t.subtrees, s.kindVisitor decision w.label = notingKind decision w.kind := by
    intro w hw
    rw [kindVisitor, ((unfolds_of_unfolding? ht).subtrees w hw).node?]
  rw [Tree.walkKinds_neutral, ← Tree.walk_eq_walkKinds hkinds, visit_of_unfolding? ht]

/-! ## Equal nodes -/

/-- No observation tells the nodes apart. -/
structure ObservedAlike (s : Store) (a b : NodeId) : Prop where
  /-- Both have the same surface text, or none. -/
  printed : s.code a = s.code b
  /-- They are unpooled into the same number of nodes, which are equal pairwise. -/
  unpooled : ∀ regions, ∃ as s₁ bs s₂, s.unpool a regions = .ok (as, s₁) ∧
    s₁.unpool b regions = .ok (bs, s₂) ∧
    List.Forall₂ (fun x y => s₂.same x y = .ok true) as bs
  /-- Changing attributes fails with the same error for both, or gives equal nodes. -/
  updated : ∀ changes : List (Attr × Value NodeId), (∀ change ∈ changes, s.HoldsChildren change.2) →
    (∃ e, s.update a changes = .error e ∧ s.update b changes = .error e) ∨
      ∃ a' s₁ b' s₂, s.update a changes = .ok (a', s₁) ∧ s₁.update b changes = .ok (b', s₂) ∧
        s₂.same a' b' = .ok true
  /-- A visitor that decides by kinds ends in the same state and sees the same kinds. -/
  visited : ∀ {σ : Type} (decision : Kind → StateM σ Bool) (state : σ), ∃ state' kinds,
    s.visit (s.kindVisitor decision) a (state, []) = .ok (state', kinds) ∧
      s.visit (s.kindVisitor decision) b (state, []) = .ok (state', kinds)

theorem WellFormed.exists_unfoldings_of_same (hs : s.WellFormed) (h : s.same a b = .ok true) :
    ∃ t u, s.unfolding? a = some t ∧ s.unfolding? b = some u ∧ t.erase = u.erase := by
  obtain ⟨t, ht⟩ := hs.exists_unfolding?_of_holds (holds_of_same h).1
  obtain ⟨u, hu⟩ := hs.exists_unfolding?_of_holds (holds_of_same h).2
  rw [same_of_unfolding? ht hu, Except.ok.injEq] at h
  exact ⟨t, u, ht, hu, Tree.same_iff_erase_eq.1 h⟩

theorem code_of_unfolding? {t : Tree NodeId} (ht : s.unfolding? a = some t) :
    s.code a = match t.neutral.render.text with
      | some text => .ok text
      | none => .error (.failed (.invalidNode .unprintable)) := by
  rw [Tree.render_neutral, code, unfold_eq_ok_iff.2 ht]
  rfl

theorem Alike.unpooled (h : s.Alike a b) (hs : s.Valid) (regions : Regions) :
    ∃ as s₁ bs s₂, s.unpool a regions = .ok (as, s₁) ∧ s₁.unpool b regions = .ok (bs, s₂) ∧
      List.Forall₂ s₂.Alike as bs := by
  obtain ⟨p, q, hp, hq, hneutral⟩ := h
  obtain ⟨as, s₁, hrun, hs₁, hvalid₁, has⟩ := unpool_denotes hs hp regions
  obtain ⟨bs, s₂, hrun', hs₂, -, hbs⟩ := unpool_denotes hvalid₁ (hs₁.denotes hq) regions
  have halternatives : (p.alternatives regions regions.other).map Tree.neutral =
      (q.alternatives regions regions.other).map Tree.neutral := by
    rw [← Tree.alternatives_neutral regions (hs.of_denotes hp),
      ← Tree.alternatives_neutral regions (hs.of_denotes hq), hneutral]
  rw [← List.forall₂_eq_eq_eq, List.forall₂_map_left_iff, List.forall₂_map_right_iff]
    at halternatives
  exact ⟨as, s₁, bs, s₂, hrun, hrun',
    forall₂_join (has.imp fun _ _ hx => hs₂.denotes hx) hbs halternatives⟩

theorem update_of_node? (hn : s.node? a = some n) (changes : List (Attr × Value NodeId)) :
    s.update a changes = (n.setAll changes).map fun n' => (alloc n').run s := by
  rw [update_eq, fetch_eq_ok_iff.2 hn]
  change (n.setAll changes >>= fun n' => pure ((alloc n').run s)) = _
  cases n.setAll changes <;> rfl

theorem Alike.updated (h : s.Alike a b) {changes : List (Attr × Value NodeId)}
    (hchanges : ∀ change ∈ changes, ∃ p, Value.Rel s.Denotes change.2 p) :
    (∃ e, s.update a changes = .error e ∧ s.update b changes = .error e) ∨
      ∃ a' s₁ b' s₂, s.update a changes = .ok (a', s₁) ∧ s₁.update b changes = .ok (b', s₂) ∧
        s₂.Alike a' b' := by
  obtain ⟨n, m, hn, hm, hnodes⟩ := h.nodes
  rcases hnodes.setAll hchanges with ⟨e, he, he'⟩ | ⟨n', m', hn', hm', hnodes'⟩
  · refine .inl ⟨e, ?_, ?_⟩
    · rw [update_of_node? hn, he]
      rfl
    · rw [update_of_node? hm, he']
      rfl
  · have hs₁ := Extends.alloc s n'
    have hs₂ := Extends.alloc ((alloc n').run s).2 m'
    refine .inr ⟨((alloc n').run s).1, ((alloc n').run s).2, _, _, ?_, ?_,
      hnodes'.alike (hs₁.trans hs₂) (hs₂ (node?_alloc_self s n')) (node?_alloc_self _ m')⟩
    · rw [update_of_node? hn, hn']
      rfl
    · rw [update_of_node? (hs₁ hm), hm']
      rfl

end Store

/-- Equal nodes of a well-formed store are alike for every observer. -/
theorem equal_nodes_are_observed_alike {s : Store} (hs : s.WellFormed) {a b : NodeId}
    (hsame : s.same a b = .ok true) : s.ObservedAlike a b := by
  obtain ⟨t, u, ht, hu, herase⟩ := hs.exists_unfoldings_of_same hsame
  have hneutral : t.neutral = u.neutral :=
    Tree.neutral_eq_of_erase_eq (hs.valid.unfolding? ht) (hs.valid.unfolding? hu) herase
  have halike : s.Alike a b := by
    refine ⟨_, _, Store.denotes_of_unfolding? ht, Store.denotes_of_unfolding? hu, ?_⟩
    rw [Tree.neutral_plain, Tree.neutral_plain, hneutral]
  refine ⟨?_, fun regions => ?_, fun changes hheld => ?_, fun decision state => ?_⟩
  · rw [Store.code_of_unfolding? ht, Store.code_of_unfolding? hu, hneutral]
  · obtain ⟨as, s₁, bs, s₂, hrun, hrun', hpairs⟩ := halike.unpooled hs.valid regions
    exact ⟨as, s₁, bs, s₂, hrun, hrun', hpairs.imp fun x y hxy => hxy.same⟩
  · have hchanges : ∀ change ∈ changes, ∃ p, Value.Rel s.Denotes change.2 p := by
      intro change hchange
      obtain ⟨w, hw⟩ := hs.exists_unfoldsValue (hheld change hchange)
      refine ⟨w.map Tree.plain, Value.rel_map_right_iff.2 ?_⟩
      exact (Value.mapM_eq_some_iff.1 hw).imp fun c t hc => Store.denotes_of_unfolding? hc
    rcases halike.updated hchanges with hfail | ⟨a', s₁, b', s₂, hrun, hrun', hresult⟩
    · exact .inl hfail
    · exact .inr ⟨a', s₁, b', s₂, hrun, hrun', hresult.same⟩
  · refine ⟨_, _, Store.visit_kindVisitor ht decision (state, []), ?_⟩
    rw [Store.visit_kindVisitor hu, hneutral]

/-- A store with the term `f(1,1)` twice. The arguments are one instance in the first, and
two with locations of their own in the second. -/
def Store.twinTerms : Store :=
  ⟨#[⟨.symbolicTerm, [.location .default, .symbol (.number 1)]⟩,
     ⟨.function, [.location .default, .text "f", .nodes [⟨0⟩, ⟨0⟩], .int 0]⟩,
     ⟨.symbolicTerm, [.location (.span "twin" 1 3 3), .symbol (.number 1)]⟩,
     ⟨.symbolicTerm, [.location (.span "twin" 1 5 5), .symbol (.number 1)]⟩,
     ⟨.function, [.location (.span "twin" 1 1 6), .text "f", .nodes [⟨2⟩, ⟨3⟩], .int 0]⟩]⟩

theorem equal_nodes_are_observed_alike_twinTerms :
    Store.twinTerms.WellFormed ∧ Store.twinTerms.same ⟨1⟩ ⟨4⟩ = .ok true ∧
      Store.twinTerms.ObservedAlike ⟨1⟩ ⟨4⟩ := by
  have hs : Store.twinTerms.WellFormed := .of_inOrder (by decide)
  have hsame : Store.twinTerms.same ⟨1⟩ ⟨4⟩ = .ok true :=
    (Store.same_of_unfolding? rfl rfl).trans rfl
  exact ⟨hs, hsame, equal_nodes_are_observed_alike hs hsame⟩

end AnswerSet
