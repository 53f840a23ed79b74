import AnswerSet.Pool.Expand
import AnswerSet.Proofs.Store.Unfold
import AnswerSet.Proofs.Store.Yield

/-!
# The alternatives of a tree

`Tree.alternatives` says what expanding pools means, on trees and without any store:
a pool in an expanded region offers the alternatives of its arguments one after the
other, and any other node is rebuilt for every choice of alternatives in its slots.
There is no distinction between a part that stays as it is and a part that has one
alternative.

`Tree.expand` works on identities, shares what it does not change, and says `none`
for a part that stands for itself. The two agree: read as trees in the store after
the expansion, its answer lists the alternatives. The invariant behind every step is
that an answer, with `none` read as the node alone, denotes the alternatives of the
part; it is an invariant of growing stores, so later steps cannot break it.
-/

namespace AnswerSet

/-! ## Alternatives -/

/-- The elements of such a node form a set. -/
def Kind.collects : Kind → Bool
  | .aggregate | .bodyAggregate | .headAggregate | .disjunction | .disjoint | .theoryAtom => true
  | _ => false

/-- Whether pools below an attribute are expanded, if they are at the node itself. -/
def Regions.below (regions : Regions) (k : Kind) (a : Attr) (enabled : Bool) : Bool :=
  if a = .condition ∧ k ≠ .headAggregateElement then regions.condition else enabled

/-- A tree with its alternatives in a region that is expanded or not. -/
abbrev Choices := Tree Unit × (Bool → List (Tree Unit))

/-- The segments that an item offers to a list: all alternatives side by side in sets
and for conditional literals, one of them otherwise. -/
def itemSegments (k : Kind) (a : Attr) (enabled : Bool) (item : Choices) :
    List (List (Tree Unit)) :=
  if (a = .elements ∧ k.collects) ∨ item.1.kind = .conditionalLiteral then [item.2 enabled]
  else (item.2 enabled).map fun t => [t]

/-- The alternatives of a value. A value without children is its only one. -/
def valueAlternatives (k : Kind) (a : Attr) (enabled : Bool) :
    Value Choices → List (Value (Tree Unit))
  | .node child => (child.2 enabled).map .node
  | .optional (some child) => (child.2 enabled).map fun t => .optional (some t)
  | .nodes items =>
      (product (items.map (itemSegments k a enabled))).map fun choice => .nodes choice.flatten
  | v => [v.map Prod.fst]

/-- The trees that a tree stands for. -/
def Tree.alternatives (regions : Regions) : Tree Unit → Bool → List (Tree Unit) :=
  Tree.elim fun _ kind values enabled =>
    if enabled ∧ kind = .pool then
      ((kind.valueOf? values .arguments).elim [] Value.children).flatMap fun argument =>
        argument.2 enabled
    else
      (product ((kind.attrs.zip values).map fun (a, v) =>
        valueAlternatives kind a (regions.below kind a enabled) v)).map (.node () kind)

theorem isSetLike_eq (k : Kind) (a : Attr) :
    isSetLike k a = decide (a = .elements ∧ k.collects = true) := by
  by_cases ha : a = .elements
  · cases k <;> simp [isSetLike, Kind.collects, ha]
  · simp [isSetLike, ha]

theorem Regions.below_eq (regions : Regions) (k : Kind) (a : Attr) (enabled : Bool) :
    regions.below k a enabled = if isCondition k a then regions.condition else enabled := by
  simp [below, isCondition]

/-! ## Products -/

theorem product_forall₂ {α β : Type} {R : α → β → Prop} {xs : List (List α)} {ys : List (List β)}
    (h : List.Forall₂ (List.Forall₂ R) xs ys) :
    List.Forall₂ (List.Forall₂ R) (product xs) (product ys) := by
  induction h with
  | nil => exact .cons .nil .nil
  | cons hfactor _ ih =>
      rw [product_cons, product_cons]
      refine List.rel_flatMap hfactor fun a b hab => ?_
      exact List.rel_map (fun _ _ hchoice => .cons hab hchoice) ih

/-- Factors with one member each leave one choice. -/
theorem product_map_singleton {α β : Type} (f : α → β) (xs : List α) :
    product (xs.map fun x => [f x]) = [xs.map f] := by
  induction xs with
  | nil => rfl
  | cons x xs ih => simp [product_cons, ih]

/-- Parts that all stand for themselves. -/
theorem map_zip_of_all_isNone {α β γ : Type} {as : List α} {es : List (Option β)}
    (hlength : as.length = es.length) (hall : es.all Option.isNone = true)
    (g : α × Option β → γ) : (as.zip es).map g = as.map fun a => g (a, none) := by
  induction as generalizing es with
  | nil => rfl
  | cons a as ih =>
      cases es with
      | nil => simp at hlength
      | cons e es =>
          simp only [List.all_cons, Bool.and_eq_true, Option.isNone_iff_eq_none] at hall
          obtain ⟨rfl, hall⟩ := hall
          simp [ih (Nat.succ.inj hlength) hall]

theorem forall₂_zip_left {α β γ : Type} {R : β → γ → Prop} {xs : List β} {ys : List γ}
    (h : List.Forall₂ R xs ys) (as : List α) :
    List.Forall₂ (fun p q => p.1 = q.1 ∧ R p.2 q.2) (as.zip xs) (as.zip ys) := by
  induction h generalizing as with
  | nil => simp
  | cons hxy _ ih =>
      cases as with
      | nil => exact .nil
      | cons a as => exact .cons ⟨rfl, hxy⟩ (ih as)

/-! ## Expansion denotes alternatives -/

namespace Store

variable {s s' : Store}

/-- The child denotes the tree, and its expansion gives the alternatives of the tree,
in the store and whenever it runs later. -/
structure Expands (s : Store) (child : ExpandedChild) (spec : Choices) : Prop where
  kind_eq : spec.1.kind = child.1.kind
  denotes : s.Denotes child.1.label spec.1
  yields : ∀ enabled ⦃s'⦄, s.Extends s' → s'.Yields (child.2 enabled) fun s'' answer =>
    List.Forall₂ s''.Denotes (answer.getD [child.1.label]) (spec.2 enabled)

theorem Extends.expands (h : s.Extends s') {child : ExpandedChild} {spec : Choices}
    (hchild : s.Expands child spec) : s'.Expands child spec :=
  ⟨hchild.kind_eq, h.denotes hchild.denotes,
    fun enabled _ hs => hchild.yields enabled (h.trans hs)⟩

theorem Expands.alternativesOf {child : ExpandedChild} {spec : Choices}
    (h : s.Expands child spec) (enabled : Bool) :
    s.Yields (alternativesOf enabled child) fun s' ids =>
      List.Forall₂ s'.Denotes ids (spec.2 enabled) :=
  (h.yields enabled (.refl s)).map

/-- What an item puts into a list. Here an item that stands for itself and an item
with one alternative are the same. -/
theorem Expands.segmentsOf {item : ExpandedChild} {spec : Choices} (h : s.Expands item spec)
    {k : Kind} {a : Attr} {enabled : Bool} {answer : Option (List NodeId)}
    (hanswer : List.Forall₂ s.Denotes (answer.getD [item.1.label]) (spec.2 enabled)) :
    List.Forall₂ (List.Forall₂ s.Denotes) (segmentsOf (isSetLike k a) item.1 answer)
      (itemSegments k a enabled spec) := by
  have hsingles : ∀ {ids ts}, List.Forall₂ s.Denotes ids ts →
      List.Forall₂ (List.Forall₂ s.Denotes) (ids.map fun id => [id]) (ts.map fun t => [t]) :=
    fun hids => List.rel_map (fun _ _ hid => .cons hid .nil) hids
  have hsplice : (isSetLike k a || decide (item.1.kind = .conditionalLiteral)) = true ↔
      (a = .elements ∧ k.collects = true) ∨ spec.1.kind = .conditionalLiteral := by
    simp [isSetLike_eq, h.kind_eq]
  unfold itemSegments
  cases answer with
  | none =>
      split
      · exact .cons hanswer .nil
      · exact hsingles hanswer
  | some ids =>
      rw [AnswerSet.segmentsOf]
      by_cases hset : (a = .elements ∧ k.collects = true) ∨ spec.1.kind = .conditionalLiteral
      · rw [if_pos hset, if_pos (hsplice.2 hset)]
        exact .cons hanswer .nil
      · rw [if_neg hset, if_neg fun h' => hset (hsplice.1 h')]
        exact hsingles hanswer

theorem yields_expandList {items : List ExpandedChild} {specs : List Choices}
    (h : List.Forall₂ s.Expands items specs) (k : Kind) (a : Attr) (enabled : Bool) :
    s.Yields (expandList (isSetLike k a) enabled items) fun s' answer =>
      List.Forall₂ (List.Forall₂ s'.Denotes)
        (answer.getD [items.map fun item => item.1.label])
        ((product (specs.map (itemSegments k a enabled))).map List.flatten) := by
  have hitems := Yields.mapM h fun item spec hitem s' hs' =>
    (hitem.yields enabled hs').imp fun answer s'' hs'' hanswer =>
      And.intro ((hs'.trans hs'').expands hitem) hanswer
  refine hitems.bind fun expanded s₁ _ hexpanded => ?_
  have hchoices : ∀ ⦃s'⦄, s₁.Extends s' → List.Forall₂ (List.Forall₂ s'.Denotes)
      ((product ((items.zip expanded).map fun pair =>
        segmentsOf (isSetLike k a) pair.1.1 pair.2)).map List.flatten)
      ((product (specs.map (itemSegments k a enabled))).map List.flatten) := by
    intro s' hs'
    refine List.rel_map (fun _ _ hchoice => List.rel_flatten hchoice) (product_forall₂ ?_)
    exact List.rel_map (fun pair spec hpair => hpair.1.segmentsOf hpair.2) (hexpanded hs').2
  by_cases hall : expanded.all Option.isNone = true
  · rw [if_pos hall]
    refine yields_pure fun s' hs' => ?_
    have hnone := hchoices hs'
    rw [map_zip_of_all_isNone (hexpanded hs').1 hall] at hnone
    simp only [segmentsOf, product_map_singleton, List.map_cons, List.map_nil] at hnone
    rwa [← List.flatMap_def, ← List.map_eq_flatMap] at hnone
  · rw [if_neg hall]
    exact yields_pure hchoices

theorem yields_expandValue {v : Value ExpandedChild} {w : Value Choices}
    (h : Value.Rel s.Expands v w) (k : Kind) (a : Attr) (enabled : Bool) :
    s.Yields (expandValue (isSetLike k a) enabled v) fun s' answer =>
      List.Forall₂ (Value.Rel s'.Denotes) (answer.getD [v.map fun child => child.1.label])
        (valueAlternatives k a enabled w) := by
  cases h with
  | node hchild =>
      refine ((hchild.yields enabled (.refl s)).imp fun answer s' _ hanswer => ?_).map
      have hvalues := List.rel_map (fun _ _ hid => Value.Rel.node hid) hanswer
      cases answer <;> exact hvalues
  | present hchild =>
      refine ((hchild.yields enabled (.refl s)).imp fun answer s' _ hanswer => ?_).map
      have hvalues := List.rel_map (fun _ _ hid => Value.Rel.present hid) hanswer
      cases answer <;> exact hvalues
  | nodes hitems =>
      refine ((yields_expandList hitems k a enabled).imp fun answer s' _ hanswer => ?_).map
      have hvalues := List.rel_map (fun _ _ hids => Value.Rel.nodes hids) hanswer
      rw [List.map_map] at hvalues
      cases answer <;> exact hvalues
  | _ => exact yields_pure fun _ _ => .cons (by constructor) .nil

/-- The slots of a node that is no pool to be expanded. -/
theorem yields_expandValues {values : List (Value ExpandedChild)} {specs : List (Value Choices)}
    (h : List.Forall₂ (Value.Rel s.Expands) values specs) {k : Kind}
    (hlength : k.attrs.length = values.length) (regions : Regions) (enabled : Bool) :
    s.Yields (expandValues regions k enabled values) fun s' answer =>
      List.Forall₂ (List.Forall₂ (Value.Rel s'.Denotes))
        (answer.getD [values.map fun v => v.map fun child => child.1.label])
        (product ((k.attrs.zip specs).map fun slot =>
          valueAlternatives k slot.1 (regions.below k slot.1 enabled) slot.2)) := by
  simp only [Regions.below_eq]
  have hslots := Yields.mapM (forall₂_zip_left h k.attrs) fun slot spec hslot s' hs' =>
    (yields_expandValue (hslot.2.imp fun _ _ hchild => hs'.expands hchild) k slot.1
      (if isCondition k slot.1 then regions.condition else enabled)).imp
        fun _ _ _ hanswer => And.intro hslot.1 hanswer
  refine hslots.bind fun expanded s₁ _ hexpanded => ?_
  have hvalues : (k.attrs.zip values).map Prod.snd = values := List.map_snd_zip (by omega)
  have hchoices : ∀ ⦃s'⦄, s₁.Extends s' → List.Forall₂ (List.Forall₂ (Value.Rel s'.Denotes))
      (product ((values.zip expanded).map fun pair =>
        pair.2.getD [pair.1.map fun child => child.1.label]))
      (product ((k.attrs.zip specs).map fun slot => valueAlternatives k slot.1
        (if isCondition k slot.1 then regions.condition else enabled) slot.2)) := by
    intro s' hs'
    rw [← hvalues, List.zip_map_left, List.map_map]
    refine product_forall₂ (List.rel_map (fun pair spec hpair => ?_) (hexpanded hs').2)
    simpa [← hpair.1] using hpair.2
  by_cases hall : expanded.all Option.isNone = true
  · rw [if_pos hall]
    refine yields_pure fun s' hs' => ?_
    have hlength' : values.length = expanded.length := by
      rw [← (hexpanded hs').1, List.length_zip]
      omega
    have hnone := hchoices hs'
    rw [map_zip_of_all_isNone hlength' hall] at hnone
    simpa [product_map_singleton] using hnone
  · rw [if_neg hall]
    exact yields_pure hchoices

end Store

/-! ## Equations -/

namespace Tree

/-- The values of a node with the expansions of its subtrees. -/
def expansions (regions : Regions) (vs : List (Value (Tree NodeId))) : List (Value ExpandedChild) :=
  vs.map fun v => v.map fun t => (t, t.expand regions)

/-- The values of a node with the alternatives of its subtrees. -/
def choices {α : Type} (regions : Regions) (vs : List (Value (Tree α))) : List (Value Choices) :=
  vs.map fun v => v.map fun t => (t.plain, t.plain.alternatives regions)

variable (regions : Regions) (id : NodeId) {k : Kind} (vs : List (Value (Tree NodeId)))
  {enabled : Bool}

theorem expand_pool :
    (node id .pool vs).expand regions true =
      match Kind.pool.valueOf? (expansions regions vs) .arguments with
      | some (.nodes arguments) => do
          return some (← arguments.mapM (alternativesOf true)).flatten
      | _ => return none := by
  rw [expand, elim_node]
  rfl

theorem expand_of_not_pool (h : ¬ (enabled = true ∧ k = .pool)) :
    (node id k vs).expand regions enabled = do
      match ← expandValues regions k enabled (expansions regions vs) with
      | some alternatives => return some (← alternatives.mapM fun vs => Store.alloc ⟨k, vs⟩)
      | none => return none := by
  rw [expand, elim_node]
  exact if_neg (by simpa using h)

theorem alternatives_node :
    (node id k vs).plain.alternatives regions enabled =
      if enabled ∧ k = .pool then
        ((k.valueOf? (choices regions vs) .arguments).elim [] Value.children).flatMap
          fun argument => argument.2 enabled
      else
        (product ((k.attrs.zip (choices regions vs)).map fun slot =>
          valueAlternatives k slot.1 (regions.below k slot.1 enabled) slot.2)).map
            (.node () k) := by
  rw [plain_node, alternatives, elim_node, List.map_map]
  simp only [Function.comp_def, Value.map_map]
  rfl

end Tree

theorem Kind.exists_arguments {ν : Type} {values : List (Value ν)}
    (h : Kind.pool.Admits values) :
    ∃ arguments, Kind.pool.valueOf? values .arguments = some (.nodes arguments) := by
  have hslot : Kind.pool.slots[1]? = some ⟨.arguments, .nodes⟩ := rfl
  obtain ⟨v, hv, hfits⟩ := h.exists_value hslot
  cases v with
  | nodes arguments => exact ⟨arguments, hv⟩
  | _ => cases (Value.fits_iff.1 hfits).1

namespace Store

variable {s : Store}

/-- The alternatives of all arguments of a pool in order. -/
theorem yields_arguments {arguments : List ExpandedChild} {specs : List Choices}
    (h : List.Forall₂ s.Expands arguments specs) (enabled : Bool) :
    s.Yields (arguments.mapM (alternativesOf enabled)) fun s' answers =>
      List.Forall₂ s'.Denotes answers.flatten (specs.flatMap fun spec => spec.2 enabled) := by
  refine (Yields.mapM_answers h fun argument spec hargument s' hs' =>
    (hs'.expands hargument).alternativesOf enabled).imp fun answers s' _ hanswers => ?_
  rw [List.flatMap_def]
  exact List.rel_flatten (List.forall₂_map_right_iff.2 hanswers)

/-- New nodes of a kind for given values. -/
theorem yields_allocAll {k : Kind} {choices : List (List (Value NodeId))}
    {specs : List (List (Value (Tree Unit)))}
    (h : List.Forall₂ (List.Forall₂ (Value.Rel s.Denotes)) choices specs) :
    s.Yields (choices.mapM fun values => alloc ⟨k, values⟩) fun s' ids =>
      List.Forall₂ s'.Denotes ids (specs.map (.node () k)) := by
  have hnew (values : List (Value NodeId)) (ps : List (Value (Tree Unit)))
      (hvalues : List.Forall₂ (Value.Rel s.Denotes) values ps) ⦃s' : Store⦄ (hs' : s.Extends s') :
      s'.Yields (alloc ⟨k, values⟩) fun s'' id => s''.Denotes id (.node () k ps) := by
    refine (yields_alloc s' ⟨k, values⟩).imp fun id s'' hs'' hid => ?_
    exact denotes_node_iff.2 ⟨_, hid, rfl, hvalues.imp fun v p hvp =>
      hvp.imp fun _ _ hc => (hs'.trans hs'').denotes hc⟩
  exact (Yields.mapM_answers h hnew).imp fun ids s' _ hids => List.forall₂_map_right_iff.2 hids

/-- The labels of the subtrees of an unfolding are the children of the instance. -/
theorem labels_of_unfolding? {n : Node} {vs : List (Value (Tree NodeId))}
    (h : List.Forall₂ (Value.Rel fun c u => s.unfolding? c = some u) n.values vs) :
    (vs.map fun v => v.map Tree.label) = n.values := by
  have hlabels : List.Forall₂ (Value.Rel fun c u => c = Tree.label u) n.values vs :=
    h.imp fun v w hvw => hvw.imp fun c u hc => (label_of_unfolding? hc).symm
  have heq := List.forall₂_map_right_iff.2
    (hlabels.imp fun v w hvw => Value.rel_eq_iff.1 (Value.rel_map_right_iff.2 hvw))
  rw [List.forall₂_eq_eq_eq] at heq
  exact heq.symm

end Store

namespace Tree

variable (regions : Regions) {s : Store}

/-- Expanding a tree of the store denotes its alternatives, at whatever time it runs. -/
theorem yields_expand {t : Tree NodeId} (ht : t.Valid) (hs : s.unfolding? t.label = some t)
    (enabled : Bool) :
    s.Yields (t.expand regions enabled) fun s' answer =>
      List.Forall₂ s'.Denotes (answer.getD [t.label]) (t.plain.alternatives regions enabled) := by
  induction t using Tree.induct generalizing s enabled with
  | step id k vs ih =>
      obtain ⟨hadmits, hvalid⟩ := valid_node_iff.1 ht
      obtain ⟨n, values, hn, heq, hvalues⟩ := Store.unfolding?_eq_some_iff.1 hs
      cases heq
      have hexpands : List.Forall₂ (Value.Rel s.Expands) (expansions regions vs)
          (choices regions vs) := by
        refine List.forall₂_map_left_iff.2 (List.forall₂_map_right_iff.2
          (List.forall₂_same.2 fun v hv => ?_))
        refine Value.rel_map_left_iff.2 (Value.rel_map_right_iff.2
          ((Value.rel_eq_iff.2 rfl).imp_mem fun t ht _ _ htu => ?_))
        subst htu
        obtain ⟨_, _, c, _, hc⟩ := Value.exists_child_of_rel_right hvalues hv ht
        obtain rfl := Store.label_of_unfolding? hc
        exact ⟨kind_plain t, Store.denotes_of_unfolding? hc, fun enabled s' hs' =>
          ih v hv t ht (hvalid v hv t ht) (hs'.unfolding? hc) enabled⟩
      rw [alternatives_node]
      by_cases hpool : enabled = true ∧ n.kind = .pool
      · obtain ⟨rfl, hkind⟩ := hpool
        rw [hkind] at hadmits ⊢
        have hpoolAdmits : Kind.pool.Admits (expansions regions vs) :=
          Kind.admits_map_iff.2 hadmits
        obtain ⟨arguments, harguments⟩ := Kind.exists_arguments hpoolAdmits
        obtain ⟨_, hspecs, hrel⟩ := Kind.valueOf?_rel hexpands harguments
        cases hrel with
        | nodes hrel =>
            rw [if_pos ⟨rfl, rfl⟩, hspecs, expand_pool, harguments]
            exact (Store.yields_arguments hrel true).map
      · rw [if_neg hpool, expand_of_not_pool _ _ _ hpool]
        have hlength : n.kind.attrs.length = (expansions regions vs).length := by
          simp [Kind.attrs, expansions, hadmits.length_eq]
        refine (Store.yields_expandValues hexpands hlength regions enabled).bind
          fun answer s₁ hs₁ hanswer => ?_
        cases answer with
        | none =>
            refine Store.yields_pure fun s' hs' => List.forall₂_map_right_iff.2 ?_
            have hown : ((expansions regions vs).map fun v => v.map fun child =>
                child.1.label) = n.values := by
              rw [← Store.labels_of_unfolding? hvalues, expansions, List.map_map]
              exact List.map_congr_left fun v _ => Value.map_map _ _ v
            have hsame := hanswer hs'
            rw [Option.getD_none, hown] at hsame
            obtain ⟨ps, _, hps, hrest, heq⟩ := List.forall₂_cons_left_iff.1 hsame
            rw [heq, List.forall₂_nil_left_iff.1 hrest]
            have hid := (hs₁.trans hs') hn
            exact .cons (Store.denotes_node_iff.2 ⟨n, hid, rfl, hps⟩) .nil
        | some alternatives =>
            exact (Store.yields_allocAll (hanswer (.refl s₁))).map

end Tree

theorem Store.unpool_of_unfolding? {s : Store} {t : Tree NodeId}
    (ht : s.unfolding? t.label = some t) (regions : Regions) :
    s.unpool t.label regions =
      .ok (((t.expand regions regions.other).run s).1.getD [t.label],
        ((t.expand regions regions.other).run s).2) := by
  rw [unpool_eq, unfold_eq_ok_iff.2 ht]
  rfl

/-- Unpooling a node of a well-formed store succeeds, and the unfoldings of its answers
in the store after it are exactly the alternatives of the node's own unfolding, in
order and with all locations. -/
theorem unpool_unfolds_to_alternatives {s : Store} (hs : s.WellFormed) {id : NodeId} {n : Node}
    (hn : s.node? id = some n) (regions : Regions) :
    ∃ t answers s', s.unfolding? id = some t ∧ s.unpool id regions = .ok (answers, s') ∧
      answers.mapM (fun answer => (s'.unfolding? answer).map Tree.plain) =
        some (t.plain.alternatives regions regions.other) := by
  obtain ⟨t, ht⟩ := hs.exists_unfolding? hn
  obtain rfl := Store.label_of_unfolding? ht
  refine ⟨t, _, _, ht, Store.unpool_of_unfolding? ht regions, mapM_eq_some_iff.2 ?_⟩
  have hrun := (Tree.yields_expand regions (hs.valid.unfolding? ht) ht regions.other).2 (.refl _)
  refine hrun.imp fun answer p hp => ?_
  obtain ⟨u, hu, rfl⟩ := hp
  rw [hu]
  rfl

theorem unpool_pooledTerm :
    Store.pooledTerm.WellFormed ∧
      ∃ t answers s', Store.pooledTerm.unfolding? ⟨3⟩ = some t ∧
        Store.pooledTerm.unpool ⟨3⟩ .everywhere = .ok (answers, s') ∧
        answers.mapM (fun answer => (s'.unfolding? answer).map Tree.plain) =
          some (t.plain.alternatives .everywhere true) :=
  have hs : Store.pooledTerm.WellFormed := .of_inOrder (by decide)
  ⟨hs, unpool_unfolds_to_alternatives hs rfl .everywhere⟩

end AnswerSet
