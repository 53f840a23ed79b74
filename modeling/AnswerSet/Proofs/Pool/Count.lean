import AnswerSet.Proofs.Pool.Sharing
import AnswerSet.Proofs.Store.Congruence

/-!
# Counting alternatives

The number of alternatives of a node follows a formula of its own. A pool that is expanded has
those of its arguments together, and any other node as many as the choices in its slots
multiply to. Items of which all alternatives stand side by side in a list leave no choice.

If the pools have different alternatives, then so has every node. A choice can be read off the
list that it makes, because all segments that an item offers are of one length, and off the
node that it makes, because it holds the choices for its slots. Locations take no part in
this: equal nodes have one neutral form, and alternatives of neutral trees are neutral.
-/

namespace AnswerSet

/-! ## The number of alternatives -/

/-- A tree with the number of its alternatives in a region that is expanded or not. -/
abbrev Counted := Tree Unit × (Bool → Nat)

/-- The number of alternatives of a value. -/
def valueCard (k : Kind) (a : Attr) (enabled : Bool) : Value Counted → Nat
  | .node child => child.2 enabled
  | .optional (some child) => child.2 enabled
  | .nodes items => (items.map fun item => if Spliced k a item.1 then 1 else item.2 enabled).prod
  | _ => 1

namespace Tree

/-- The number of trees that a tree stands for. -/
def card (regions : Regions) : Tree Unit → Bool → Nat :=
  elim fun _ kind values enabled =>
    if enabled ∧ kind = .pool then
      (((kind.valueOf? values .arguments).elim [] Value.children).map fun argument =>
        argument.2 enabled).sum
    else
      ((kind.attrs.zip values).map fun (a, v) =>
        valueCard kind a (regions.below kind a enabled) v).prod

/-- The number of alternatives of the value in a slot. -/
def slotCard (regions : Regions) (k : Kind) (enabled : Bool) (a : Attr)
    (v : Value (Tree Unit)) : Nat :=
  valueCard k a (regions.below k a enabled) (v.map fun t => (t, t.card regions))

variable {regions : Regions} {k : Kind} {enabled : Bool} {a : Attr}

theorem card_of_not_pool (vs : List (Value (Tree Unit))) (h : ¬ (enabled = true ∧ k = .pool)) :
    (node () k vs).card regions enabled =
      ((k.attrs.zip vs).map fun slot => slotCard regions k enabled slot.1 slot.2).prod := by
  rw [card, elim_node, if_neg h, List.zip_map_right, List.map_map]
  rfl

theorem card_pool {vs : List (Value (Tree Unit))} {arguments : List (Tree Unit)}
    (h : Kind.pool.valueOf? vs .arguments = some (.nodes arguments)) :
    (node () .pool vs).card regions true = (arguments.map fun t => t.card regions true).sum := by
  rw [card, elim_node, if_pos ⟨rfl, rfl⟩, Kind.valueOf?_map, h]
  simp only [Value.map, Option.map_some, Option.elim_some, Value.children, List.map_map]
  rfl

/-- A slot has as many alternatives as its children make. -/
theorem length_slotAlternatives {v : Value (Tree Unit)}
    (h : ∀ t ∈ v.children, ∀ enabled,
      (t.alternatives regions enabled).length = t.card regions enabled) :
    (slotAlternatives regions k enabled a v).length = slotCard regions k enabled a v := by
  cases v with
  | node t => rw [slotAlternatives_node, List.length_map, h t (by simp [Value.children])]; rfl
  | optional child =>
      cases child with
      | none => rfl
      | some t => rw [slotAlternatives_some, List.length_map, h t (by simp [Value.children])]; rfl
  | nodes ts =>
      rw [slotAlternatives_nodes, List.length_map, List.length_map, length_product, List.map_map]
      change _ = ((ts.map fun t => (t, t.card regions)).map _).prod
      rw [List.map_map]
      refine congrArg List.prod (List.map_congr_left fun t ht => ?_)
      rw [Function.comp_apply, Function.comp_apply, segments, apply_ite List.length,
        List.length_map, h t ht]
      rfl
  | _ => rfl

/-- The formula counts the alternatives. -/
theorem length_alternatives {t : Tree Unit} (ht : t.Valid) (enabled : Bool) :
    (t.alternatives regions enabled).length = t.card regions enabled := by
  induction t using induct generalizing enabled with
  | step l k vs ih =>
      obtain ⟨hadmits, hvalid⟩ := valid_node_iff.1 ht
      by_cases hpool : enabled = true ∧ k = .pool
      · obtain ⟨rfl, rfl⟩ := hpool
        obtain ⟨arguments, harguments⟩ := Kind.exists_arguments hadmits
        have hv := Kind.mem_of_valueOf? harguments
        rw [alternatives_pool _ harguments, card_pool harguments, List.length_flatMap]
        refine congrArg List.sum (List.map_congr_left fun t ht => ?_)
        exact ih _ hv t ht (hvalid _ hv t ht) true
      · rw [alternatives_of_not_pool _ _ _ _ hpool, card_of_not_pool _ hpool, List.length_map,
          length_product, List.map_map]
        refine congrArg List.prod (List.map_congr_left fun slot hslot => ?_)
        have hv := (List.of_mem_zip hslot).2
        exact length_slotAlternatives fun t ht => ih _ hv t ht (hvalid _ hv t ht)

/-! ## Different alternatives -/

/-- All segments that an item offers to a list have one length. -/
theorem length_of_mem_segments {t : Tree Unit} {segment : List (Tree Unit)}
    (h : segment ∈ segments regions k a enabled t) :
    segment.length = if Spliced k a t then (t.alternatives regions enabled).length else 1 := by
  rw [segments] at h
  split at h
  · rename_i hspliced
    rw [List.mem_singleton.1 h, if_pos hspliced]
  · rename_i hspliced
    obtain ⟨u, -, rfl⟩ := List.mem_map.1 h
    rw [if_neg hspliced, List.length_singleton]

/-- Different choices of segments make different lists. -/
theorem nodup_map_flatten {ts : List (Tree Unit)}
    (h : ∀ t ∈ ts, (t.alternatives regions enabled).Nodup) :
    ((product (ts.map (segments regions k a enabled))).map List.flatten).Nodup := by
  have hlengths : ∀ choice ∈ product (ts.map (segments regions k a enabled)),
      choice.map List.length = ts.map fun t =>
        if Spliced k a t then (t.alternatives regions enabled).length else 1 := by
    intro choice hchoice
    have hsegments := List.forall₂_map_left_iff.1 (mem_product_iff.1 hchoice)
    rw [← List.forall₂_eq_eq_eq, List.forall₂_map_left_iff, List.forall₂_map_right_iff]
    exact hsegments.flip.imp fun segment t hsegment => length_of_mem_segments hsegment
  refine List.Nodup.map_on (fun c hc d hd heq => ?_) (nodup_product ?_)
  · exact List.eq_iff_flatten_eq.2 ⟨heq, (hlengths c hc).trans (hlengths d hd).symm⟩
  · refine List.forall_mem_map.2 fun t ht => ?_
    rw [segments]
    split
    · exact List.nodup_singleton _
    · exact (h t ht).map List.singleton_injective

theorem nodup_slotAlternatives {v : Value (Tree Unit)}
    (h : ∀ t ∈ v.children, (t.alternatives regions (regions.below k a enabled)).Nodup) :
    (slotAlternatives regions k enabled a v).Nodup := by
  have hleaf (hv : v.children = []) : (slotAlternatives regions k enabled a v).Nodup := by
    rw [slotAlternatives_eq_singleton (by simp [hv])]
    exact List.nodup_singleton v
  cases v with
  | node t =>
      rw [slotAlternatives_node]
      exact (h t (by simp [Value.children])).map fun _ _ heq => by cases heq; rfl
  | optional child =>
      cases child with
      | none => exact hleaf rfl
      | some t =>
          rw [slotAlternatives_some]
          exact (h t (by simp [Value.children])).map fun _ _ heq => by cases heq; rfl
  | nodes ts =>
      rw [slotAlternatives_nodes]
      exact (nodup_map_flatten h).map fun _ _ heq => by cases heq; rfl
  | _ => exact hleaf rfl

/-- If no pool that is expanded repeats an alternative, then the tree does not. -/
theorem nodup_alternatives {t : Tree Unit} {inside : Bool}
    (h : ∀ place ∈ t.places inside, place.2.kind = .pool → regions.expands place.1 = true →
      (place.2.alternatives regions true).Nodup) :
    (t.alternatives regions (regions.expands inside)).Nodup := by
  induction t using induct generalizing inside with
  | step l k vs ih =>
      by_cases hpool : regions.expands inside = true ∧ k = .pool
      · rw [hpool.1]
        exact h _ (self_mem_places _ inside) hpool.2 hpool.1
      · rw [places_node, List.forall_mem_cons] at h
        rw [alternatives_of_not_pool _ _ _ _ hpool]
        refine (nodup_product (List.forall_mem_map.2 fun slot hslot => ?_)).map
          fun _ _ heq => by cases heq; rfl
        refine nodup_slotAlternatives fun t ht => ?_
        rw [regions.below_expands]
        refine ih _ (List.of_mem_zip hslot).2 t ht fun place hplace => h.2 place ?_
        exact List.mem_flatMap.2 ⟨slot, hslot, List.mem_flatMap.2 ⟨t, ht, hplace⟩⟩

/-! ## Neutral forms -/

/-- Neutral forms have the same places. -/
theorem places_neutral {α : Type} (t : Tree α) (inside : Bool) :
    t.neutral.places inside = (t.places inside).map (Prod.map id neutral) := by
  induction t using induct generalizing inside with
  | step l k vs ih =>
      rw [neutral_node, places_node, places_node, List.map_cons, Prod.map_apply, neutral_node,
        List.zip_map_right, List.flatMap_map, List.map_flatMap]
      refine congrArg _ (List.flatMap_congr fun slot hslot => ?_)
      simp only [Prod.map_fst, Prod.map_snd, id_eq, Value.children_neutral, Value.children_map,
        List.flatMap_map, List.map_flatMap]
      exact List.flatMap_congr fun t ht => ih _ (List.of_mem_zip hslot).2 t ht _

/-- If no pool that is expanded has two alternatives of one neutral form, then the tree has
none. -/
theorem nodup_neutral_alternatives {α : Type} {t : Tree α} (ht : t.Valid) {inside : Bool}
    (h : ∀ place ∈ t.places inside, place.2.kind = .pool → regions.expands place.1 = true →
      ((place.2.plain.alternatives regions true).map neutral).Nodup) :
    ((t.plain.alternatives regions (regions.expands inside)).map neutral).Nodup := by
  have hneutral {u : Tree α} (hu : u ∈ t.subtrees) (enabled : Bool) :
      (u.plain.alternatives regions enabled).map neutral =
        u.neutral.alternatives regions enabled := by
    rw [← alternatives_neutral regions (valid_plain (ht.of_mem_subtrees hu)), neutral_plain]
  rw [hneutral (self_mem_subtrees t)]
  refine nodup_alternatives fun place hplace hkind hexpands => ?_
  rw [places_neutral] at hplace
  obtain ⟨⟨inside', u⟩, hu, rfl⟩ := List.mem_map.1 hplace
  rw [Prod.map_apply, kind_neutral] at hkind
  rw [Prod.map_apply, ← hneutral (mem_subtrees_of_mem_places hu)]
  exact h (inside', u) hu hkind hexpands

end Tree

/-! ## Unpooling -/

namespace Store

variable {s : Store} {a b : NodeId} {p q : Tree Unit} {ids : List NodeId} {ps : List (Tree Unit)}

/-- The node is unpooled into nodes no two of which are equal. -/
def UnpooledApart (s : Store) (id : NodeId) (regions : Regions) : Prop :=
  ∃ answers s', s.unpool id regions = .ok (answers, s') ∧
    answers.Pairwise fun a b => s'.same a b = .ok false

theorem unequal_iff_neutral_ne (hs : s.Valid) (hp : s.Denotes a p) (hq : s.Denotes b q) :
    s.same a b = .ok false ↔ p.neutral ≠ q.neutral := by
  obtain ⟨t, ht, rfl⟩ := hp
  obtain ⟨u, hu, rfl⟩ := hq
  have hneutral : t.neutral = u.neutral ↔ t.erase = u.erase :=
    ⟨Tree.erase_eq_of_neutral_eq,
      Tree.neutral_eq_of_erase_eq (hs.unfolding? ht) (hs.unfolding? hu)⟩
  rw [same_of_unfolding? ht hu, Except.ok.injEq, ← Bool.not_eq_true, Tree.same_iff_erase_eq,
    Tree.neutral_plain, Tree.neutral_plain, ne_eq, hneutral]

theorem forall_unequal_iff (hs : s.Valid) (hp : s.Denotes a p) (h : List.Forall₂ s.Denotes ids ps) :
    (∀ b ∈ ids, s.same a b = .ok false) ↔ p.neutral ∉ ps.map Tree.neutral := by
  induction h with
  | nil => simp
  | cons hq _ ih =>
      rw [List.forall_mem_cons, List.map_cons, List.mem_cons, not_or, ih,
        unequal_iff_neutral_ne hs hp hq]

/-- No two of the nodes are equal exactly if what they stand for has different neutral forms. -/
theorem pairwise_unequal_iff (hs : s.Valid) (h : List.Forall₂ s.Denotes ids ps) :
    (ids.Pairwise fun a b => s.same a b = .ok false) ↔ (ps.map Tree.neutral).Nodup := by
  induction h with
  | nil => simp
  | cons hp hps ih =>
      rw [List.pairwise_cons, List.map_cons, List.nodup_cons, ih, forall_unequal_iff hs hp hps]

/-- The alternatives of the unfolding show whether a node is unpooled into unequal nodes. -/
theorem unpooledApart_iff (hs : s.Valid) {t : Tree NodeId} (ht : s.unfolding? a = some t)
    (regions : Regions) :
    s.UnpooledApart a regions ↔
      ((t.plain.alternatives regions regions.other).map Tree.neutral).Nodup := by
  obtain ⟨answers, s', hrun, -, hs', hdenotes⟩ :=
    unpool_denotes hs (denotes_of_unfolding? ht) regions
  rw [← pairwise_unequal_iff hs' hdenotes]
  refine ⟨fun ⟨_, _, hrun', hapart⟩ => ?_, fun hapart => ⟨answers, s', hrun, hapart⟩⟩
  cases hrun.symm.trans hrun'
  exact hapart

end Store

/-- Unpooling a node of a well-formed store answers with as many nodes as the formula counts
on its unfolding. If every pool at an expanded place of the unfolding is unpooled into nodes
no two of which are equal, then no two of the answers are equal. -/
theorem unpool_counts_choices {s : Store} (hs : s.WellFormed) {id : NodeId} {n : Node}
    (hn : s.node? id = some n) (regions : Regions) :
    ∃ t answers s', s.unfolding? id = some t ∧ s.unpool id regions = .ok (answers, s') ∧
      answers.length = t.plain.card regions regions.other ∧
      ((∀ place ∈ t.places false, place.2.kind = .pool → regions.expands place.1 = true →
          s.UnpooledApart place.2.label ⟨true, regions.condition⟩) →
        answers.Pairwise fun a b => s'.same a b = .ok false) := by
  obtain ⟨t, ht⟩ := hs.exists_unfolding? hn
  have hvalid := hs.valid.unfolding? ht
  obtain ⟨answers, s', hrun, -, hs', hdenotes⟩ :=
    Store.unpool_denotes hs.valid (Store.denotes_of_unfolding? ht) regions
  refine ⟨t, answers, s', ht, hrun, ?_, fun hpools => ?_⟩
  · rw [hdenotes.length_eq, Tree.length_alternatives (Tree.valid_plain hvalid)]
  · rw [Store.pairwise_unequal_iff hs' hdenotes]
    change ((t.plain.alternatives regions (regions.expands false)).map Tree.neutral).Nodup
    refine Tree.nodup_neutral_alternatives hvalid fun place hplace hkind hexpands => ?_
    have hplace' := (Store.unfolds_of_unfolding? ht).subtrees _
      (Tree.mem_subtrees_of_mem_places hplace)
    -- In both regions a pool that is expanded starts out enabled.
    have hsame : place.2.plain.alternatives regions =
        place.2.plain.alternatives ⟨true, regions.condition⟩ := Tree.alternatives_congr rfl _
    rw [hsame]
    exact (Store.unpooledApart_iff hs.valid hplace' _).1 (hpools place hplace hkind hexpands)

/-- In `p((1;2)) :- q((1;2)) : p((1;2)).` the pool of the head makes two alternatives. The
conditional literal makes none, because all that it stands for is put into one body. -/
theorem unpool_counts_choices_pooledRule :
    Store.pooledRule.WellFormed ∧
      ∃ t answers s', Store.pooledRule.unfolding? ⟨10⟩ = some t ∧
        Store.pooledRule.unpool ⟨10⟩ .everywhere = .ok (answers, s') ∧
        answers.length = t.plain.card .everywhere true ∧ t.plain.card .everywhere true = 2 ∧
        answers.Pairwise fun a b => s'.same a b = .ok false := by
  have hs : Store.pooledRule.WellFormed := .of_inOrder (by decide)
  have hn : Store.pooledRule.node? ⟨10⟩ = some _ := rfl
  obtain ⟨t, answers, s', ht, hrun, hlength, hapart⟩ := unpool_counts_choices hs hn .everywhere
  have hpools : ∀ t ∈ Store.pooledRule.unfolding? ⟨10⟩, ∀ place ∈ t.places false,
      place.2.kind = .pool → place.2.label = ⟨2⟩ := by decide
  have hpool : Store.pooledRule.UnpooledApart ⟨2⟩ .everywhere := by
    refine ⟨[⟨0⟩, ⟨1⟩], Store.pooledRule, rfl, List.pairwise_cons.2 ⟨?_, ?_⟩⟩
    · exact List.forall_mem_singleton.2 ((Store.same_of_unfolding? rfl rfl).trans rfl)
    · exact List.pairwise_singleton _ _
  have hcard : ∀ t ∈ Store.pooledRule.unfolding? ⟨10⟩, t.plain.card .everywhere true = 2 := by
    decide
  refine ⟨hs, t, answers, s', ht, hrun, hlength, hcard t ht, hapart fun place hplace hkind _ => ?_⟩
  rw [hpools t ht place hplace hkind]
  exact hpool

end AnswerSet
