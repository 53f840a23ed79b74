import AnswerSet.Proofs.Pool.Regions

/-!
# Trees without pools to expand

Whether a pool is expanded depends on its place: inside of a condition, that is below the
condition of a node that is no head aggregate element, or outside of all of them. A tree is
pool-free for some regions if it has no pool at a place that they expand.

Alternatives are pool-free. A pool makes room for its arguments and items are spliced into
other lists, but neither moves anything into a condition or out of one. A pool-free node is
its own only alternative, and unpooling it adds nothing to the store. Unpooling therefore
reaches its normal form in one go.
-/

namespace AnswerSet

/-! ## Places -/

/-- Pools are expanded at places inside of conditions, or outside of them. -/
def Regions.expands (regions : Regions) (inside : Bool) : Bool :=
  if inside then regions.condition else regions.other

/-- What is below the attribute of a node is inside of a condition. -/
def Kind.insideBelow (k : Kind) (a : Attr) (inside : Bool) : Bool :=
  inside || (a = .condition && k ≠ .headAggregateElement)

theorem Regions.below_expands (regions : Regions) (k : Kind) (a : Attr) (inside : Bool) :
    regions.below k a (regions.expands inside) = regions.expands (k.insideBelow a inside) := by
  by_cases h : a = .condition ∧ k ≠ .headAggregateElement
  · simp [below, Kind.insideBelow, expands, h]
  · have hinside : k.insideBelow a inside = inside := by
      simpa [Kind.insideBelow] using fun ha hk => absurd ⟨ha, hk⟩ h
    rw [below, if_neg h, hinside]

namespace Tree

variable {α : Type} {regions : Regions}

/-- The subtrees at all places with whether the place is inside of a condition, given that
of the root. Parents stand before their children. -/
def places : Tree α → Bool → List (Bool × Tree α) :=
  elim fun l k vs inside => (inside, .node l k (vs.map fun v => v.map Prod.fst)) ::
    (k.attrs.zip vs).flatMap fun slot =>
      slot.2.children.flatMap fun child => child.2 (k.insideBelow slot.1 inside)

theorem places_node (l : α) (k : Kind) (vs : List (Value (Tree α))) (inside : Bool) :
    (node l k vs).places inside = (inside, .node l k vs) ::
      (k.attrs.zip vs).flatMap fun slot =>
        slot.2.children.flatMap fun t => t.places (k.insideBelow slot.1 inside) := by
  rw [places, elim_node]
  refine congrArg₂ (fun values below => (inside, node l k values) :: below) (map_fst_map _ vs) ?_
  simp only [List.zip_map_right, List.flatMap_map, Prod.map_fst, Prod.map_snd, id_eq,
    Value.children_map]

theorem self_mem_places (t : Tree α) (inside : Bool) : (inside, t) ∈ t.places inside := by
  cases t with
  | node l k vs => rw [places_node]; exact List.mem_cons_self

/-- Every subtree of a tree that follows the schema has a place. -/
theorem exists_mem_places {t : Tree α} (ht : t.Valid) (inside : Bool) {w : Tree α}
    (hw : w ∈ t.subtrees) : ∃ inside', (inside', w) ∈ t.places inside := by
  induction t using induct generalizing inside with
  | step l k vs ih =>
      obtain ⟨hadmits, hvalid⟩ := valid_node_iff.1 ht
      rw [subtrees_node, List.mem_append, List.mem_singleton] at hw
      rcases hw with hw | rfl
      · obtain ⟨t, ht, hw⟩ := List.mem_flatMap.1 hw
        obtain ⟨v, hv, htv⟩ := List.mem_flatMap.1 ht
        have hlength : vs.length ≤ k.attrs.length := by
          rw [Kind.attrs, List.length_map, hadmits.length_eq]
        rw [← List.map_snd_zip hlength] at hv
        obtain ⟨slot, hslot, rfl⟩ := List.mem_map.1 hv
        have hv := (List.of_mem_zip hslot).2
        obtain ⟨inside', hw'⟩ :=
          ih _ hv t htv (hvalid _ hv t htv) (k.insideBelow slot.1 inside) hw
        refine ⟨inside', ?_⟩
        rw [places_node]
        refine List.mem_cons_of_mem _ (List.mem_flatMap.2 ⟨slot, hslot, ?_⟩)
        exact List.mem_flatMap.2 ⟨t, htv, hw'⟩
      · exact ⟨inside, self_mem_places _ inside⟩

/-! ## Pool-free trees -/

/-- There is no pool at a place that is expanded. -/
def PoolFree (regions : Regions) (inside : Bool) (t : Tree α) : Prop :=
  ∀ place ∈ t.places inside, place.2.kind = .pool → regions.expands place.1 = false

instance (inside : Bool) (t : Tree α) : Decidable (t.PoolFree regions inside) :=
  inferInstanceAs (Decidable (∀ place ∈ t.places inside, _))

theorem poolFree_node_iff {l : α} {k : Kind} {vs : List (Value (Tree α))} {inside : Bool} :
    (node l k vs).PoolFree regions inside ↔
      ¬ (regions.expands inside = true ∧ k = .pool) ∧ ∀ slot ∈ k.attrs.zip vs,
        ∀ t ∈ slot.2.children, t.PoolFree regions (k.insideBelow slot.1 inside) := by
  simp only [PoolFree, places_node, List.forall_mem_cons, List.mem_flatMap, kind_node]
  refine and_congr ⟨fun h hpool => ?_, fun h hk => ?_⟩
    ⟨fun h slot hslot t ht place hplace => ?_, ?_⟩
  · rw [h hpool.2] at hpool
    cases hpool.1
  · simpa [hk] using h
  · exact h place ⟨slot, hslot, t, ht, hplace⟩
  · rintro h place ⟨slot, hslot, t, ht, hplace⟩
    exact h slot hslot t ht place hplace

theorem poolFree_plain_iff {t : Tree α} {inside : Bool} :
    t.plain.PoolFree regions inside ↔ t.PoolFree regions inside := by
  induction t using induct generalizing inside with
  | step l k vs ih =>
      rw [plain_node, poolFree_node_iff, poolFree_node_iff, List.zip_map_right, List.forall_mem_map]
      refine and_congr_right fun _ => forall₂_congr fun slot hslot => ?_
      simp only [Prod.map_fst, Prod.map_snd, id_eq, Value.children_map, List.forall_mem_map]
      exact forall₂_congr fun t ht => ih slot.2 (List.of_mem_zip hslot).2 t ht

/-- If pools are expanded everywhere, then there is none. -/
theorem PoolFree.kind_ne_pool {t : Tree α} {inside : Bool} (h : t.PoolFree .everywhere inside)
    (ht : t.Valid) : ∀ w ∈ t.subtrees, w.kind ≠ .pool := by
  intro w hw hkind
  obtain ⟨inside', hw'⟩ := exists_mem_places ht inside hw
  have hexpands := h _ hw' hkind
  cases inside' <;> cases hexpands

/-! ## Alternatives are pool-free -/

/-- Members of a list whose places are named come from members at the places of these
names. -/
theorem exists_of_forall₂_zip {α β γ : Type} {R : α × β → γ → Prop} {as : List α} {bs : List β}
    {cs : List γ} (h : List.Forall₂ R (as.zip bs) cs) {slot : α × γ} (hslot : slot ∈ as.zip cs) :
    ∃ b ∈ bs, R (slot.1, b) slot.2 := by
  induction as generalizing bs cs with
  | nil => simp at hslot
  | cons a as ih =>
      cases cs with
      | nil => simp at hslot
      | cons c cs =>
          cases bs with
          | nil => cases h
          | cons b bs =>
              cases h with
              | cons hfirst hrest =>
                  rcases List.mem_cons.1 hslot with rfl | hslot
                  · exact ⟨b, List.mem_cons_self, hfirst⟩
                  · obtain ⟨b', hb', hR⟩ := ih hrest hslot
                    exact ⟨b', List.mem_cons_of_mem b hb', hR⟩

/-- The alternatives of the value in a slot have pool-free children if those of its own
children are pool-free. -/
theorem poolFree_of_mem_slotAlternatives {k : Kind} {a : Attr} {inside : Bool}
    {v w : Value (Tree Unit)}
    (h : ∀ t ∈ v.children, ∀ inside, ∀ r ∈ t.alternatives regions (regions.expands inside),
      r.PoolFree regions inside)
    (hw : w ∈ slotAlternatives regions k (regions.expands inside) a v) :
    ∀ r ∈ w.children, r.PoolFree regions (k.insideBelow a inside) := by
  have hleaf (hv : v.children = []) :
      ∀ r ∈ w.children, r.PoolFree regions (k.insideBelow a inside) := by
    rw [slotAlternatives_eq_singleton (by simp [hv]), List.mem_singleton] at hw
    simp [hw, hv]
  cases v with
  | node t =>
      rw [slotAlternatives_node, regions.below_expands] at hw
      obtain ⟨u, hu, rfl⟩ := List.mem_map.1 hw
      simpa [Value.children] using h t (by simp [Value.children]) _ u hu
  | optional child =>
      cases child with
      | none => exact hleaf rfl
      | some t =>
          rw [slotAlternatives_some, regions.below_expands] at hw
          obtain ⟨u, hu, rfl⟩ := List.mem_map.1 hw
          simpa [Value.children] using h t (by simp [Value.children]) _ u hu
  | nodes ts =>
      rw [slotAlternatives_nodes, regions.below_expands, List.map_map] at hw
      obtain ⟨choice, hchoice, rfl⟩ := List.mem_map.1 hw
      intro r hr
      obtain ⟨segment, hsegment, hr⟩ := List.mem_flatten.1 hr
      have hsegments := List.forall₂_map_left_iff.1 (mem_product_iff.1 hchoice)
      obtain ⟨t, ht, hsegment⟩ := exists_of_forall₂_left (List.Forall₂.flip hsegments) hsegment
      refine h t ht _ r ?_
      -- A segment holds all alternatives of its item, or one of them.
      rw [segments] at hsegment
      split at hsegment
      · rwa [List.mem_singleton.1 hsegment] at hr
      · obtain ⟨u, hu, rfl⟩ := List.mem_map.1 hsegment
        rwa [List.mem_singleton.1 hr]
  | _ => exact hleaf rfl

/-- Alternatives have no pools left where pools are expanded. -/
theorem poolFree_of_mem_alternatives {t r : Tree Unit} {inside : Bool}
    (hr : r ∈ t.alternatives regions (regions.expands inside)) : r.PoolFree regions inside := by
  induction t using induct generalizing r inside with
  | step l k vs ih =>
      by_cases hpool : regions.expands inside = true ∧ k = .pool
      · rw [alternatives, elim_node, if_pos hpool, Kind.valueOf?_map] at hr
        obtain ⟨argument, hargument, hr⟩ := List.mem_flatMap.1 hr
        cases harguments : k.valueOf? vs .arguments with
        | none => simp [harguments] at hargument
        | some v =>
            rw [harguments, Option.map_some, Option.elim_some, Value.children_map] at hargument
            obtain ⟨t, ht, rfl⟩ := List.mem_map.1 hargument
            exact ih v (Kind.mem_of_valueOf? harguments) t ht hr
      · rw [alternatives_of_not_pool _ _ _ _ hpool] at hr
        obtain ⟨choice, hchoice, rfl⟩ := List.mem_map.1 hr
        have hfactors := List.forall₂_map_left_iff.1 (mem_product_iff.1 hchoice)
        refine poolFree_node_iff.2 ⟨hpool, fun slot hslot => ?_⟩
        obtain ⟨v, hv, hw⟩ := exists_of_forall₂_zip hfactors hslot
        exact poolFree_of_mem_slotAlternatives (fun t ht inside r => ih v hv t ht) hw

/-! ## Pool-free trees stand for themselves -/

/-- A value whose children stand for themselves stands for itself. -/
theorem expandValue_eq_pure_none {v : Value ExpandedChild} (setLike : Bool) {enabled : Bool}
    (h : ∀ child ∈ v.children, child.2 enabled = pure none) :
    expandValue setLike enabled v = pure none := by
  cases v with
  | node child => rw [expandValue, h child (by simp [Value.children])]; rfl
  | optional child =>
      cases child with
      | none => rfl
      | some child => rw [expandValue, h child (by simp [Value.children])]; rfl
  | nodes items =>
      have hitems : items.mapM (fun item => item.2 enabled) =
          (pure (items.map fun _ => none) : StateM Store _) := mapM_eq_pure h
      simp [expandValue, expandList, hitems]
  | _ => rfl

/-- A pool-free tree stands for itself, and expanding it allocates nothing. -/
theorem PoolFree.expand_eq {t : Tree NodeId} {inside : Bool} (h : t.PoolFree regions inside) :
    t.expand regions (regions.expands inside) = pure none := by
  induction t using induct generalizing inside with
  | step id k vs ih =>
      obtain ⟨hpool, hslots⟩ := poolFree_node_iff.1 h
      have hvalues : ∀ slot ∈ k.attrs.zip (expansions regions vs),
          expandValue (isSetLike k slot.1) (if isCondition k slot.1 then regions.condition
            else regions.expands inside) slot.2 = pure none := by
        rw [expansions, List.zip_map_right, List.forall_mem_map]
        intro slot hslot
        refine expandValue_eq_pure_none _ ?_
        simp only [Prod.map_fst, Prod.map_snd, id_eq, Value.children_map, List.forall_mem_map,
          ← Regions.below_eq, regions.below_expands]
        exact fun t ht => ih slot.2 (List.of_mem_zip hslot).2 t ht (hslots slot hslot t ht)
      have hnone : expandValues regions k (regions.expands inside) (expansions regions vs) =
          pure none := by
        rw [expandValues, mapM_eq_pure hvalues, pure_bind, if_pos (by simp)]
      rw [expand_of_not_pool _ _ _ hpool, hnone]
      rfl

end Tree

/-! ## Unpooling -/

/-- A pool-free node is its own only alternative, and nothing is added to the store. -/
theorem Store.unpool_of_poolFree {s : Store} {id : NodeId} {t : Tree NodeId} {regions : Regions}
    (ht : s.unfolding? id = some t) (h : t.PoolFree regions false) :
    s.unpool id regions = .ok ([id], s) := by
  obtain rfl := label_of_unfolding? ht
  have hexpand : t.expand regions regions.other = pure none := h.expand_eq
  rw [unpool_of_unfolding? ht, hexpand]
  rfl

/-- The alternatives of a node of a well-formed store have no pool where pools are expanded,
and none at all if pools are expanded everywhere. Unpooling one of them again gives this very
node and leaves the store as it is. -/
theorem unpool_reaches_normal_form {s : Store} (hs : s.WellFormed) {id : NodeId} {n : Node}
    (hn : s.node? id = some n) (regions : Regions) :
    ∃ answers s', s.unpool id regions = .ok (answers, s') ∧
      ∀ r ∈ answers, ∃ u, s'.unfolding? r = some u ∧ u.PoolFree regions false ∧
        s'.unpool r regions = .ok ([r], s') ∧
        (regions = .everywhere → ∀ w ∈ u.subtrees, w.kind ≠ .pool) := by
  obtain ⟨t, ht⟩ := hs.exists_unfolding? hn
  obtain ⟨answers, s', hrun, -, hvalid, hdenotes⟩ :=
    Store.unpool_denotes hs.valid (Store.denotes_of_unfolding? ht) regions
  refine ⟨answers, s', hrun, fun r hr => ?_⟩
  obtain ⟨p, hp, u, hu, rfl⟩ := exists_of_forall₂_left hdenotes hr
  have hfree : u.PoolFree regions false :=
    Tree.poolFree_plain_iff.1 (Tree.poolFree_of_mem_alternatives hp)
  refine ⟨u, hu, hfree, Store.unpool_of_poolFree hu hfree, ?_⟩
  rintro rfl
  exact hfree.kind_ne_pool (hvalid.unfolding? hu)

/-- The rule `p((1;2)) :- q((1;2)) : p((1;2)).` has two alternatives outside of conditions.
Both keep the pool in the condition, and neither is unpooled any further. -/
theorem unpool_reaches_normal_form_pooledRule :
    Store.pooledRule.WellFormed ∧
      ∃ answers s', Store.pooledRule.unpool ⟨10⟩ .outside = .ok (answers, s') ∧
        answers = [⟨25⟩, ⟨26⟩] ∧
        ∀ r ∈ answers, ∃ u, s'.unfolding? r = some u ∧ u.PoolFree .outside false ∧
          s'.unpool r .outside = .ok ([r], s') ∧
          (Regions.outside = .everywhere → ∀ w ∈ u.subtrees, w.kind ≠ .pool) := by
  have hs : Store.pooledRule.WellFormed := .of_inOrder (by decide)
  have hn : Store.pooledRule.node? ⟨10⟩ = some _ := rfl
  obtain ⟨answers, s', hrun, hanswers⟩ := unpool_reaches_normal_form hs hn .outside
  refine ⟨hs, answers, s', hrun, ?_, hanswers⟩
  cases hrun
  rfl

end AnswerSet
