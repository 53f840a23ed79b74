import AnswerSet.Proofs.Pool.Product
import AnswerSet.Proofs.Pool.Slots
import AnswerSet.Proofs.Pool.Unpool

/-!
# One region after the other

Pools outside of conditions and pools inside them can be expanded in two passes. The first
pass chooses alternatives outside and leaves the conditions as they are; the second expands
the conditions of every alternative of the first. Where condition owners stand only where
their alternatives end up side by side in one list, or in the last slot of a node, the two
passes give the same alternatives in the same order as one pass through both regions.

The reason is that the second pass makes one tree out of each alternative of a node that is
no owner itself: the conditions below it are spliced into lists. Of a condition owner it
makes several, but those vary fastest, because the condition is the last slot of its kind.
-/

namespace AnswerSet

/-- Pools are expanded outside of conditions only. -/
def Regions.outside : Regions := ⟨true, false⟩

/-- Pools are expanded inside of conditions only. -/
def Regions.inside : Regions := ⟨false, true⟩

/-- Nodes of the kind have a condition. -/
def Kind.ownsCondition : Kind → Bool
  | .conditionalLiteral | .bodyAggregateElement | .theoryAtomElement | .disjointElement => true
  | _ => false

namespace Tree

/-! ## Outside of conditions -/

section Outside

variable {α β : Type}

/-- The slots of a node other than the condition of an owner. -/
def outsideSlots (k : Kind) (vs : List (Value β)) : List (Attr × Value β) :=
  (k.attrs.zip vs).filter fun slot => !(k.ownsCondition && slot.1 = .condition)

theorem mem_outsideSlots_iff {k : Kind} {vs : List (Value β)} {slot : Attr × Value β} :
    slot ∈ outsideSlots k vs ↔
      slot ∈ k.attrs.zip vs ∧ ¬ (k.ownsCondition = true ∧ slot.1 = .condition) := by
  cases hk : k.ownsCondition <;> simp [outsideSlots, hk]

theorem outsideSlots_map {γ : Type} (f : β → γ) (k : Kind) (vs : List (Value β)) :
    outsideSlots k (vs.map fun v => v.map f) =
      (outsideSlots k vs).map fun slot => (slot.1, slot.2.map f) := by
  rw [outsideSlots, List.zip_map_right, List.filter_map]
  rfl

/-- The subtrees at all occurrences outside of conditions, parents before their children. -/
def outside : Tree α → List (Tree α) :=
  elim fun l k vs => .node l k (vs.map fun v => v.map Prod.fst) ::
    (outsideSlots k vs).flatMap fun slot => slot.2.children.flatMap Prod.snd

theorem outside_node (l : α) (k : Kind) (vs : List (Value (Tree α))) :
    (node l k vs).outside = .node l k vs ::
      (outsideSlots k vs).flatMap fun slot => slot.2.children.flatMap outside := by
  rw [outside, elim_node]
  refine congrArg₂ (fun values below => node l k values :: below) (map_fst_map _ vs) ?_
  simp only [outsideSlots_map, List.flatMap_map, Value.children_map]

theorem self_mem_outside (t : Tree α) : t ∈ t.outside := by
  cases t with
  | node l k vs => rw [outside_node]; exact List.mem_cons_self

/-- What is outside of conditions in a child is so in its parent. -/
theorem mem_outside_of_child {l : α} {k : Kind} {vs : List (Value (Tree α))}
    {slot : Attr × Value (Tree α)} (hslot : slot ∈ outsideSlots k vs) {t : Tree α}
    (ht : t ∈ slot.2.children) {w : Tree α} (hw : w ∈ t.outside) : w ∈ (node l k vs).outside := by
  rw [outside_node]
  refine List.mem_cons_of_mem _ (List.mem_flatMap.2 ⟨slot, hslot, ?_⟩)
  exact List.mem_flatMap.2 ⟨t, ht, hw⟩

/-- Condition owners stand where the grammar of programs puts them. What else there is below
an owner, or among the terms of a head aggregate element, does not matter. -/
structure GrammarShaped (t : Tree α) : Prop where
  /-- A condition owner other than the root is an element of a set, a conditional literal in
  a list, or the conditional literal of a head aggregate element. -/
  owners : ∀ p ∈ t.outside, ∀ slot ∈ outsideSlots p.kind p.values, ∀ c ∈ slot.2.children,
    c.kind.ownsCondition = true → (slot.1 = .elements ∧ p.kind.collects = true) ∨
      c.kind = .conditionalLiteral ∧ (slot.2.shape = .nodes ∨
        p.kind = .headAggregateElement ∧ slot.1 = .condition)
  /-- A head aggregate element with a condition owner in it, other than the root, is an
  element of a set. -/
  heads : ∀ p ∈ t.outside, ∀ slot ∈ outsideSlots p.kind p.values, ∀ c ∈ slot.2.children,
    c.kind = .headAggregateElement → (∃ w ∈ c.outside, w.kind.ownsCondition = true) →
      slot.1 = .elements ∧ p.kind.collects = true
  /-- Nothing below a pool is a condition owner. -/
  pools : ∀ p ∈ t.outside, p.kind = .pool → ∀ w ∈ p.outside, w.kind.ownsCondition = false

theorem GrammarShaped.child {l : α} {k : Kind} {vs : List (Value (Tree α))}
    (h : (node l k vs).GrammarShaped) {slot : Attr × Value (Tree α)}
    (hslot : slot ∈ outsideSlots k vs) {t : Tree α} (ht : t ∈ slot.2.children) :
    t.GrammarShaped where
  owners p hp := h.owners p (mem_outside_of_child hslot ht hp)
  heads p hp := h.heads p (mem_outside_of_child hslot ht hp)
  pools p hp := h.pools p (mem_outside_of_child hslot ht hp)

/-- The second pass makes one tree out of every alternative of such a tree. -/
def Steady (t : Tree α) : Prop :=
  t.kind.ownsCondition = false ∧
    (t.kind = .headAggregateElement → ∀ w ∈ t.outside, w.kind.ownsCondition = false)

end Outside

/-! ## What the schema says about conditions -/

theorem ownsCondition_of_mem {k : Kind} (h : Attr.condition ∈ k.attrs)
    (hk : k ≠ .headAggregateElement) : k.ownsCondition = true := by
  revert h hk
  cases k <;> decide

theorem condition_not_mem_dropLast (k : Kind) : Attr.condition ∉ k.attrs.dropLast := by
  cases k <;> decide

theorem shape_of_collects {k : Kind} (hk : k.collects = true) :
    ∀ slot ∈ k.slots, slot.attr = .elements → slot.shape = .nodes := by
  revert hk
  cases k <;> decide

theorem below_of_outside {k : Kind} {β : Type} {vs : List (Value β)} {slot : Attr × Value β}
    (hslot : slot ∈ outsideSlots k vs) (regions : Regions) (enabled : Bool) :
    regions.below k slot.1 enabled = enabled := by
  obtain ⟨hmem, hnot⟩ := mem_outsideSlots_iff.1 hslot
  refine if_neg fun ⟨hcondition, hk⟩ => hnot ⟨?_, hcondition⟩
  exact ownsCondition_of_mem (hcondition ▸ (List.of_mem_zip hmem).1) hk

theorem below_condition {k : Kind} (hk : k.ownsCondition = true) (regions : Regions)
    (enabled : Bool) : regions.below k .condition enabled = regions.condition := by
  refine if_pos ⟨rfl, ?_⟩
  rintro rfl
  cases hk

/-! ## A pass that expands nothing -/

/-- Where no region is expanded, a tree is its only alternative. -/
theorem alternatives_eq_singleton {regions : Regions} (h : regions.condition = false)
    {t : Tree Unit} (ht : t.Valid) : t.alternatives regions false = [t] := by
  induction t using induct with
  | step l k vs ih =>
      obtain ⟨hadmits, hvalid⟩ := valid_node_iff.1 ht
      have hbelow (a : Attr) : regions.below k a false = false := by
        simp [Regions.below, h]
      have hslots : (k.attrs.zip vs).map (fun slot =>
          slotAlternatives regions k false slot.1 slot.2) = (k.attrs.zip vs).map fun slot =>
            [slot.2] := by
        refine List.map_congr_left fun slot hslot => slotAlternatives_eq_singleton fun t ht => ?_
        have hv := (List.of_mem_zip hslot).2
        rw [hbelow, ih slot.2 hv t ht (hvalid slot.2 hv t ht)]
      have hlength : vs.length ≤ k.attrs.length := by
        rw [Kind.attrs, List.length_map, hadmits.length_eq]
      rw [alternatives_of_not_pool _ _ _ _ (by simp), hslots, product_map_singleton,
        List.map_snd_zip hlength]
      rfl

/-! ## Two passes -/

/-- The second pass makes the alternatives in both regions out of those of the first. -/
def Splits (t : Tree Unit) : Prop :=
  Refines (t.alternatives .outside true) (fun r => r.alternatives .inside false)
    (t.alternatives .everywhere true)

/-- The second pass makes one tree out of each alternative of the first. -/
def Settled (t : Tree Unit) : Prop :=
  Settles (t.alternatives .outside true) fun r => r.alternatives .inside false

/-- The same for the value in a slot. -/
def SlotSplits (k : Kind) (a : Attr) (v : Value (Tree Unit)) : Prop :=
  Refines (slotAlternatives .outside k true a v) (slotAlternatives .inside k false a)
    (slotAlternatives .everywhere k true a v)

/-- The same for the value in a slot. -/
def SlotSettled (k : Kind) (a : Attr) (v : Value (Tree Unit)) : Prop :=
  Settles (slotAlternatives .outside k true a v) (slotAlternatives .inside k false a)

section Slots

variable {k : Kind} {a : Attr} {t : Tree Unit}

/-- The condition of an owner is left to the second pass. -/
theorem slotSplits_condition (hk : k.ownsCondition = true) {v : Value (Tree Unit)}
    (hv : ∀ t ∈ v.children, t.Valid) : SlotSplits k .condition v := by
  have hfirst : slotAlternatives .outside k true .condition v = [v] := by
    refine slotAlternatives_eq_singleton fun t ht => ?_
    rw [below_condition hk]
    exact alternatives_eq_singleton rfl (hv t ht)
  have hsecond : slotAlternatives .inside k false .condition v =
      slotAlternatives .everywhere k true .condition v := by
    have hsame (t : Tree Unit) : t.alternatives .inside = t.alternatives .everywhere :=
      alternatives_congr rfl t
    simp only [slotAlternatives, below_condition hk, hsame]
    rfl
  rw [SlotSplits, hfirst, Refines, List.flatMap_singleton, hsecond]

variable (hbelow : ∀ regions enabled, Regions.below regions k a enabled = enabled)

include hbelow

theorem slotSplits_node (h : t.Splits) : SlotSplits k a (.node t) := by
  simp only [SlotSplits, slotAlternatives_node, hbelow]
  exact h.map fun r _ => by rw [slotAlternatives_node, hbelow]

theorem slotSettled_node (h : t.Settled) : SlotSettled k a (.node t) := by
  simp only [SlotSettled, slotAlternatives_node, hbelow]
  exact h.map fun r _ => by rw [slotAlternatives_node, hbelow]

theorem slotSplits_some (h : t.Splits) : SlotSplits k a (.optional (some t)) := by
  simp only [SlotSplits, slotAlternatives_some, hbelow]
  exact h.map fun r _ => by rw [slotAlternatives_some, hbelow]

theorem slotSettled_some (h : t.Settled) : SlotSettled k a (.optional (some t)) := by
  simp only [SlotSettled, slotAlternatives_some, hbelow]
  exact h.map fun r _ => by rw [slotAlternatives_some, hbelow]

/-- What the second pass makes of a segment of a list. -/
def refineSegment (k : Kind) (a : Attr) (segment : List (Tree Unit)) : List (List (Tree Unit)) :=
  (product (segment.map (segments .inside k a false))).map List.flatten

omit hbelow in
/-- The second pass makes one segment out of each that an item offers in the first: it keeps
those of spliced items together, and elsewhere there is one tree for each alternative. -/
theorem segments_refine (ht : t.Splits) (hsteady : Spliced k a t ∨ t.Settled)
    (hkind : ∀ r ∈ t.alternatives .outside true, Spliced k a r ↔ Spliced k a t) :
    Refines (segments .outside k a true t) (refineSegment k a) (segments .everywhere k a true t) ∧
      Settles (segments .outside k a true t) (refineSegment k a) := by
  by_cases hspliced : Spliced k a t
  · have hall : refineSegment k a (t.alternatives .outside true) =
        [t.alternatives .everywhere true] := by
      have hsegments : (t.alternatives .outside true).map (segments .inside k a false) =
          (t.alternatives .outside true).map fun r => [r.alternatives .inside false] :=
        List.map_congr_left fun r hr => if_pos ((hkind r hr).2 hspliced)
      rw [refineSegment, hsegments, product_map_singleton, List.map_singleton,
        ← List.flatMap_def, ← ht]
    simp only [segments, if_pos hspliced]
    refine ⟨?_, ?_⟩
    · rw [Refines, List.flatMap_singleton, hall]
    · intro segment hsegment
      rw [List.mem_singleton] at hsegment
      exact ⟨_, hsegment ▸ hall⟩
  · have hsingle : ∀ r ∈ t.alternatives .outside true,
        refineSegment k a [r] = (r.alternatives .inside false).map fun u => [u] := by
      intro r hr
      have hr' : ¬ Spliced k a r := fun h => hspliced ((hkind r hr).1 h)
      simp only [refineSegment, segments, List.map_singleton, if_neg hr', product_cons, product_nil,
        List.flatMap_map, ← List.map_eq_flatMap, List.map_map]
      rfl
    simp only [segments, if_neg hspliced]
    exact ⟨ht.map hsingle, (hsteady.resolve_left hspliced).map hsingle⟩

/-- A list in which every item is spliced or settled. -/
theorem slotSplits_nodes {ts : List (Tree Unit)}
    (h : ∀ t ∈ ts, t.Splits ∧ (Spliced k a t ∨ t.Settled) ∧
      ∀ r ∈ t.alternatives .outside true, Spliced k a r ↔ Spliced k a t) :
    SlotSplits k a (.nodes ts) ∧ SlotSettled k a (.nodes ts) := by
  have hitems (t : Tree Unit) (ht : t ∈ ts) :=
    segments_refine (h t ht).1 (h t ht).2.1 (h t ht).2.2
  have hlists : ∀ choice ∈ product (ts.map (segments .outside k a true)),
      slotAlternatives .inside k false a (.nodes choice.flatten) =
        (product (List.zipWith (fun _ => refineSegment k a) ts choice)).map fun segments =>
          .nodes segments.flatten := by
    intro choice hchoice
    have hlength := (mem_product_iff.1 hchoice).length_eq
    rw [List.length_map] at hlength
    rw [slotAlternatives_nodes, hbelow, product_flatten, zipWith_right _ (by omega), List.map_map]
    rfl
  simp only [SlotSplits, SlotSettled, slotAlternatives_nodes, hbelow, List.map_map]
  constructor
  · exact (product_refines (fun t ht => (hitems t ht).1)
      fun t ht => (hitems t (List.mem_of_mem_dropLast ht)).2).map hlists
  · exact (product_settles fun t ht => (hitems t ht).2).map hlists

/-- A slot outside of conditions. -/
theorem slot_passes {v : Value (Tree Unit)} (hsplits : ∀ t ∈ v.children, t.Splits)
    (hitems : v.shape = .nodes → ∀ t ∈ v.children, (Spliced k a t ∨ t.Settled) ∧
      ∀ r ∈ t.alternatives .outside true, Spliced k a r ↔ Spliced k a t) :
    SlotSplits k a v ∧
      ((v.shape ≠ .nodes → ∀ t ∈ v.children, t.Settled) → SlotSettled k a v) := by
  have hleaf (hv : v.children = []) : SlotSplits k a v ∧ SlotSettled k a v := by
    have hone (regions : Regions) (enabled : Bool) :
        slotAlternatives regions k enabled a v = [v] :=
      slotAlternatives_eq_singleton (by simp [hv])
    simp only [SlotSplits, SlotSettled, hone]
    constructor
    · rw [Refines, List.flatMap_singleton, hone]
    · intro w hw
      rw [List.mem_singleton] at hw
      exact ⟨v, hw ▸ hone .inside false⟩
  cases v with
  | node t =>
      refine ⟨slotSplits_node hbelow (hsplits t (by simp [Value.children])), fun hsettled => ?_⟩
      exact slotSettled_node hbelow (hsettled (by simp [Value.shape]) t (by simp [Value.children]))
  | optional child =>
      cases child with
      | none => exact ⟨(hleaf rfl).1, fun _ => (hleaf rfl).2⟩
      | some t =>
          refine ⟨slotSplits_some hbelow (hsplits t (by simp [Value.children])), fun hsettled => ?_⟩
          exact slotSettled_some hbelow
            (hsettled (by simp [Value.shape]) t (by simp [Value.children]))
  | nodes ts =>
      have hpasses := slotSplits_nodes hbelow fun t ht => ⟨hsplits t ht, hitems rfl t ht⟩
      exact ⟨hpasses.1, fun _ => hpasses.2⟩
  | _ => exact ⟨(hleaf rfl).1, fun _ => (hleaf rfl).2⟩

end Slots

/-! ## Nodes -/

section Nodes

variable {k : Kind} {vs : List (Value (Tree Unit))}

/-- The alternatives of the second pass for a node that the first has rebuilt. -/
theorem inside_alternatives_of_choice (hlength : vs.length = k.attrs.length)
    (choice : List (Value (Tree Unit))) :
    (node () k choice).alternatives .inside false =
      (product (List.zipWith (fun slot => slotAlternatives .inside k false slot.1)
        (k.attrs.zip vs) choice)).map (.node () k) := by
  have hattrs : (k.attrs.zip vs).map Prod.fst = k.attrs := List.map_fst_zip (by omega)
  rw [alternatives_of_not_pool _ _ _ _ (by simp)]
  congr 2
  conv_lhs => rw [← hattrs]
  rw [← List.map_uncurry_zip_eq_zipWith, List.zip_map_left, List.map_map]
  rfl

theorem node_splits (hk : k ≠ .pool) (hlength : vs.length = k.attrs.length)
    (h : ∀ slot ∈ k.attrs.zip vs, SlotSplits k slot.1 slot.2)
    (hsettled : ∀ slot ∈ (k.attrs.zip vs).dropLast, SlotSettled k slot.1 slot.2) :
    (node () k vs).Splits := by
  have hpool (enabled : Bool) : ¬ (enabled = true ∧ k = .pool) := fun h => hk h.2
  rw [Splits, alternatives_of_not_pool _ _ _ _ (hpool true),
    alternatives_of_not_pool _ _ _ _ (hpool true)]
  exact (product_refines h hsettled).map fun choice _ =>
    inside_alternatives_of_choice hlength choice

theorem node_settled (hk : k ≠ .pool) (hlength : vs.length = k.attrs.length)
    (h : ∀ slot ∈ k.attrs.zip vs, SlotSettled k slot.1 slot.2) : (node () k vs).Settled := by
  rw [Settled, alternatives_of_not_pool _ _ _ _ fun h => hk h.2]
  exact (product_settles h).map fun choice _ => inside_alternatives_of_choice hlength choice

theorem pool_passes {arguments : List (Tree Unit)}
    (h : Kind.pool.valueOf? vs .arguments = some (.nodes arguments))
    (harguments : ∀ t ∈ arguments, t.Splits ∧ t.Settled) :
    (node () .pool vs).Splits ∧ (node () .pool vs).Settled := by
  rw [Splits, Settled, alternatives_pool _ h, alternatives_pool _ h]
  constructor
  · rw [Refines, List.flatMap_assoc]
    exact List.flatMap_congr fun t ht => (harguments t ht).1
  · intro r hr
    obtain ⟨t, ht, hrt⟩ := List.mem_flatMap.1 hr
    exact (harguments t ht).2 r hrt

end Nodes

/-! ## Trees of the grammar -/

theorem arguments_mem_outsideSlots {vs : List (Value (Tree Unit))} {v : Value (Tree Unit)}
    (h : Kind.pool.valueOf? vs .arguments = some v) : (.arguments, v) ∈ outsideSlots .pool vs := by
  refine mem_outsideSlots_iff.2 ⟨List.mem_of_getElem? (i := 1) ?_, by simp [Kind.ownsCondition]⟩
  exact List.getElem?_zip_eq_some.2 ⟨rfl, h⟩

/-- The first pass makes no condition owners. -/
theorem ownsCondition_of_mem_alternatives {t : Tree Unit} (ht : t.Valid) (hs : t.GrammarShaped)
    (howner : t.kind.ownsCondition = false) :
    ∀ r ∈ t.alternatives .outside true, r.kind.ownsCondition = false := by
  induction t using induct with
  | step l k vs ih =>
      intro r hr
      by_cases hk : k = .pool
      · subst hk
        obtain ⟨hadmits, hvalid⟩ := valid_node_iff.1 ht
        obtain ⟨arguments, harguments⟩ := Kind.exists_arguments hadmits
        rw [alternatives_pool _ harguments, List.mem_flatMap] at hr
        obtain ⟨t, htv, hr⟩ := hr
        have hslot := arguments_mem_outsideSlots harguments
        have hv := Kind.mem_of_valueOf? harguments
        refine ih _ hv t htv (hvalid _ hv t htv) (hs.child hslot htv) ?_ r hr
        exact hs.pools _ (self_mem_outside _) rfl t
          (mem_outside_of_child hslot htv (self_mem_outside t))
      · have hpool : ¬ (true = true ∧ (node l k vs).kind = .pool) := fun h => hk h.2
        rw [kind_of_mem_alternatives hpool hr]
        exact howner

/-- Whether an item is spliced does not change in the first pass. -/
theorem spliced_iff_of_mem_alternatives {k : Kind} {a : Attr} {t : Tree Unit} (ht : t.Valid)
    (hs : t.GrammarShaped) : ∀ r ∈ t.alternatives .outside true, Spliced k a r ↔ Spliced k a t := by
  intro r hr
  by_cases hpool : t.kind = .pool
  · have hr' : r.kind ≠ .conditionalLiteral := by
      have howner := ownsCondition_of_mem_alternatives ht hs (by rw [hpool]; rfl) r hr
      rintro hkind
      rw [hkind] at howner
      cases howner
    have ht' : t.kind ≠ .conditionalLiteral := by
      rw [hpool]
      decide
    simp only [Spliced, hr', ht']
  · rw [Spliced, Spliced, kind_of_mem_alternatives (fun h => hpool h.2) hr]

section Classes

variable {l : Unit} {k : Kind} {vs : List (Value (Tree Unit))} {slot : Attr × Value (Tree Unit)}
  {c : Tree Unit}

/-- Children that are not steady are elements of sets or conditional literals. -/
theorem GrammarShaped.steady_or (h : (node l k vs).GrammarShaped)
    (hslot : slot ∈ outsideSlots k vs) (hc : c ∈ slot.2.children) :
    c.Steady ∨ (slot.1 = .elements ∧ k.collects = true) ∨ c.kind = .conditionalLiteral ∧
      (slot.2.shape = .nodes ∨ k = .headAggregateElement ∧ slot.1 = .condition) := by
  have hself := self_mem_outside (node l k vs)
  by_cases howner : c.kind.ownsCondition = true
  · exact .inr (h.owners _ hself slot hslot c hc howner)
  · by_cases hhead : c.kind = .headAggregateElement ∧ ∃ w ∈ c.outside, w.kind.ownsCondition = true
    · exact .inr (.inl (h.heads _ hself slot hslot c hc hhead.1 hhead.2))
    · refine .inl ⟨by simpa using howner, fun hkind w hw => ?_⟩
      by_contra hw'
      exact hhead ⟨hkind, w, hw, by simpa using hw'⟩

/-- The elements of a set are a list. -/
theorem shape_eq_nodes_of_collects (hadmits : k.Admits vs) (hslot : slot ∈ k.attrs.zip vs)
    (hset : slot.1 = .elements ∧ k.collects = true) : slot.2.shape = .nodes := by
  rw [Kind.attrs, List.zip_map_left, List.mem_map] at hslot
  obtain ⟨⟨schema, v⟩, hmem, rfl⟩ := hslot
  have hfits := (List.forall₂_iff_zip.1 hadmits).2 hmem
  rw [Prod.map_snd, id_eq, (Value.fits_iff.1 hfits).1]
  exact shape_of_collects hset.2 schema (List.of_mem_zip hmem).1 hset.1

end Classes

/-- A node of the grammar that is no pool. -/
theorem node_passes {k : Kind} {vs : List (Value (Tree Unit))} (hk : k ≠ .pool)
    (hadmits : k.Admits vs) (hvalid : ∀ v ∈ vs, ∀ c ∈ v.children, c.Valid)
    (hs : (node () k vs).GrammarShaped)
    (hchild : ∀ slot ∈ outsideSlots k vs, ∀ c ∈ slot.2.children,
      c.Splits ∧ (c.Steady → c.Settled)) :
    (node () k vs).Splits ∧ ((node () k vs).Steady → (node () k vs).Settled) := by
  have hlength : vs.length = k.attrs.length := by
    rw [Kind.attrs, List.length_map, hadmits.length_eq]
  have hpasses : ∀ slot ∈ outsideSlots k vs, SlotSplits k slot.1 slot.2 ∧
      ((slot.2.shape ≠ .nodes → ∀ c ∈ slot.2.children, c.Settled) →
        SlotSettled k slot.1 slot.2) := by
    intro slot hslot
    have hmem := (mem_outsideSlots_iff.1 hslot).1
    refine slot_passes (below_of_outside hslot) (fun c hc => (hchild slot hslot c hc).1) ?_
    intro _ c hc
    refine ⟨?_, spliced_iff_of_mem_alternatives (hvalid _ (List.of_mem_zip hmem).2 c hc)
      (hs.child hslot hc)⟩
    rcases hs.steady_or hslot hc with hsteady | hset | ⟨hliteral, -⟩
    · exact .inr ((hchild slot hslot c hc).2 hsteady)
    · exact .inl (.inl hset)
    · exact .inl (.inr hliteral)
  -- Only the literal of a head aggregate element may have several trees in the second pass.
  have hsettled : ∀ slot ∈ outsideSlots k vs,
      (k = .headAggregateElement → slot.1 = .condition → (node () k vs).Steady) →
        SlotSettled k slot.1 slot.2 := by
    intro slot hslot hhead
    refine (hpasses slot hslot).2 fun hshape c hc => ?_
    rcases hs.steady_or hslot hc with hsteady | hset | ⟨hliteral, hnodes | ⟨hk', hcondition⟩⟩
    · exact (hchild slot hslot c hc).2 hsteady
    · exact absurd (shape_eq_nodes_of_collects hadmits (mem_outsideSlots_iff.1 hslot).1 hset) hshape
    · exact absurd hnodes hshape
    · have hc' := (hhead hk' hcondition).2 hk' c
        (mem_outside_of_child hslot hc (self_mem_outside c))
      rw [hliteral] at hc'
      cases hc'
  constructor
  · refine node_splits hk hlength (fun slot hslot => ?_) fun slot hslot => ?_
    · by_cases hcondition : k.ownsCondition = true ∧ slot.1 = .condition
      · rw [hcondition.2]
        exact slotSplits_condition hcondition.1 (hvalid _ (List.of_mem_zip hslot).2)
      · exact (hpasses slot (mem_outsideSlots_iff.2 ⟨hslot, hcondition⟩)).1
    · have hattr : slot.1 ≠ .condition := by
        have hmem := List.mem_map_of_mem (f := Prod.fst) hslot
        rw [List.map_dropLast, List.map_fst_zip (by omega)] at hmem
        rintro hcondition
        exact condition_not_mem_dropLast k (hcondition ▸ hmem)
      refine hsettled slot (mem_outsideSlots_iff.2 ⟨List.mem_of_mem_dropLast hslot, ?_⟩) ?_
      · exact fun h => hattr h.2
      · exact fun _ h => absurd h hattr
  · intro hsteady
    refine node_settled hk hlength fun slot hslot =>
      hsettled slot (mem_outsideSlots_iff.2 ⟨hslot, fun h => ?_⟩) fun _ _ => hsteady
    have howner : k.ownsCondition = false := hsteady.1
    rw [h.1] at howner
    cases howner

/-- Trees of the grammar are expanded in two passes as in one. -/
theorem splits_of_grammarShaped {t : Tree Unit} (ht : t.Valid) (hs : t.GrammarShaped) :
    t.Splits ∧ (t.Steady → t.Settled) := by
  induction t using induct with
  | step l k vs ih =>
      obtain ⟨hadmits, hvalid⟩ := valid_node_iff.1 ht
      have hchild : ∀ slot ∈ outsideSlots k vs, ∀ c ∈ slot.2.children,
          c.Splits ∧ (c.Steady → c.Settled) := by
        intro slot hslot c hc
        have hv := (List.of_mem_zip (mem_outsideSlots_iff.1 hslot).1).2
        exact ih _ hv c hc (hvalid _ hv c hc) (hs.child hslot hc)
      by_cases hk : k = .pool
      · subst hk
        obtain ⟨arguments, harguments⟩ := Kind.exists_arguments hadmits
        have hslot := arguments_mem_outsideSlots harguments
        have hpasses := pool_passes harguments fun c hc => by
          have howners : ∀ w ∈ c.outside, w.kind.ownsCondition = false := fun w hw =>
            hs.pools _ (self_mem_outside _) rfl w (mem_outside_of_child hslot hc hw)
          obtain ⟨hsplits, hsettled⟩ := hchild _ hslot c hc
          exact ⟨hsplits, hsettled ⟨howners c (self_mem_outside c), fun _ => howners⟩⟩
        exact ⟨hpasses.1, fun _ => hpasses.2⟩
      · exact node_passes hk hadmits hvalid hs hchild

end Tree

/-! ## Passes over a store -/

/-- A node of a well-formed store that stands for a tree of the grammar is unpooled outside
of conditions first and inside of them next as in one go: the nodes stand for the same trees
in the same order. -/
theorem unpool_regions_independently {s : Store} (hs : s.WellFormed) {id : NodeId} {p : Tree Unit}
    (hp : s.Denotes id p) (hshape : p.GrammarShaped) :
    ∃ first s₁ answers s₂ answers' s' ps, s.unpool id .outside = .ok (first, s₁) ∧
      s₁.unpoolAll .inside first = .ok (answers, s₂) ∧
      s.unpool id .everywhere = .ok (answers', s') ∧
      List.Forall₂ s₂.Denotes answers ps ∧ List.Forall₂ s'.Denotes answers' ps := by
  obtain ⟨first, s₁, hfirst, -, hvalid, hdenotes⟩ := Store.unpool_denotes hs.valid hp .outside
  obtain ⟨answers, s₂, hsecond, -, -, hdenotes₂⟩ :=
    Store.unpoolAll_denotes hvalid hdenotes .inside
  obtain ⟨answers', s', hboth, -, -, hdenotes'⟩ :=
    Store.unpool_denotes hs.valid hp .everywhere
  have hsplits : p.Splits := (Tree.splits_of_grammarShaped (hs.valid.of_denotes hp) hshape).1
  refine ⟨first, s₁, answers, s₂, answers', s', _, hfirst, hsecond, hboth, ?_, hdenotes'⟩
  change List.Forall₂ s₂.Denotes answers (p.alternatives .everywhere true)
  rw [hsplits]
  exact hdenotes₂

/-- A store with the rule `p((1;2)) :- q((1;2)) : p((1;2)).`, in which the pool and the
literal `p((1;2))` are one instance each. -/
def Store.pooledRule : Store :=
  ⟨#[⟨.symbolicTerm, [.location .default, .symbol (.number 1)]⟩,
     ⟨.symbolicTerm, [.location .default, .symbol (.number 2)]⟩,
     ⟨.pool, [.location .default, .nodes [⟨0⟩, ⟨1⟩]]⟩,
     ⟨.function, [.location .default, .text "p", .nodes [⟨2⟩], .int 0]⟩,
     ⟨.symbolicAtom, [.node ⟨3⟩]⟩,
     ⟨.literal, [.location .default, .int 0, .node ⟨4⟩]⟩,
     ⟨.function, [.location .default, .text "q", .nodes [⟨2⟩], .int 0]⟩,
     ⟨.symbolicAtom, [.node ⟨6⟩]⟩,
     ⟨.literal, [.location .default, .int 0, .node ⟨7⟩]⟩,
     ⟨.conditionalLiteral, [.location .default, .node ⟨8⟩, .nodes [⟨5⟩]]⟩,
     ⟨.rule, [.location .default, .node ⟨5⟩, .nodes [⟨9⟩]]⟩]⟩

theorem unpool_regions_independently_pooledRule :
    let number (n : Int32) : Tree Unit :=
      .node () .symbolicTerm [.location .default, .symbol (.number n)]
    let atom (name : String) : Tree Unit := .node () .symbolicAtom [.node (.node () .function
      [.location .default, .text name, .nodes [.node () .pool
        [.location .default, .nodes [number 1, number 2]]], .int 0])]
    let literal (name : String) : Tree Unit :=
      .node () .literal [.location .default, .int 0, .node (atom name)]
    let rule : Tree Unit := .node () .rule [.location .default, .node (literal "p"),
      .nodes [.node () .conditionalLiteral
        [.location .default, .node (literal "q"), .nodes [literal "p"]]]]
    Store.pooledRule.WellFormed ∧ Store.pooledRule.Denotes ⟨10⟩ rule ∧ rule.GrammarShaped ∧
      ∃ first s₁ answers s₂ answers' s' ps,
        Store.pooledRule.unpool ⟨10⟩ .outside = .ok (first, s₁) ∧
        s₁.unpoolAll .inside first = .ok (answers, s₂) ∧
        Store.pooledRule.unpool ⟨10⟩ .everywhere = .ok (answers', s') ∧
        List.Forall₂ s₂.Denotes answers ps ∧ List.Forall₂ s'.Denotes answers' ps := by
  intro number atom literal rule
  have hs : Store.pooledRule.WellFormed := .of_inOrder (by decide)
  have hp : Store.pooledRule.Denotes ⟨10⟩ rule := ⟨_, rfl, rfl⟩
  have hshape : rule.GrammarShaped := ⟨by decide, by decide, by decide⟩
  exact ⟨hs, hp, hshape, unpool_regions_independently hs hp hshape⟩

end AnswerSet
