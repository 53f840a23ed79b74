import AnswerSet.Proofs.Pool.Normal
import AnswerSet.Proofs.Store.Growth

/-!
# What unpooling shares

Unpooling builds new nodes only above the pools that it expands. `Tree.Alternative` says
which nodes of a store a part of an unfolding may become. A pool-free part becomes itself,
which is to say its own instance, and a pool one of the nodes that its arguments become. Any
other node becomes one of its kind that holds in each slot what the slot held, with the
children replaced by nodes that they become. The items of a list become segments.

Expansion is followed slot by slot. It picks for each child one of the nodes that the child
offers, and this alone is what the rest needs to know about products and lists.
-/

namespace AnswerSet

/-! ## Picking nodes -/

namespace Value

/-- The second value holds what was picked for the children of the first: a node for a child,
and a segment for an item of a list. Everything else is the same in both. -/
inductive Picks {ν : Type} (One : ν → NodeId → Prop) (Segment : ν → List NodeId → Prop) :
    Value ν → Value NodeId → Prop where
  | int (n : Int32) : Picks One Segment (.int n) (.int n)
  | symbol (a : Symbol) : Picks One Segment (.symbol a) (.symbol a)
  | location (l : Location) : Picks One Segment (.location l) (.location l)
  | text (a : String) : Picks One Segment (.text a) (.text a)
  | node {a : ν} {r : NodeId} (h : One a r) : Picks One Segment (.node a) (.node r)
  | absent : Picks One Segment (.optional none) (.optional none)
  | present {a : ν} {r : NodeId} (h : One a r) :
      Picks One Segment (.optional (some a)) (.optional (some r))
  | texts (items : List String) : Picks One Segment (.texts items) (.texts items)
  | nodes {as : List ν} {segments : List (List NodeId)} (h : List.Forall₂ Segment as segments) :
      Picks One Segment (.nodes as) (.nodes segments.flatten)

namespace Picks

variable {ν μ : Type} {One One' : ν → NodeId → Prop} {Segment Segment' : ν → List NodeId → Prop}
  {v : Value ν} {w : Value NodeId}

/-- What was picked fits where the value does. -/
theorem fits_eq (h : Picks One Segment v w) (slot : Slot) : v.fits slot = w.fits slot := by
  cases h <;> rfl

/-- Every node that was picked is one for a child of the value. -/
theorem exists_child (h : Picks One Segment v w)
    (hsegment : ∀ a segment, Segment a segment → ∀ r ∈ segment, One a r) {r : NodeId}
    (hr : r ∈ w.children) : ∃ a ∈ v.children, One a r := by
  cases h with
  | node h | present h =>
      rw [List.mem_singleton.1 hr]
      exact ⟨_, List.mem_singleton.2 rfl, h⟩
  | nodes h =>
      obtain ⟨segment, hmem, hr⟩ := List.mem_flatten.1 hr
      obtain ⟨a, ha, hpicked⟩ := exists_of_forall₂_left h.flip hmem
      exact ⟨a, ha, hsegment a segment hpicked r hr⟩
  | _ => simp [children] at hr

theorem imp (h : Picks One Segment v w) (hone : ∀ a r, One a r → One' a r)
    (hsegment : ∀ a segment, Segment a segment → Segment' a segment) :
    Picks One' Segment' v w := by
  cases h with
  | node h => exact .node (hone _ _ h)
  | present h => exact .present (hone _ _ h)
  | nodes h => exact .nodes (h.imp hsegment)
  | _ => constructor

theorem map_left_iff {f : μ → ν} {v : Value μ} :
    Picks One Segment (v.map f) w ↔ Picks (fun a => One (f a)) (fun a => Segment (f a)) v w := by
  constructor
  · intro h
    cases v with
    | optional child =>
        cases child with
        | none => cases h with | absent => exact .absent
        | some a => cases h with | present h => exact .present h
    | node a => cases h with | node h => exact .node h
    | nodes as => cases h with | nodes h => exact .nodes (List.forall₂_map_left_iff.1 h)
    | _ => cases h; constructor
  · intro h
    cases h with
    | node h => exact .node h
    | present h => exact .present h
    | nodes h => exact .nodes (List.forall₂_map_left_iff.2 h)
    | _ => constructor

/-- A value without children is picked as it is. -/
theorem of_children_eq_nil (f : ν → NodeId) (hv : v.children = []) :
    Picks One Segment v (v.map f) := by
  cases v with
  | node a => cases hv
  | optional child =>
      cases child with
      | none => exact .absent
      | some a => cases hv
  | nodes as =>
      obtain rfl : as = [] := hv
      exact .nodes .nil
  | _ => constructor

end Picks

end Value

/-- Members that are described by partners, which describe other members in turn. -/
theorem forall₂_of_zip {α β γ : Type} {P : α → β → Prop} {Q : α × β → γ → Prop} {R : α → γ → Prop}
    {as : List α} {bs : List β} {cs : List γ} (hP : List.Forall₂ P as bs)
    (hQ : List.Forall₂ Q (as.zip bs) cs) (h : ∀ a b c, P a b → Q (a, b) c → R a c) :
    List.Forall₂ R as cs := by
  induction hP generalizing cs with
  | nil =>
      cases hQ
      exact .nil
  | cons hab _ ih =>
      cases hQ with
      | cons hc hQ => exact .cons (h _ _ _ hab hc) (ih hQ)

/-! ## What expansion picks -/

/-- The node is among the answers that the expansion of the child may have. -/
def Picked (Answers : ExpandedChild → Option (List NodeId) → Prop) (child : ExpandedChild)
    (r : NodeId) : Prop :=
  ∃ answer, Answers child answer ∧ r ∈ answer.getD [child.1.label]

/-- The segment is one that the item may put into a list. -/
def PickedSegment (setLike : Bool) (Answers : ExpandedChild → Option (List NodeId) → Prop)
    (item : ExpandedChild) (segment : List NodeId) : Prop :=
  ∃ answer, Answers item answer ∧ segment ∈ segmentsOf setLike item.1 answer

theorem mem_of_mem_segmentsOf {setLike : Bool} {item : Tree NodeId}
    {answer : Option (List NodeId)} {segment : List NodeId}
    (h : segment ∈ segmentsOf setLike item answer) :
    ∀ r ∈ segment, r ∈ answer.getD [item.label] := by
  cases answer with
  | none =>
      rw [segmentsOf, List.mem_singleton] at h
      simp [h]
  | some alternatives =>
      rw [segmentsOf] at h
      split at h
      · rw [List.mem_singleton.1 h]
        exact fun r hr => hr
      · obtain ⟨a, ha, rfl⟩ := List.mem_map.1 h
        simpa using ha

theorem PickedSegment.picked {setLike : Bool}
    {Answers : ExpandedChild → Option (List NodeId) → Prop} {item : ExpandedChild}
    {segment : List NodeId} (h : PickedSegment setLike Answers item segment) :
    ∀ r ∈ segment, Picked Answers item r := by
  obtain ⟨answer, hanswer, hsegment⟩ := h
  exact fun r hr => ⟨answer, hanswer, mem_of_mem_segmentsOf hsegment r hr⟩

/-- The value is one that the slot of a node may get. -/
def PickedSlot (k : Kind) (inside : Bool)
    (Answers : Bool → ExpandedChild → Option (List NodeId) → Prop)
    (slot : Attr × Value ExpandedChild) (w : Value NodeId) : Prop :=
  Value.Picks (Picked (Answers (k.insideBelow slot.1 inside)))
    (PickedSegment (isSetLike k slot.1) (Answers (k.insideBelow slot.1 inside))) slot.2 w

section PickedSlot

variable {k : Kind} {inside : Bool} {Answers : Bool → ExpandedChild → Option (List NodeId) → Prop}
  {values : List (Value ExpandedChild)} {ws : List (Value NodeId)}

theorem admits_of_pickedSlot (hvalues : k.Admits values)
    (h : List.Forall₂ (PickedSlot k inside Answers) (k.attrs.zip values) ws) : k.Admits ws := by
  have hlength : values.length ≤ k.attrs.length := by
    rw [Kind.attrs, List.length_map, hvalues.length_eq]
  refine hvalues.of_fits ?_
  rw [← List.map_snd_zip hlength, List.forall₂_map_left_iff]
  exact h.imp fun slot w hw => hw.fits_eq

/-- Every child is picked for a child that was there. -/
theorem exists_picked_of_pickedSlot
    (h : List.Forall₂ (PickedSlot k inside Answers) (k.attrs.zip values) ws) {c : NodeId}
    (hc : c ∈ (⟨k, ws⟩ : Node).children) :
    ∃ v ∈ values, ∃ child ∈ v.children, ∃ inside, Picked (Answers inside) child c := by
  obtain ⟨w, hw, hc⟩ := Store.mem_children_iff.1 hc
  obtain ⟨slot, hslot, hpicked⟩ := exists_of_forall₂_left h.flip hw
  obtain ⟨child, hchild, hc⟩ :=
    hpicked.exists_child (fun item segment hsegment => hsegment.picked) hc
  exact ⟨slot.2, (List.of_mem_zip hslot).2, child, hchild, _, hc⟩

end PickedSlot

namespace Store

variable {base : Store}

theorem growth_expandList {items : List ExpandedChild} (setLike : Bool) {enabled : Bool}
    {Answers : Store → ExpandedChild → Option (List NodeId) → Prop}
    (h : ∀ item ∈ items, growth.Holds base (item.2 enabled) fun s answer => Answers s item answer) :
    growth.Holds base (expandList setLike enabled items) fun s answer =>
      ∀ rs ∈ answer.getD [items.map fun item => item.1.label],
        Value.Picks (Picked (Answers s)) (PickedSegment setLike (Answers s)) (.nodes items)
          (.nodes rs) := by
  refine growth.holds_bind (growth.holds_mapM h) fun expanded s₁ _ hexpanded => ?_
  -- Whether or not all items stand for themselves, the answer lists the choices of segments.
  have hpicks (s : Store) (hs : s₁.Extends s) {choice : List (List NodeId)}
      (hchoice : choice ∈ product ((items.zip expanded).map fun pair =>
        segmentsOf setLike pair.1.1 pair.2)) :
      Value.Picks (Picked (Answers s)) (PickedSegment setLike (Answers s)) (.nodes items)
        (.nodes choice.flatten) := by
    have hsegments := List.forall₂_map_left_iff.1 (mem_product_iff.1 hchoice)
    exact .nodes (forall₂_of_zip (hexpanded s hs) hsegments
      fun item answer segment hanswer hsegment => ⟨answer, hanswer, hsegment⟩)
  by_cases hall : expanded.all Option.isNone = true
  · rw [if_pos hall]
    refine growth.holds_pure fun s hs rs hrs => ?_
    have hlength := (hexpanded s hs).length_eq
    have hmem : (items.map fun item => [item.1.label]) ∈ product ((items.zip expanded).map
        fun pair => segmentsOf setLike pair.1.1 pair.2) := by
      rw [map_zip_of_all_isNone hlength hall]
      simp [segmentsOf, product_map_singleton]
    have hown := hpicks s hs hmem
    rw [← List.flatMap_def, ← List.map_eq_flatMap] at hown
    rwa [List.mem_singleton.1 hrs]
  · rw [if_neg hall]
    refine growth.holds_pure fun s hs rs hrs => ?_
    obtain ⟨choice, hchoice, rfl⟩ := List.mem_map.1 hrs
    exact hpicks s hs hchoice

theorem growth_expandValue {v : Value ExpandedChild} (setLike : Bool) {enabled : Bool}
    {Answers : Store → ExpandedChild → Option (List NodeId) → Prop}
    (h : ∀ child ∈ v.children,
      growth.Holds base (child.2 enabled) fun s answer => Answers s child answer) :
    growth.Holds base (expandValue setLike enabled v) fun s answer =>
      ∀ w ∈ answer.getD [v.map fun child => child.1.label],
        Value.Picks (Picked (Answers s)) (PickedSegment setLike (Answers s)) v w := by
  have hleaf (hv : v.children = []) : growth.Holds base (pure none) fun s answer =>
      ∀ w ∈ answer.getD [v.map fun child => child.1.label],
        Value.Picks (Picked (Answers s)) (PickedSegment setLike (Answers s)) v w := by
    refine growth.holds_pure fun s _ w hw => ?_
    rw [List.mem_singleton.1 hw]
    exact .of_children_eq_nil _ hv
  cases v with
  | node child =>
      refine growth.holds_bind (h child (by simp [Value.children])) fun e s₁ _ he => ?_
      refine growth.holds_pure fun s hs w hw => ?_
      obtain ⟨r, hr, rfl⟩ : ∃ r ∈ e.getD [child.1.label], Value.node r = w := by
        cases e <;> simpa [Value.map, eq_comm] using hw
      exact .node ⟨e, he s hs, hr⟩
  | optional child =>
      cases child with
      | none => exact hleaf rfl
      | some child =>
          refine growth.holds_bind (h child (by simp [Value.children])) fun e s₁ _ he => ?_
          refine growth.holds_pure fun s hs w hw => ?_
          obtain ⟨r, hr, rfl⟩ : ∃ r ∈ e.getD [child.1.label], Value.optional (some r) = w := by
            cases e <;> simpa [Value.map, eq_comm] using hw
          exact .present ⟨e, he s hs, hr⟩
  | nodes items =>
      refine growth.holds_bind (growth_expandList setLike h) fun answer s₁ _ hanswer => ?_
      refine growth.holds_pure fun s hs w hw => ?_
      obtain ⟨rs, hrs, rfl⟩ : ∃ rs ∈ answer.getD [items.map fun item => item.1.label],
          Value.nodes rs = w := by
        cases answer <;> simpa [Value.map, eq_comm] using hw
      exact hanswer s hs rs hrs
  | _ => exact hleaf rfl

/-- The slots of a node that is no pool to be expanded. -/
theorem growth_expandValues {regions : Regions} {k : Kind} {values : List (Value ExpandedChild)}
    (hlength : k.attrs.length = values.length) {inside : Bool}
    {Answers : Store → Bool → ExpandedChild → Option (List NodeId) → Prop}
    (h : ∀ v ∈ values, ∀ child ∈ v.children, ∀ inside, growth.Holds base
      (child.2 (regions.expands inside)) fun s answer => Answers s inside child answer) :
    growth.Holds base (expandValues regions k (regions.expands inside) values) fun s answer =>
      ∀ ws ∈ answer.getD [values.map fun v => v.map fun child => child.1.label],
        List.Forall₂ (PickedSlot k inside (Answers s)) (k.attrs.zip values) ws := by
  have hslots : growth.Holds base ((k.attrs.zip values).mapM fun slot =>
      expandValue (isSetLike k slot.1)
        (if isCondition k slot.1 then regions.condition else regions.expands inside) slot.2)
      fun s expanded => List.Forall₂ (fun slot answer =>
        ∀ w ∈ answer.getD [slot.2.map fun child => child.1.label],
          PickedSlot k inside (Answers s) slot w) (k.attrs.zip values) expanded := by
    refine growth.holds_mapM fun slot hslot => ?_
    rw [← Regions.below_eq, regions.below_expands]
    exact growth_expandValue _ fun child hchild => h slot.2 (List.of_mem_zip hslot).2 child hchild _
  refine growth.holds_bind hslots fun expanded s₁ _ hexpanded => ?_
  have hvalues : (k.attrs.zip values).map Prod.snd = values := List.map_snd_zip (by omega)
  have hpicks (s : Store) (hs : s₁.Extends s) {ws : List (Value NodeId)}
      (hws : ws ∈ product ((values.zip expanded).map fun pair =>
        pair.2.getD [pair.1.map fun child => child.1.label])) :
      List.Forall₂ (PickedSlot k inside (Answers s)) (k.attrs.zip values) ws := by
    rw [← hvalues, List.zip_map_left, List.map_map] at hws
    exact forall₂_of_zip (hexpanded s hs) (List.forall₂_map_left_iff.1 (mem_product_iff.1 hws))
      fun slot answer w hanswer hw => hanswer w hw
  by_cases hall : expanded.all Option.isNone = true
  · rw [if_pos hall]
    refine growth.holds_pure fun s hs ws hws => hpicks s hs ?_
    have hexpandedLength : values.length = expanded.length := by
      rw [← (hexpanded s hs).length_eq, List.length_zip]
      omega
    rw [map_zip_of_all_isNone hexpandedLength hall]
    simpa [product_map_singleton] using hws
  · rw [if_neg hall]
    exact growth.holds_pure fun s hs ws hws => hpicks s hs hws

end Store

/-! ## What parts of a tree become -/

/-- A tree with the nodes that it may become, inside of conditions or outside of them. -/
abbrev Becoming := Tree NodeId × (Bool → NodeId → Prop)

/-- The item of a list may become the segment. A pool-free item is the segment, and any item
becomes one node unless its alternatives stand side by side. -/
structure SegmentAlternative (regions : Regions) (k : Kind) (a : Attr) (inside : Bool)
    (item : Becoming) (segment : List NodeId) : Prop where
  alternative : ∀ r ∈ segment, item.2 (k.insideBelow a inside) r
  shared : item.1.PoolFree regions (k.insideBelow a inside) → segment = [item.1.label]
  single : ¬ Spliced k a item.1 → ∃ r, segment = [r]

/-- The value in the slot of a node may become the value. -/
def SlotAlternative (regions : Regions) (k : Kind) (inside : Bool) (slot : Attr × Value Becoming)
    (w : Value NodeId) : Prop :=
  slot.2.Picks (fun child => child.2 (k.insideBelow slot.1 inside))
    (SegmentAlternative regions k slot.1 inside) w

/-- The node is what a node of the kind with the values may become: what one of its arguments
becomes if it is a pool to be expanded, and otherwise a node of the same kind whose values the
values may become. -/
def NodeAlternative (s : Store) (regions : Regions) (k : Kind) (vs : List (Value Becoming))
    (inside : Bool) (r : NodeId) : Prop :=
  if regions.expands inside = true ∧ k = .pool then
    ∃ argument ∈ (k.valueOf? vs .arguments).elim [] Value.children, argument.2 inside r
  else
    ∃ n, s.node? r = some n ∧ n.kind = k ∧
      List.Forall₂ (SlotAlternative regions k inside) (k.attrs.zip vs) n.values

/-- The tree may become the node in the store. If it is pool-free, then this is the very node
that the tree is of. -/
def Tree.Alternative (s : Store) (regions : Regions) : Tree NodeId → Bool → NodeId → Prop :=
  Tree.elim fun id k vs inside r =>
    ((node id k (vs.map fun v => v.map Prod.fst)).PoolFree regions inside → r = id) ∧
      NodeAlternative s regions k vs inside r

namespace Tree

variable {s : Store} {regions : Regions} {inside : Bool}

/-- The values of a node with the nodes that its subtrees may become. -/
def becomings (s : Store) (regions : Regions) (vs : List (Value (Tree NodeId))) :
    List (Value Becoming) :=
  vs.map fun v => v.map fun t => (t, t.Alternative s regions)

theorem alternative_node_iff {id r : NodeId} {k : Kind} {vs : List (Value (Tree NodeId))} :
    (node id k vs).Alternative s regions inside r ↔
      ((node id k vs).PoolFree regions inside → r = id) ∧
        NodeAlternative s regions k (becomings s regions vs) inside r := by
  rw [Alternative, elim_node, map_fst_map]
  rfl

/-- The answer of an expansion lists nodes that the tree may become, and says that a pool-free
tree stands for itself. -/
structure Offers (s : Store) (regions : Regions) (inside : Bool) (t : Tree NodeId)
    (answer : Option (List NodeId)) : Prop where
  shared : t.PoolFree regions inside → answer = none
  held : ∀ r ∈ answer.getD [t.label], s.Holds r
  alternative : ∀ r ∈ answer.getD [t.label], t.Alternative s regions inside r

theorem Offers.segmentAlternative {k : Kind} {a : Attr} {item : Tree NodeId}
    {answer : Option (List NodeId)} {segment : List NodeId}
    (h : Offers s regions (k.insideBelow a inside) item answer)
    (hsegment : segment ∈ segmentsOf (isSetLike k a) item answer) :
    SegmentAlternative regions k a inside (item, item.Alternative s regions) segment where
  alternative r hr := h.alternative r (mem_of_mem_segmentsOf hsegment r hr)
  shared hfree := by
    rw [h.shared hfree] at hsegment
    exact List.mem_singleton.1 hsegment
  single hspliced := by
    cases answer with
    | none => exact ⟨_, List.mem_singleton.1 hsegment⟩
    | some alternatives =>
        have hone : ¬ (isSetLike k a || decide (item.kind = .conditionalLiteral)) = true := by
          simpa [isSetLike_eq, Spliced] using hspliced
        rw [segmentsOf, if_neg hone] at hsegment
        obtain ⟨r, -, rfl⟩ := List.mem_map.1 hsegment
        exact ⟨r, rfl⟩

/-- What was picked for a slot is what the slot may become. -/
theorem slotAlternative_of_picked {k : Kind} {a : Attr} {v : Value (Tree NodeId)}
    {w : Value NodeId}
    (h : PickedSlot k inside (fun inside child => Offers s regions inside child.1)
      (a, v.map fun t => (t, t.expand regions)) w) :
    SlotAlternative regions k inside (a, v.map fun t => (t, t.Alternative s regions)) w := by
  refine Value.Picks.map_left_iff.2 ((Value.Picks.map_left_iff.1 h).imp ?_ ?_)
  · rintro t r ⟨answer, hanswer, hr⟩
    exact hanswer.alternative r hr
  · rintro t segment ⟨answer, hanswer, hsegment⟩
    exact hanswer.segmentAlternative hsegment

/-- A pool that is expanded offers what its arguments offer. -/
theorem growth_expand_pool {base : Store} {id : NodeId} {vs : List (Value (Tree NodeId))}
    {arguments : List (Tree NodeId)} (hexpands : regions.expands inside = true)
    (harguments : Kind.pool.valueOf? vs .arguments = some (.nodes arguments))
    (h : ∀ t ∈ arguments, Store.growth.Holds base (t.expand regions (regions.expands inside))
      fun s answer => Offers s regions inside t answer) :
    Store.growth.Holds base ((node id .pool vs).expand regions (regions.expands inside))
      fun s answer => ∀ r ∈ answer.getD [id], s.Holds r ∧
        NodeAlternative s regions .pool (becomings s regions vs) inside r := by
  have hexpanded : Kind.pool.valueOf? (expansions regions vs) .arguments =
      some (.nodes (arguments.map fun t => (t, t.expand regions))) := by
    rw [expansions, Kind.valueOf?_map, harguments]
    rfl
  rw [hexpands] at h ⊢
  rw [expand_pool, hexpanded]
  have hanswers : Store.growth.Holds base
      ((arguments.map fun t => (t, t.expand regions)).mapM (alternativesOf true))
      fun s answers => List.Forall₂ (fun child ids => ∀ r ∈ ids, s.Holds r ∧
        child.1.Alternative s regions inside r)
        (arguments.map fun t => (t, t.expand regions)) answers := by
    refine Store.growth.holds_mapM (List.forall_mem_map.2 fun t ht => ?_)
    refine Store.growth.holds_bind (h t ht) fun answer s₁ _ hanswer => ?_
    exact Store.growth.holds_pure fun s hs r hr =>
      ⟨(hanswer s hs).held r hr, (hanswer s hs).alternative r hr⟩
  refine Store.growth.holds_bind hanswers fun answers s₁ _ hanswers => ?_
  refine Store.growth.holds_pure fun s hs r hr => ?_
  obtain ⟨ids, hids, hr⟩ := List.mem_flatten.1 hr
  obtain ⟨child, hchild, hoffers⟩ := exists_of_forall₂_left (hanswers s hs).flip hids
  obtain ⟨t, ht, rfl⟩ := List.mem_map.1 hchild
  obtain ⟨hheld, halternative⟩ := hoffers r hr
  refine ⟨hheld, ?_⟩
  rw [NodeAlternative, if_pos ⟨hexpands, rfl⟩, becomings, Kind.valueOf?_map, harguments]
  exact ⟨(t, t.Alternative s regions), List.mem_map_of_mem ht, halternative⟩

/-- A node that is no pool to be expanded is built anew with what its slots may become. -/
theorem growth_expand_node {base : Store} {id : NodeId} {k : Kind}
    {vs : List (Value (Tree NodeId))} (hpool : ¬ (regions.expands inside = true ∧ k = .pool))
    (hid : base.node? id = some ⟨k, vs.map fun v => v.map label⟩) (hadmits : k.Admits vs)
    (h : ∀ v ∈ vs, ∀ t ∈ v.children, ∀ inside, Store.growth.Holds base
      (t.expand regions (regions.expands inside))
        fun s answer => Offers s regions inside t answer) :
    Store.growth.Holds base ((node id k vs).expand regions (regions.expands inside))
      fun s answer => ∀ r ∈ answer.getD [id], s.Holds r ∧
        NodeAlternative s regions k (becomings s regions vs) inside r := by
  simp only [NodeAlternative, if_neg hpool]
  rw [expand_of_not_pool _ _ _ hpool]
  have hlength : k.attrs.length = (expansions regions vs).length := by
    simp [Kind.attrs, expansions, hadmits.length_eq]
  have hexpansions : ∀ v ∈ expansions regions vs, ∀ child ∈ v.children, ∀ inside,
      Store.growth.Holds base (child.2 (regions.expands inside))
        fun s answer => Offers s regions inside child.1 answer := by
    rw [expansions]
    simp only [List.forall_mem_map, Value.children_map]
    exact h
  refine Store.growth.holds_bind (Store.growth_expandValues hlength hexpansions)
    fun answer s₁ hs₁ hanswer => ?_
  have hbecome (s : Store) {ws : List (Value NodeId)}
      (hws : List.Forall₂ (PickedSlot k inside
        fun inside child answer => Offers s regions inside child.1 answer)
        (k.attrs.zip (expansions regions vs)) ws) :
      List.Forall₂ (SlotAlternative regions k inside)
        (k.attrs.zip (becomings s regions vs)) ws := by
    rw [expansions, List.zip_map_right, List.forall₂_map_left_iff] at hws
    rw [becomings, List.zip_map_right, List.forall₂_map_left_iff]
    exact hws.imp fun slot w hw => slotAlternative_of_picked hw
  cases answer with
  | none =>
      refine Store.growth.holds_pure fun s hs r hr => ?_
      rw [List.mem_singleton.1 hr]
      have hown : ((expansions regions vs).map fun v => v.map fun child => child.1.label) =
          vs.map fun v => v.map label := by
        rw [expansions, List.map_map]
        exact List.map_congr_left fun v _ => Value.map_map _ _ v
      have hid := (hs₁.trans hs) hid
      refine ⟨Option.isSome_of_eq_some hid, _, hid, rfl, hbecome s (hanswer s hs _ ?_)⟩
      exact List.mem_singleton.2 hown.symm
  | some choices =>
      have hpicked (ws : List (Value NodeId)) (hws : ws ∈ choices) := hanswer s₁ (.refl s₁) ws hws
      have hvalid (ws : List (Value NodeId)) (hws : ws ∈ choices) : k.Admits ws :=
        admits_of_pickedSlot (Kind.admits_map_iff.2 hadmits) (hpicked ws hws)
      have hheld (ws : List (Value NodeId)) (hws : ws ∈ choices) :
          ∀ c ∈ (⟨k, ws⟩ : Node).children, s₁.Holds c := by
        intro c hc
        obtain ⟨_, _, _, _, _, _, hoffers, hc⟩ := exists_picked_of_pickedSlot (hpicked ws hws) hc
        exact hoffers.held c hc
      have hallocs : Store.growth.Holds s₁ (choices.mapM fun ws => Store.alloc ⟨k, ws⟩)
          fun s ids => List.Forall₂ (fun ws r => s.node? r = some ⟨k, ws⟩) choices ids :=
        Store.growth.holds_mapM fun ws hws => Store.growth_alloc (hvalid ws hws) (hheld ws hws)
      refine Store.growth.holds_bind hallocs fun ids s₂ hs₂ hids => ?_
      refine Store.growth.holds_pure fun s hs r hr => ?_
      obtain ⟨ws, hws, hr⟩ := exists_of_forall₂_left (hids s hs).flip hr
      exact ⟨Option.isSome_of_eq_some hr, _, hr, rfl, hbecome s (hanswer s (hs₂.trans hs) ws hws)⟩

/-- Expanding a tree of the store lets the store grow and answers with nodes that the tree may
become, at whatever time it runs. -/
theorem growth_expand {base : Store} {t : Tree NodeId} (ht : t.Valid) (hbase : base.Unfolds t)
    (inside : Bool) :
    Store.growth.Holds base (t.expand regions (regions.expands inside))
      fun s answer => Offers s regions inside t answer := by
  induction t using induct generalizing inside with
  | step id k vs ih =>
      obtain ⟨hadmits, hvalid⟩ := valid_node_iff.1 ht
      have hchildren (v : Value (Tree NodeId)) (hv : v ∈ vs) (t : Tree NodeId)
          (ht : t ∈ v.children) := ih v hv t ht (hvalid v hv t ht) (hbase.child v hv t ht)
      have hshape : Store.growth.Holds base
          ((node id k vs).expand regions (regions.expands inside)) fun s answer =>
            ∀ r ∈ answer.getD [id], s.Holds r ∧
              NodeAlternative s regions k (becomings s regions vs) inside r := by
        by_cases hpool : regions.expands inside = true ∧ k = .pool
        · obtain ⟨hexpands, rfl⟩ := hpool
          obtain ⟨arguments, harguments⟩ := Kind.exists_arguments hadmits
          have hmem := Kind.mem_of_valueOf? harguments
          exact growth_expand_pool hexpands harguments fun t ht => hchildren _ hmem t ht inside
        · exact growth_expand_node hpool hbase.node? hadmits hchildren
      -- That a pool-free tree stands for itself is known from the equation for its expansion.
      intro s hs
      obtain ⟨hgrows, hpost⟩ := hshape s hs
      refine ⟨hgrows, fun s' hs' => ⟨fun hfree => ?_, fun r hr => (hpost s' hs' r hr).1,
        fun r hr => alternative_node_iff.2 ⟨fun hfree => ?_, (hpost s' hs' r hr).2⟩⟩⟩
      · rw [hfree.expand_eq]
        rfl
      · rw [hfree.expand_eq] at hr
        exact List.mem_singleton.1 hr

theorem mem_subtrees_of_mem_places {α : Type} {t : Tree α} {place : Bool × Tree α}
    (h : place ∈ t.places inside) : place.2 ∈ t.subtrees := by
  induction t using induct generalizing inside with
  | step l k vs ih =>
      rw [places_node] at h
      rcases List.mem_cons.1 h with rfl | h
      · exact self_mem_subtrees _
      · obtain ⟨slot, hslot, h⟩ := List.mem_flatMap.1 h
        obtain ⟨t, ht, h⟩ := List.mem_flatMap.1 h
        have hv := (List.of_mem_zip hslot).2
        exact mem_subtrees_of_child hv ht (ih slot.2 hv t ht h)

end Tree

/-! ## Unpooling -/

/-- Unpooling a node of a well-formed store answers with this very node alone exactly if it is
pool-free. Every answer is a node that the unfolding may become: it holds the very instances
of what is pool-free below it, and everything that is no node, as they were. This is so for
whatever is built on the way at any place of the unfolding. -/
theorem unpool_shares_unexpanded {s : Store} (hs : s.WellFormed) {id : NodeId} {n : Node}
    (hn : s.node? id = some n) (regions : Regions) :
    ∃ t answers s', s.unfolding? id = some t ∧ s.unpool id regions = .ok (answers, s') ∧
      (answers = [id] ↔ t.PoolFree regions false) ∧
      (∀ r ∈ answers, t.Alternative s' regions false r) ∧
      ∀ place ∈ t.places false, ∀ s₁, s.Extends s₁ →
        s₁.Yields (place.2.expand regions (regions.expands place.1)) fun s₂ answer =>
          ∀ r ∈ answer.getD [place.2.label], place.2.Alternative s₂ regions place.1 r := by
  obtain ⟨t, ht⟩ := hs.exists_unfolding? hn
  obtain ⟨answers, s', hrun, hextends, -, hdenotes⟩ :=
    Store.unpool_denotes hs.valid (Store.denotes_of_unfolding? ht) regions
  have hunfolds := Store.unfolds_of_unfolding? ht
  have hplaces (place : Bool × Tree NodeId) (hplace : place ∈ t.places false) :
      Store.growth.Holds s (place.2.expand regions (regions.expands place.1))
        fun s answer => Tree.Offers s regions place.1 place.2 answer := by
    have hplace := hunfolds.subtrees _ (Tree.mem_subtrees_of_mem_places hplace)
    exact Tree.growth_expand (hs.valid.unfolding? hplace) hplace place.1
  refine ⟨t, answers, s', ht, hrun, ⟨?_, fun hfree => ?_⟩, ?_, fun place hplace s₁ hs₁ => ?_⟩
  · -- The node is the only alternative of its unfolding, and alternatives are pool-free.
    rintro rfl
    obtain ⟨p, _, hp, hrest, heq⟩ := List.forall₂_cons_left_iff.1 hdenotes
    obtain rfl := Store.denotes_unique hp (hextends.denotes (Store.denotes_of_unfolding? ht))
    have hmem : t.plain ∈ t.plain.alternatives regions (regions.expands false) := by
      change t.plain ∈ t.plain.alternatives regions regions.other
      rw [heq]
      exact List.mem_cons_self
    exact Tree.poolFree_plain_iff.1 (Tree.poolFree_of_mem_alternatives hmem)
  · rw [Store.unpool_of_poolFree ht hfree] at hrun
    cases hrun
    rfl
  · obtain rfl := Store.label_of_unfolding? ht
    rw [Store.unpool_of_unfolding? ht] at hrun
    cases hrun
    have hroot := hplaces (false, t) (t.self_mem_places false) s (.refl s)
    exact (hroot.2 _ (.refl _)).alternative
  · obtain ⟨hgrows, hoffers⟩ := hplaces place hplace s₁ hs₁
    exact ⟨hgrows.store_extends, fun s₂ hs₂ => (hoffers s₂ hs₂).alternative⟩

/-- Outside of conditions the rule `p((1;2)) :- q((1;2)) : p((1;2)).` has two alternatives.
The literal of the condition is not expanded, so whatever is built holds its very instance. -/
theorem unpool_shares_unexpanded_pooledRule :
    Store.pooledRule.WellFormed ∧
      ∃ t answers s', Store.pooledRule.unfolding? ⟨10⟩ = some t ∧
        Store.pooledRule.unpool ⟨10⟩ .outside = .ok (answers, s') ∧ answers = [⟨25⟩, ⟨26⟩] ∧
        (answers = [⟨10⟩] ↔ t.PoolFree .outside false) ∧
        (∀ r ∈ answers, t.Alternative s' .outside false r) ∧
        ∀ place ∈ t.places false, ∀ s₁, Store.pooledRule.Extends s₁ →
          s₁.Yields (place.2.expand .outside (Regions.outside.expands place.1)) fun s₂ answer =>
            ∀ r ∈ answer.getD [place.2.label], place.2.Alternative s₂ .outside place.1 r := by
  have hs : Store.pooledRule.WellFormed := .of_inOrder (by decide)
  have hn : Store.pooledRule.node? ⟨10⟩ = some _ := rfl
  obtain ⟨t, answers, s', ht, hrun, hrest⟩ := unpool_shares_unexpanded hs hn .outside
  refine ⟨hs, t, answers, s', ht, hrun, ?_, hrest⟩
  cases hrun
  rfl

end AnswerSet
