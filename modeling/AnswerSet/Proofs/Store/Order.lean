import AnswerSet.Proofs.Store.Unfold
import AnswerSet.Proofs.Tree.Order
import AnswerSet.Store.Compare

/-!
# Comparing the nodes of a store

The comparison of two nodes in lockstep is the comparison of their unfoldings, where two
occurrences of one instance are not looked into. This shortcut is sound because an instance has
one unfolding: the answers are those for plain trees, in which nothing can be shared. Equality
and order of nodes and of values therefore always have an answer in a well-formed store, and the
order is a total one up to equality.
-/

namespace AnswerSet

/-! ## Coherence -/

/-- Equality and order on a family always have an answer. Equality is the given
relation, and the order is total up to it. -/
structure CoherentOrder {ι : Type} (P : ι → Prop) (E : ι → ι → Prop)
    (same : ι → ι → Except Stop Bool) (compare : ι → ι → Except Stop Ordering) : Prop where
  same_iff : ∀ a b, P a → P b → ∃ e, same a b = .ok e ∧ (e = true ↔ E a b)
  compare_self : ∀ a, P a → compare a a = .ok .eq
  /-- The order has an answer and the opposite one the other way round; the answer is
  `eq` for equals and for no others. -/
  compare_swap : ∀ a b, P a → P b → ∃ o, compare a b = .ok o ∧ compare b a = .ok o.swap ∧
    (o = .eq ↔ same a b = .ok true)
  compare_trans : ∀ a b c o o', P a → P b → P c → compare a b = .ok o → compare b c = .ok o' →
    o.isLE = true → o'.isLE = true → ∃ o'', compare a c = .ok o'' ∧ o''.isLE = true

/-- An order that is read off keys is coherent if equals are those with equal keys. -/
theorem CoherentOrder.of_keys {ι : Type} {P : ι → Prop} {E : ι → ι → Prop}
    {same : ι → ι → Except Stop Bool} {compare : ι → ι → Except Stop Ordering}
    (key : ι → List Key)
    (hsame : ∀ a b, P a → P b → ∃ e, same a b = .ok e ∧ (e = true ↔ E a b))
    (hcompare : ∀ a b, P a → P b → compare a b = .ok (compareKeys (key a) (key b)))
    (heq : ∀ a b, P a → P b → (compareKeys (key a) (key b) = .eq ↔ E a b)) :
    CoherentOrder P E same compare where
  same_iff := hsame
  compare_self a ha := by
    have hself : compareKeys (key a) (key a) = .eq := Std.ReflCmp.compare_self
    rw [hcompare a a ha ha, hself]
  compare_swap a b ha hb := by
    refine ⟨_, hcompare a b ha hb, ?_, ?_⟩
    · have hswap : compareKeys (key b) (key a) = (compareKeys (key a) (key b)).swap :=
        Std.OrientedCmp.eq_swap
      rw [hcompare b a hb ha, hswap]
    · obtain ⟨e, he, hiff⟩ := hsame a b ha hb
      rw [heq a b ha hb, ← hiff, he, Except.ok.injEq]
  compare_trans a b c o o' ha hb hc hab hbc ho ho' := by
    rw [hcompare a b ha hb, Except.ok.injEq] at hab
    rw [hcompare b c hb hc, Except.ok.injEq] at hbc
    subst hab hbc
    exact ⟨_, hcompare a c ha hc, Std.TransCmp.isLE_trans ho ho'⟩

/-! ## Nodes -/

namespace Store

variable {s : Store} {a b : NodeId} {t u : Tree NodeId}

/-- An instance has one unfolding, so two occurrences of it need not be looked into. -/
theorem soundShortcut (s : Store) : Tree.SoundShortcut sameInstance s.Unfolds s.Unfolds where
  left h := h.child
  right h := h.child
  plain_eq ht hu hlabel := by
    rw [Unfolds, eq_of_beq hlabel, hu, Option.some.injEq] at ht
    rw [ht]

/-! ## Lockstep

Where the comparison of the children is that of their unfoldings, so is the comparison of what
holds the children. -/

section Lockstep

variable {same : Tree NodeId → Tree NodeId → Bool} {compare : Tree NodeId → Tree NodeId → Ordering}
  {ts us : List (Tree NodeId)} {p q : Value (Tree NodeId)} {ps qs : List (Value (Tree NodeId))}

theorem sameLists_of_length_ne {α β : Type} {same : α → β → Bool} {as : List α} {bs : List β}
    (h : as.length ≠ bs.length) : sameLists same as bs = false := by
  rw [Bool.eq_false_iff, ne_eq, sameLists_iff]
  exact fun hall => h hall.length_eq

theorem sameNodes?_map (h : ∀ t ∈ ts, ∀ u ∈ us, s.same? t.label u.label = some (same t u)) :
    s.sameNodes? (ts.map Tree.label) (us.map Tree.label) = some (sameLists same ts us) := by
  induction ts generalizing us with
  | nil => cases us <;> simp [sameNodes?, sameLists]
  | cons t ts ih =>
      cases us with
      | nil => simp [sameNodes?, sameLists]
      | cons u us =>
          rw [List.map_cons, List.map_cons, sameNodes?, h t List.mem_cons_self u List.mem_cons_self,
            sameLists]
          cases same t u with
          | false => rfl
          | true =>
              exact ih fun t' ht' u' hu' => h t' (List.mem_cons_of_mem t ht') u'
                (List.mem_cons_of_mem u hu')

theorem sameValues?_map
    (h : ∀ t ∈ p.children, ∀ u ∈ q.children, s.same? t.label u.label = some (same t u)) :
    s.sameValues? (p.map Tree.label) (q.map Tree.label) = some (p.sameWith same q) := by
  cases p with
  | node t =>
      cases q with
      | node u => simpa [Value.map, sameValues?, Value.sameWith, Value.children] using h
      | _ => simp [Value.map, sameValues?, Value.sameWith]
  | optional t =>
      cases q with
      | optional u =>
          cases t <;> cases u <;>
            simp_all [Value.map, sameValues?, Value.sameWith, sameOptions, Value.children]
      | _ => simp [Value.map, sameValues?, Value.sameWith]
  | nodes ts =>
      cases q with
      | nodes us =>
          simp only [Value.map, sameValues?, Value.sameWith, List.length_map]
          split
          · exact sameNodes?_map h
          · rw [sameLists_of_length_ne ‹_›]
      | _ => simp [Value.map, sameValues?, Value.sameWith]
  | _ => cases q <;> simp [Value.map, sameValues?, Value.sameWith]

theorem sameSlots?_map (h : ∀ p ∈ ps, ∀ q ∈ qs, ∀ t ∈ p.children, ∀ u ∈ q.children,
      s.same? t.label u.label = some (same t u)) :
    s.sameSlots? (ps.map fun p => p.map Tree.label) (qs.map fun q => q.map Tree.label) =
      some (sameLists (Value.sameWith same) ps qs) := by
  induction ps generalizing qs with
  | nil => cases qs <;> simp [sameSlots?, sameLists]
  | cons p ps ih =>
      cases qs with
      | nil => simp [sameSlots?, sameLists]
      | cons q qs =>
          rw [List.map_cons, List.map_cons, sameSlots?,
            sameValues?_map (h p List.mem_cons_self q List.mem_cons_self), sameLists]
          cases p.sameWith same q with
          | false => rfl
          | true =>
              exact ih fun p' hp' q' hq' => h p' (List.mem_cons_of_mem p hp') q'
                (List.mem_cons_of_mem q hq')

theorem compareNodes?_map
    (h : ∀ t ∈ ts, ∀ u ∈ us, s.compare? t.label u.label = some (compare t u)) :
    s.compareNodes? (ts.map Tree.label) (us.map Tree.label) =
      some (compareLists compare ts us) := by
  induction ts generalizing us with
  | nil => cases us <;> simp [compareNodes?, compareLists]
  | cons t ts ih =>
      cases us with
      | nil => simp [compareNodes?, compareLists]
      | cons u us =>
          rw [List.map_cons, List.map_cons, compareNodes?,
            h t List.mem_cons_self u List.mem_cons_self, compareLists]
          cases compare t u with
          | eq =>
              exact ih fun t' ht' u' hu' => h t' (List.mem_cons_of_mem t ht') u'
                (List.mem_cons_of_mem u hu')
          | _ => rfl

theorem compareValues?_map
    (h : ∀ t ∈ p.children, ∀ u ∈ q.children, s.compare? t.label u.label = some (compare t u)) :
    s.compareValues? (p.map Tree.label) (q.map Tree.label) = some (p.compareWith compare q) := by
  cases p with
  | node t =>
      cases q with
      | node u => simpa [Value.map, compareValues?, Value.compareWith, Value.children] using h
      | _ => simp [Value.map, compareValues?, Value.compareWith, Value.shape]
  | optional t =>
      cases q with
      | optional u =>
          cases t <;> cases u <;>
            simp_all [Value.map, compareValues?, Value.compareWith, compareOptions, Value.children]
      | _ => simp [Value.map, compareValues?, Value.compareWith, Value.shape]
  | nodes ts =>
      cases q with
      | nodes us =>
          simp only [Value.map, compareValues?, Value.compareWith]
          exact compareNodes?_map h
      | _ => simp [Value.map, compareValues?, Value.compareWith, Value.shape]
  | _ => cases q <;> simp [Value.map, compareValues?, Value.compareWith, Value.shape]

theorem compareSlots?_map (h : ∀ p ∈ ps, ∀ q ∈ qs, ∀ t ∈ p.children, ∀ u ∈ q.children,
      s.compare? t.label u.label = some (compare t u)) :
    s.compareSlots? (ps.map fun p => p.map Tree.label) (qs.map fun q => q.map Tree.label) =
      some (compareLists (Value.compareWith compare) ps qs) := by
  induction ps generalizing qs with
  | nil => cases qs <;> simp [compareSlots?, compareLists]
  | cons p ps ih =>
      cases qs with
      | nil => simp [compareSlots?, compareLists]
      | cons q qs =>
          rw [List.map_cons, List.map_cons, compareSlots?,
            compareValues?_map (h p List.mem_cons_self q List.mem_cons_self), compareLists]
          cases p.compareWith compare q with
          | eq =>
              exact ih fun p' hp' q' hq' => h p' (List.mem_cons_of_mem p hp') q'
                (List.mem_cons_of_mem q hq')
          | _ => rfl

end Lockstep

theorem Unfolds.same? (ht : s.Unfolds t) (hu : s.Unfolds u) :
    s.same? t.label u.label = some (t.sameWith sameInstance u) := by
  induction t using Tree.induct generalizing u with
  | step l k vs ih =>
      have hnode := ht.node?
      rw [Tree.label_node, Tree.kind_node, Tree.values_node] at hnode
      rw [Tree.label_node, Store.same?, Tree.sameWith_node, hnode, hu.node?]
      simp only [Option.bind_eq_bind, Option.bind_some]
      by_cases hself : sameInstance l u.label = true
      · rw [if_pos hself, hself, Bool.true_or]
        rfl
      · rw [if_neg hself, Bool.eq_false_iff.2 hself, Bool.false_or]
        split
        · rename_i hkind
          rw [structural_map, structural_map, sameSlots?_map fun p hp q hq t htp u huq =>
            ih p (mem_of_mem_structural hp) t htp
              (ht.child p (mem_of_mem_structural hp) t htp)
              (hu.child q (mem_of_mem_structural hq) u huq), hkind]
          simp
        · rename_i hkind
          rw [beq_eq_false_iff_ne.2 hkind]
          rfl

theorem Unfolds.compare? (ht : s.Unfolds t) (hu : s.Unfolds u) :
    s.compare? t.label u.label = some (t.compareWith sameInstance u) := by
  induction t using Tree.induct generalizing u with
  | step l k vs ih =>
      have hnode := ht.node?
      rw [Tree.label_node, Tree.kind_node, Tree.values_node] at hnode
      rw [Tree.label_node, Store.compare?, Tree.compareWith_node, hnode, hu.node?]
      simp only [Option.bind_eq_bind, Option.bind_some]
      by_cases hself : sameInstance l u.label = true
      · rw [if_pos hself, if_pos hself]
        rfl
      · rw [if_neg hself, if_neg hself]
        cases k.compare u.kind with
        | eq =>
            rw [structural_map, structural_map, compareSlots?_map fun p hp q hq t htp u huq =>
              ih p (mem_of_mem_structural hp) t htp
                (ht.child p (mem_of_mem_structural hp) t htp)
                (hu.child q (mem_of_mem_structural hq) u huq)]
            rfl
        | _ => rfl

theorem same_of_unfolding? (ht : s.unfolding? a = some t) (hu : s.unfolding? b = some u) :
    s.same a b = .ok (t.same u) := by
  have hiff := Tree.sameWith_iff_erase_eq s.soundShortcut (unfolds_of_unfolding? ht)
    (unfolds_of_unfolding? hu)
  rw [← Tree.same_iff_erase_eq] at hiff
  have hsame := (unfolds_of_unfolding? ht).same? (unfolds_of_unfolding? hu)
  rw [label_of_unfolding? ht, label_of_unfolding? hu, Bool.eq_iff_iff.2 hiff] at hsame
  exact Stop.orEndless_eq_ok_iff.2 hsame

theorem compare_of_unfolding? (ht : s.unfolding? a = some t) (hu : s.unfolding? b = some u) :
    s.compare a b = .ok (t.compare u) := by
  have hcompare := (unfolds_of_unfolding? ht).compare? (unfolds_of_unfolding? hu)
  rw [label_of_unfolding? ht, label_of_unfolding? hu,
    Tree.compareWith_eq_compareKeys s.soundShortcut (unfolds_of_unfolding? ht)
      (unfolds_of_unfolding? hu), ← Tree.compare_eq_compareKeys] at hcompare
  exact Stop.orEndless_eq_ok_iff.2 hcompare

/-- A comparison with what is no instance does not come back. -/
theorem compared_of_absent (h : s.node? a = none ∨ s.node? b = none) :
    s.same a b = .error .endless ∧ s.compare a b = .error .endless := by
  rw [same, compare, same?, compare?]
  rcases h with ha | hb
  · rw [ha]
    exact ⟨rfl, rfl⟩
  · rw [hb]
    cases s.node? a <;> exact ⟨rfl, rfl⟩

/-- So what is compared is there. -/
theorem holds_of_same {e : Bool} (h : s.same a b = .ok e) :
    (s.node? a).isSome ∧ (s.node? b).isSome := by
  by_cases ha : s.node? a = none
  · rw [(compared_of_absent (.inl ha)).1] at h
    cases h
  · by_cases hb : s.node? b = none
    · rw [(compared_of_absent (.inr hb)).1] at h
      cases h
    · exact ⟨Option.isSome_iff_ne_none.2 ha, Option.isSome_iff_ne_none.2 hb⟩

/-! ## Values -/

variable {v w : Value NodeId} {p q : Value (Tree NodeId)}

/-- The second value is the first with its children unfolded. -/
def UnfoldsValue (s : Store) (v : Value NodeId) (p : Value (Tree NodeId)) : Prop :=
  v.mapM s.unfolding? = some p

theorem UnfoldsValue.eq_map (h : s.UnfoldsValue v p) : v = p.map Tree.label :=
  Value.rel_eq_iff.1 (Value.rel_map_right_iff.2
    ((Value.mapM_eq_some_iff.1 h).imp fun _ _ hc => (label_of_unfolding? hc).symm))

theorem UnfoldsValue.child (h : s.UnfoldsValue v p) {c : Tree NodeId} (hc : c ∈ p.children) :
    s.Unfolds c := by
  obtain ⟨x, _, hx⟩ := exists_of_forall₂_left (Value.mapM_eq_some_iff.1 h).flip.children hc
  exact unfolds_of_unfolding? hx

/-- Values are equal if they agree after erasing all locations below them. -/
theorem sameValues_of_unfolding? (hv : s.UnfoldsValue v p) (hw : s.UnfoldsValue w q) :
    ∃ e, s.sameValues v w = .ok e ∧ (e = true ↔ p.map Tree.erase = q.map Tree.erase) := by
  refine ⟨Value.sameWith (Tree.sameWith sameInstance) p q, Stop.orEndless_eq_ok_iff.2 ?_, ?_⟩
  · rw [hv.eq_map, hw.eq_map]
    exact sameValues?_map fun t ht u hu => (hv.child ht).same? (hw.child hu)
  · rw [Value.sameWith_iff, Value.map_eq_iff]
    exact Value.Rel.congr_mem fun t ht u hu =>
      Tree.sameWith_iff_erase_eq s.soundShortcut (hv.child ht) (hw.child hu)

theorem compareValues_of_unfolding? (hv : s.UnfoldsValue v p) (hw : s.UnfoldsValue w q) :
    s.compareValues v w = .ok (compareKeys (p.key Tree.key) (q.key Tree.key)) := by
  have hkeyed : Keyed (Value.compareWith (Tree.compareWith sameInstance) p q)
      (p.key Tree.key) (q.key Tree.key) :=
    Value.keyed_compareWith fun t ht u hu =>
      Tree.keyed_compareWith s.soundShortcut (hv.child ht) (hw.child hu)
  rw [← hkeyed.eq_compareKeys, hv.eq_map, hw.eq_map]
  exact Stop.orEndless_eq_ok_iff.2 (compareValues?_map fun t ht u hu =>
    (hv.child ht).compare? (hw.child hu))

/-- Values of different shapes are ordered by their shapes, whatever is in them. -/
theorem compareValues_of_shape_ne (h : v.shape ≠ w.shape) :
    s.compareValues v w = .ok (v.shape.compare w.shape) := by
  rw [← Value.compareWith_of_shape_ne h]
  refine Stop.orEndless_eq_ok_iff.2 (compareValues?.eq_4 s v w ?_ ?_ ?_)
  all_goals
    rintro _ _ rfl rfl
    exact h rfl

/-! ## Well-formed stores -/

/-- The identity belongs to an instance. -/
def Holds (s : Store) (a : NodeId) : Prop := (s.node? a).isSome

/-- The children of the value are instances of the store. -/
def HoldsChildren (s : Store) (v : Value NodeId) : Prop := ∀ c ∈ v.children, s.Holds c

theorem WellFormed.exists_unfolding?_of_holds (hs : s.WellFormed) (h : s.Holds a) :
    ∃ t, s.unfolding? a = some t := by
  obtain ⟨n, hn⟩ := Option.isSome_iff_exists.1 h
  exact hs.exists_unfolding? hn

theorem WellFormed.exists_unfoldsValue (hs : s.WellFormed) (h : s.HoldsChildren v) :
    ∃ p, s.UnfoldsValue v p := by
  obtain ⟨p, hp⟩ := Value.exists_rel fun c hc => hs.exists_unfolding?_of_holds (h c hc)
  exact ⟨p, Value.mapM_eq_some_iff.2 hp⟩

/-- The nodes have equal unfoldings after erasing all locations. -/
def ErasedEqual (s : Store) (a b : NodeId) : Prop :=
  (s.unfolding? a).map Tree.erase = (s.unfolding? b).map Tree.erase

/-- The values are equal after erasing all locations below them. -/
def ErasedEqualValues (s : Store) (v w : Value NodeId) : Prop :=
  (v.mapM s.unfolding?).map (Value.map Tree.erase) =
    (w.mapM s.unfolding?).map (Value.map Tree.erase)

theorem WellFormed.coherentOrder (hs : s.WellFormed) :
    CoherentOrder s.Holds s.ErasedEqual s.same s.compare := by
  refine .of_keys (fun a => ((s.unfolding? a).map Tree.key).getD []) ?_ ?_ ?_
  all_goals
    intro a b ha hb
    obtain ⟨t, ht⟩ := hs.exists_unfolding?_of_holds ha
    obtain ⟨u, hu⟩ := hs.exists_unfolding?_of_holds hb
    simp only [ErasedEqual, ht, hu, Option.map_some, Option.some.injEq, Option.getD_some]
  · exact ⟨_, same_of_unfolding? ht hu, Tree.same_iff_erase_eq⟩
  · rw [compare_of_unfolding? ht hu, Tree.compare_eq_compareKeys]
  · exact Tree.compareKeys_eq_iff

theorem WellFormed.coherentOrder_values (hs : s.WellFormed) :
    CoherentOrder s.HoldsChildren s.ErasedEqualValues s.sameValues s.compareValues := by
  refine .of_keys (fun v => ((v.mapM s.unfolding?).map (Value.key Tree.key)).getD []) ?_ ?_ ?_
  all_goals
    intro v w hv hw
    obtain ⟨p, hp⟩ := hs.exists_unfoldsValue hv
    obtain ⟨q, hq⟩ := hs.exists_unfoldsValue hw
    simp only [ErasedEqualValues, show v.mapM s.unfolding? = some p from hp,
      show w.mapM s.unfolding? = some q from hq, Option.map_some, Option.some.injEq,
      Option.getD_some]
  · exact sameValues_of_unfolding? hp hq
  · exact compareValues_of_unfolding? hp hq
  · exact Tree.compareKeys_value_eq_iff

end Store

/-- In a well-formed store equality, order and fingerprints of nodes fit together and see
neither locations nor sharing. Kinds are compared first. Values are ordered likewise,
except that locations count among them and that shapes are compared first. -/
theorem comparison_is_coherent {s : Store} (hs : s.WellFormed) :
    CoherentOrder s.Holds s.ErasedEqual s.same s.compare ∧
    (∀ a b m n, s.node? a = some m → s.node? b = some n → m.kind ≠ n.kind →
      s.compare a b = .ok (m.kind.compare n.kind)) ∧
    (∀ a b t u, s.unfolding? a = some t → s.unfolding? b = some u →
      s.same a b = .ok (t.plain.same u.plain) ∧ s.compare a b = .ok (t.plain.compare u.plain) ∧
      t.fingerprint = t.plain.fingerprint ∧
      (s.same a b = .ok true → t.fingerprint = u.fingerprint)) ∧
    CoherentOrder s.HoldsChildren s.ErasedEqualValues s.sameValues s.compareValues ∧
    (∀ v w, s.HoldsChildren v → s.HoldsChildren w → v.shape ≠ w.shape →
      s.compareValues v w = .ok (v.shape.compare w.shape)) ∧
    ∀ k l, s.sameValues (.location k) (.location l) = .ok (k == l) ∧
      s.compareValues (.location k) (.location l) = .ok (k.compare l) := by
  refine ⟨hs.coherentOrder, ?_, ?_, hs.coherentOrder_values, ?_, fun k l => ⟨?_, ?_⟩⟩
  · intro a b m n hm hn hkind
    obtain ⟨t, ht⟩ := hs.exists_unfolding? hm
    obtain ⟨u, hu⟩ := hs.exists_unfolding? hn
    have htm : t.kind = m.kind := Store.kind_of_unfolding? ht hm
    have hun : u.kind = n.kind := Store.kind_of_unfolding? hu hn
    rw [← htm, ← hun] at hkind ⊢
    rw [Store.compare_of_unfolding? ht hu, Tree.compare_of_kind_ne hkind]
  · intro a b t u ht hu
    have hsame := Store.same_of_unfolding? ht hu
    refine ⟨?_, ?_, t.fingerprint_plain.symm, ?_⟩
    · rw [hsame, Tree.same_plain]
    · rw [Store.compare_of_unfolding? ht hu, Tree.compare_plain]
    · intro heq
      rw [hsame, Except.ok.injEq] at heq
      exact Tree.fingerprint_eq_of_same heq
  · exact fun v w _ _ hshape => Store.compareValues_of_shape_ne hshape
  · exact Stop.orEndless_eq_ok_iff.2 (by simp [Store.sameValues?, Value.sameWith])
  · exact Stop.orEndless_eq_ok_iff.2 (by simp [Store.compareValues?, Value.compareWith])

theorem comparison_is_coherent_sharedTerm :
    Store.sharedTerm.WellFormed ∧
      CoherentOrder Store.sharedTerm.Holds Store.sharedTerm.ErasedEqual Store.sharedTerm.same
        Store.sharedTerm.compare :=
  have hs : Store.sharedTerm.WellFormed := .of_inOrder (by decide)
  ⟨hs, (comparison_is_coherent hs).1⟩

end AnswerSet
