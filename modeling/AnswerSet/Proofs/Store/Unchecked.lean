import AnswerSet.Proofs.Pool.Alternatives
import AnswerSet.Proofs.Store.Evolve
import AnswerSet.Proofs.Store.Judgement
import AnswerSet.Proofs.Store.Plant
import AnswerSet.Store.Text

/-!
# Operations that do not check what they build

Copying, reading, expanding and transforming add instances without a check. Each of
them puts into a new instance values that arise from the values of a node that follows
the schema by exchanging children only, so the new instance follows it too.
-/

namespace AnswerSet

section Admits

variable {m : Type → Type} [Monad m] [LawfulMonad m] {J : Judgement m} {α β : Type}

/-- An action over all children of a node keeps its values in the schema. -/
theorem Judgement.holds_admits {f : α → m β} {k : Kind} {vs : List (Value α)} (hvs : k.Admits vs)
    (h : ∀ v ∈ vs, ∀ a ∈ v.children, J.Holds (f a) fun _ => True) :
    J.Holds (vs.mapM (Value.mapM f)) fun ws => k.Admits ws := by
  have hvalues : J.Holds (vs.mapM (Value.mapM f))
      (List.Forall₂ (Value.Rel fun _ _ => True) vs) :=
    J.holds_mapM fun v hv => J.holds_valueMapM fun a ha => h v hv a ha
  exact J.holds_imp hvalues fun ws hws => hvs.of_rel hws

end Admits

/-- A valid store evolves. -/
def Store.evolution : Discipline where
  Before := Valid
  Leads := Evolves
  refl := .refl
  trans := .trans
  keeps h hs := h.valid hs

/-- Run in a valid store, the action evolves it. -/
abbrev Store.evolving : Judgement (StateM Store) := evolution.onStore

/-- Run with any state of the caller in a valid store, the action evolves the store if it comes
back, also if it fails. -/
abbrev EditM.evolving {σ ε : Type} : Judgement (EditM σ ε) := Store.evolution.onEdit

theorem Store.evolving_alloc {n : Node} (hn : n.Valid) :
    evolving.Holds (alloc n) fun _ => True :=
  fun s _ => ⟨.alloc s hn, trivial⟩

/-! ## Planting -/

namespace Tree

open Store (evolving)

variable {α : Type}

theorem evolving_plant {t : Tree α} (ht : t.Valid) : evolving.Holds t.plant fun _ => True := by
  induction t using induct with
  | step l k vs ih =>
      obtain ⟨hadmits, hchildren⟩ := valid_node_iff.1 ht
      rw [plant_node]
      refine evolving.holds_bind (Judgement.holds_admits hadmits fun v hv t htv =>
        ih v hv t htv (hchildren v hv t htv)) fun values hvalues => ?_
      exact Store.evolving_alloc hvalues

/-! ## Reading -/

mutual

/-- A tree that was read follows the schema. -/
theorem valid_of_ofJson : (v : Json) → {t : Tree Unit} → ofJson v = .ok t → t.Valid
  | .obj fields, t, h => by
      rw [ofJson] at h
      obtain ⟨k, -, h⟩ := bind_eq_ok_iff.1 h
      obtain ⟨_, -, h⟩ := bind_eq_ok_iff.1 h
      obtain ⟨values, hvalues, h⟩ := bind_eq_ok_iff.1 h
      obtain ⟨_, hcheck, h⟩ := bind_eq_ok_iff.1 h
      cases h
      refine valid_node_iff.2 ⟨Kind.check_eq_ok_iff.1 hcheck, fun w hw => ?_⟩
      obtain ⟨slot, _, hslot⟩ := exists_of_forall₂_left
        (List.Forall₂.flip (mapM_eq_ok_iff.1 hvalues)) hw
      exact valid_of_fieldOf k slot fields hslot
  | .null, _, h | .bool _, _, h | .num _, _, h | .str _, _, h | .arr _, _, h => by cases h

theorem valid_of_fieldOf (k : Kind) (slot : Slot) : (fields : List (String × Json)) →
    {w : Value (Tree Unit)} → fieldOf k slot fields = .ok w → ∀ t ∈ w.children, t.Valid
  | [], w, h => by cases h
  | (key, v) :: rest, w, h => by
      unfold fieldOf at h
      split at h
      · exact valid_of_fieldOf k slot rest h
      · have hread := fun {t : Tree Unit} => valid_of_ofJson v (t := t)
        cases hshape : slot.shape with
        | node =>
            simp only [hshape] at h
            obtain ⟨t, ht, h⟩ := bind_eq_ok_iff.1 h
            cases h
            simpa [Value.children] using hread ht
        | optional =>
            simp only [hshape] at h
            split at h
            · cases h
              simp [Value.children]
            · obtain ⟨t, ht, h⟩ := bind_eq_ok_iff.1 h
              cases h
              simpa [Value.children] using hread ht
        | nodes =>
            simp only [hshape] at h
            split at h
            · rename_i items
              obtain ⟨ts, hts, h⟩ := bind_eq_ok_iff.1 h
              cases h
              exact valid_of_ofJsons items hts
            · cases h
        | _ =>
            simp only [hshape] at h
            obtain ⟨_, -, h⟩ := bind_eq_ok_iff.1 h
            cases h
            simp [Value.children]

theorem valid_of_ofJsons : (vs : List Json) → {ts : List (Tree Unit)} → ofJsons vs = .ok ts →
    ∀ t ∈ ts, t.Valid
  | [], ts, h => by
      cases h
      simp
  | v :: vs, ts, h => by
      rw [ofJsons] at h
      obtain ⟨t, ht, h⟩ := bind_eq_ok_iff.1 h
      obtain ⟨ts, hts, h⟩ := bind_eq_ok_iff.1 h
      cases h
      exact List.forall_mem_cons.2 ⟨valid_of_ofJson v ht, valid_of_ofJsons vs hts⟩

end

theorem valid_of_ofText {text : String} {t : Tree Unit} (h : ofText text = .ok t) : t.Valid := by
  rw [ofText] at h
  split at h
  · exact valid_of_ofJson _ h
  · cases h

end Tree

/-! ## Expanding -/

theorem mem_product_iff {α : Type} {factors : List (List α)} {choice : List α} :
    choice ∈ product factors ↔ List.Forall₂ (fun factor a => a ∈ factor) factors choice := by
  induction factors generalizing choice with
  | nil => simp
  | cons factor rest ih =>
      simp only [product_cons, List.mem_flatMap, List.mem_map, ih, List.forall₂_cons_left_iff]
      constructor
      · rintro ⟨a, ha, tail, htail, rfl⟩
        exact ⟨a, tail, ha, htail, rfl⟩
      · rintro ⟨a, tail, ha, htail, rfl⟩
        exact ⟨a, ha, tail, htail, rfl⟩

namespace Store

/-- Every alternative of a value fits where the value does. -/
theorem evolving_expandValue {v : Value ExpandedChild} (setLike enabled : Bool)
    (h : ∀ child ∈ v.children, evolving.Holds (child.2 enabled) fun _ => True) :
    evolving.Holds (expandValue setLike enabled v) fun answer =>
      ∀ w ∈ answer.getD [v.map fun child => child.1.label], ∀ slot, v.fits slot = w.fits slot := by
  have hnone {v : Value ExpandedChild} : ∀ w ∈ [v.map fun child => child.1.label],
      ∀ slot, v.fits slot = w.fits slot := by
    intro w hw slot
    rw [List.mem_singleton.1 hw]
    cases v <;> rfl
  have hsome {answers : List (Value NodeId)}
      (hshape : ∀ w ∈ answers,
        w.shape = v.shape ∧ ∀ domain, w.inDomain domain = v.inDomain domain) :
      ∀ w ∈ answers, ∀ slot, v.fits slot = w.fits slot := by
    intro w hw slot
    rw [Value.fits, Value.fits, (hshape w hw).1, (hshape w hw).2]
  cases v with
  | node child =>
      refine evolving.holds_bind (h child (by simp [Value.children])) fun answer _ => ?_
      refine evolving.holds_pure ?_
      cases answer with
      | none => exact hnone
      | some answers => exact hsome (by simp [Value.shape, Value.inDomain])
  | optional child =>
      cases child with
      | none => exact evolving.holds_pure hnone
      | some child =>
          refine evolving.holds_bind (h child (by simp [Value.children])) fun answer _ => ?_
          refine evolving.holds_pure ?_
          cases answer with
          | none => exact hnone
          | some answers => exact hsome (by simp [Value.shape, Value.inDomain])
  | nodes items =>
      have hlist : evolving.Holds (expandList setLike enabled items) fun _ => True := by
        refine evolving.holds_bind (evolving.holds_mapM h) fun expanded _ => ?_
        split
        · exact evolving.holds_pure trivial
        · exact evolving.holds_pure trivial
      refine evolving.holds_bind hlist fun answer _ => evolving.holds_pure ?_
      cases answer with
      | none => exact hnone
      | some answers => exact hsome (by simp [Value.shape, Value.inDomain])
  | _ => exact evolving.holds_pure hnone

/-- Every alternative of the values of a node follows the schema. -/
theorem evolving_expandValues {k : Kind} {values : List (Value ExpandedChild)}
    (hvalues : k.Admits values) (regions : Regions) (enabled : Bool)
    (h : ∀ v ∈ values, ∀ child ∈ v.children, ∀ enabled,
      evolving.Holds (child.2 enabled) fun _ => True) :
    evolving.Holds (expandValues regions k enabled values) fun answer =>
      ∀ alternatives, answer = some alternatives → ∀ vs ∈ alternatives, k.Admits vs := by
  have hlength : k.attrs.length = values.length := by simp [Kind.attrs, hvalues.length_eq]
  refine evolving.holds_bind (evolving.holds_mapM fun pair hpair =>
    evolving_expandValue _ _ fun child hchild =>
      h pair.2 (List.of_mem_zip hpair).2 child hchild _) fun expanded hexpanded => ?_
  split
  · exact evolving.holds_pure (by simp)
  · refine evolving.holds_pure fun alternatives heq choice hchoice => ?_
    cases heq
    have hfactors := mem_product_iff.1 hchoice
    have hvs : List.Forall₂ (fun v e => ∀ w ∈ e.getD [v.map fun child => child.1.label],
        ∀ slot, Value.fits slot v = Value.fits slot w) values expanded := by
      rw [← List.map_snd_zip (Nat.le_of_eq hlength.symm)]
      exact List.forall₂_map_left_iff.2 hexpanded
    have hzip : values.length = expanded.length := hvs.length_eq
    refine hvalues.of_fits (List.forall₂_iff_get.2 ⟨?_, fun i hi hi' => ?_⟩)
    · rw [← hfactors.length_eq]
      simp [hzip]
    · have hmem := List.Forall₂.get hfactors (by simpa [hzip] using hi) hi'
      have hie : i < expanded.length := hzip ▸ hi
      exact List.Forall₂.get hvs hi hie _ (by simpa using hmem)

end Store

/-- Expanding a tree that follows the schema evolves the store. -/
theorem Tree.evolving_expand (regions : Regions) {t : Tree NodeId} (ht : t.Valid)
    (enabled : Bool) : Store.evolving.Holds (t.expand regions enabled) fun _ => True := by
  induction t using Tree.induct generalizing enabled with
  | step id k vs ih =>
      obtain ⟨hadmits, hchildren⟩ := valid_node_iff.1 ht
      have hexpansions : ∀ v ∈ expansions regions vs, ∀ child ∈ v.children, ∀ enabled,
          Store.evolving.Holds (child.2 enabled) fun _ => True := by
        intro v hv child hchild enabled
        obtain ⟨w, hw, rfl⟩ := List.mem_map.1 hv
        rw [Value.children_map] at hchild
        obtain ⟨t, htw, rfl⟩ := List.mem_map.1 hchild
        exact ih w hw t htw (hchildren w hw t htw) enabled
      by_cases hpool : enabled = true ∧ k = .pool
      · obtain ⟨rfl, rfl⟩ := hpool
        have hpoolAdmits : Kind.pool.Admits (expansions regions vs) :=
          Kind.admits_map_iff.2 hadmits
        obtain ⟨arguments, harguments⟩ := Kind.exists_arguments hpoolAdmits
        rw [expand_pool, harguments]
        have hmem := Kind.mem_of_valueOf? harguments
        have halternatives : ∀ argument ∈ arguments,
            Store.evolving.Holds (alternativesOf true argument) fun _ => True :=
          fun argument hargument => Store.evolving.holds_bind
            (hexpansions _ hmem argument hargument true)
            fun _ _ => Store.evolving.holds_pure trivial
        exact Store.evolving.holds_bind (Store.evolving.holds_mapM halternatives)
          fun _ _ => Store.evolving.holds_pure trivial
      · rw [expand_of_not_pool _ _ _ hpool]
        refine Store.evolving.holds_bind (Store.evolving_expandValues
          (Kind.admits_map_iff.2 hadmits) regions enabled hexpansions) fun answer hanswer => ?_
        cases answer with
        | none => exact Store.evolving.holds_pure trivial
        | some alternatives =>
            refine Store.evolving.holds_bind (Store.evolving.holds_mapM fun values hvalues =>
              Store.evolving_alloc (hanswer alternatives rfl values hvalues))
              fun _ _ => Store.evolving.holds_pure trivial

theorem Tree.evolving_unpool {t : Tree NodeId} (ht : t.Valid) (regions : Regions) :
    Store.evolving.Holds (t.unpool regions) fun _ => True :=
  Store.evolving.holds_bind (evolving_expand regions ht regions.other) fun _ _ =>
    Store.evolving.holds_pure trivial

/-! ## Transforming -/

section Transform

open EditM (evolving)

variable {σ ε : Type} {k : Kind} {f : NodeId → EditM σ ε NodeId}

theorem evolving_rebuild (id : NodeId) (before : List (Value NodeId))
    {after : List (Value NodeId)} (hafter : k.Admits after) :
    (evolving (σ := σ) (ε := ε)).Holds (rebuild id k before after) fun _ => True := by
  unfold rebuild
  split
  · exact evolving.holds_pure trivial
  · exact Discipline.holds_lift (Store.evolving_alloc hafter)

theorem evolving_transformChildren (hf : ∀ id, evolving.Holds (f id) fun _ => True)
    (id : NodeId) : evolving.Holds (transformChildren f id) fun _ => True := by
  refine Discipline.holds_read fun s hs => ?_
  cases hn : s.node? id with
  | none => exact evolving.holds_pure trivial
  | some n =>
      refine evolving.holds_bind (Judgement.holds_admits (hs hn) fun _ _ child _ => hf child)
        fun values hvalues => ?_
      exact evolving_rebuild id n.values hvalues

end Transform

end AnswerSet
