import AnswerSet.Proofs.Json.Object
import AnswerSet.Proofs.Store.Plant

/-!
# Reading what was written

Symbols, locations and trees are read back from their JSON forms exactly as they
were. For trees this holds of every valid tree, up to its labels, which are not
written. A node of a well-formed store can therefore be written and read back; the
copy is planted, so it consists of fresh instances and shares nothing.
-/

namespace AnswerSet

/-! ## Symbols -/

namespace Symbol

theorem argumentsOf_of_lookup {fields : List (String × Json)} {items : List Json}
    (h : fields.lookup "arguments" = some (.arr items)) : argumentsOf fields = ofJsons items := by
  induction fields with
  | nil => simp at h
  | cons field rest ih =>
      obtain ⟨key, v⟩ := field
      rw [Json.lookup_cons_ite] at h
      unfold argumentsOf
      by_cases hkey : key = "arguments"
      · rw [if_pos hkey.symm, Option.some.injEq] at h
        rw [if_pos hkey, h]
      · rw [if_neg (Ne.symm hkey)] at h
        rw [if_neg hkey]
        exact ih h

mutual

/-- A symbol is read back from its JSON form. -/
theorem ofJson_toJson : (a : Symbol) → ofJson a.toJson = .ok a
  | .infimum => rfl
  | .supremum => rfl
  | .number n => by
      change scalarOf "number" (.ofInt n.toInt) = .ok (.number n)
      simp [scalarOf, Json.ofInt]
  | .string s => rfl
  | .function name arguments positive => by
      let fields : List (String × Json) := Json.sortFields [("name", Json.str name),
        ("arguments", Json.arr (toJsons arguments)), ("positive", Json.bool positive)]
      have hlookup (key : String) : fields.lookup key =
          [("name", Json.str name), ("arguments", Json.arr (toJsons arguments)),
            ("positive", Json.bool positive)].lookup key :=
        Json.lookup_sortFields (by simp) key
      have hname : nameOf fields = .ok name := by
        simp [nameOf, hlookup]
      have hsign : signOf fields = .ok positive := by
        simp [signOf, hlookup, Json.lookup_cons_ite]
      have harguments : argumentsOf fields = .ok arguments := by
        have hfield : fields.lookup "arguments" = some (Json.arr (toJsons arguments)) := by
          simp [hlookup, Json.lookup_cons_ite]
        rw [argumentsOf_of_lookup hfield]
        exact ofJsons_toJsons arguments
      change ofJson (.obj [("function", .obj fields)]) = _
      rw [ofJson, if_pos rfl, hname, hsign, harguments]
      rfl

theorem ofJsons_toJsons : (as : List Symbol) → ofJsons (toJsons as) = .ok as
  | [] => rfl
  | a :: as => by
      rw [toJsons, ofJsons, ofJson_toJson a, ofJsons_toJsons as]
      rfl

end

end Symbol

/-! ## Locations -/

theorem Location.fieldOf_of_lookup {α : Type} {decode : Json → Except DecodeError α}
    {fields : List (String × Json)} {key : String} {v : Json} {a : α}
    (hlookup : fields.lookup key = some v) (hdecode : decode v = .ok a) :
    fieldOf decode fields key = .ok (some a) := by
  simp [fieldOf, hlookup, hdecode]

/-- A line or column is read back, in all its 64 bits. -/
theorem Position.countOfJson_ofInt (n : UInt64) : countOfJson (.ofInt n.toNat) = .ok n := by
  simp [countOfJson, Json.ofInt]

theorem Position.ofJson_toJson (p : Position) : ofJson p.toJson = .ok p := by
  let fields : List (String × Json) := Json.sortFields [("filename", Json.str p.filename),
    ("line", Json.ofInt p.line.toNat), ("column", Json.ofInt p.column.toNat)]
  have hlookup (key : String) : fields.lookup key =
      [("filename", Json.str p.filename), ("line", Json.ofInt p.line.toNat),
        ("column", Json.ofInt p.column.toNat)].lookup key :=
    Json.lookup_sortFields (by simp) key
  have hfilename : Location.fieldOf filenameOfJson fields "filename" = .ok (some p.filename) :=
    Location.fieldOf_of_lookup (by simp [hlookup]; rfl) rfl
  have hline : Location.fieldOf countOfJson fields "line" = .ok (some p.line) :=
    Location.fieldOf_of_lookup (by simp [hlookup, Json.lookup_cons_ite])
      (countOfJson_ofInt p.line)
  have hcolumn : Location.fieldOf countOfJson fields "column" = .ok (some p.column) :=
    Location.fieldOf_of_lookup (by simp [hlookup, Json.lookup_cons_ite])
      (countOfJson_ofInt p.column)
  change ofJson (.obj fields) = _
  rw [ofJson, hfilename, hline, hcolumn]
  rfl

/-- A location is read back from its JSON form. -/
theorem Location.ofJson_toJson (l : Location) : ofJson l.toJson = .ok l := by
  let fields : List (String × Json) :=
    Json.sortFields [("begin", l.first.toJson), ("end", l.last.toJson)]
  have hlookup (key : String) : fields.lookup key =
      [("begin", l.first.toJson), ("end", l.last.toJson)].lookup key :=
    Json.lookup_sortFields (by simp) key
  have hfirst : fieldOf Position.ofJson fields "begin" = .ok (some l.first) :=
    fieldOf_of_lookup (by simp [hlookup]) l.first.ofJson_toJson
  have hlast : fieldOf Position.ofJson fields "end" = .ok (some l.last) :=
    fieldOf_of_lookup (by simp [hlookup, Json.lookup_cons_ite]) l.last.ofJson_toJson
  change ofJson (.obj fields) = _
  rw [ofJson, hfirst, hlast]
  rfl

/-! ## Names and keys -/

theorem Kind.nodup_names : (all.map name).Nodup := by
  decide +kernel

theorem Attr.nodup_keys : ("type" :: all.map key).Nodup := by
  decide +kernel

@[simp] theorem Kind.ofName?_name (k : Kind) : ofName? k.name = some k := by
  have hfound : (ofName? k.name).isSome := List.find?_isSome.2 ⟨k, mem_all k, by simp⟩
  obtain ⟨j, hj⟩ := Option.isSome_iff_exists.1 hfound
  have hname : j.name = k.name := by simpa using List.find?_some hj
  rw [hj, List.inj_on_of_nodup_map nodup_names (mem_all j) (mem_all k) hname]

theorem Attr.key_injective : Function.Injective key := fun a b h =>
  List.inj_on_of_nodup_map (List.nodup_cons.1 nodup_keys).2 (mem_all a) (mem_all b) h

theorem Attr.key_ne_type (a : Attr) : a.key ≠ "type" := fun h =>
  (List.nodup_cons.1 nodup_keys).1 (List.mem_map.2 ⟨a, mem_all a, h⟩)

/-- No two fields of a written node have the same key. -/
theorem nodup_nodeFields_keys {k : Kind} {values : List (Value Json)} (h : k.Admits values) :
    ((nodeFields k values).map Prod.fst).Nodup := by
  have hkeys : (nodeFields k values).map Prod.fst = "type" :: k.attrs.map Attr.key := by
    have hattrs : (k.attrs.zip values).map Prod.fst = k.attrs :=
      List.map_fst_zip (by simp [Kind.attrs, h.length_eq])
    rw [nodeFields, List.map_cons, List.map_map]
    conv_rhs => rw [← hattrs, List.map_map]
    rfl
  rw [hkeys, List.nodup_cons]
  refine ⟨?_, k.nodup_attrs.map Attr.key_injective⟩
  rw [List.mem_map]
  rintro ⟨a, -, ha⟩
  exact a.key_ne_type ha

/-! ## Trees -/

namespace Tree

variable {α : Type} {k : Kind} {slot : Slot}

theorem toJson_node (l : α) (k : Kind) (vs : List (Value (Tree α))) :
    (node l k vs).toJson = .object (nodeFields k (vs.map fun v => v.map toJson)) :=
  fold_node _ l k vs

/-- Labels are not written. -/
theorem toJson_eq_of_plain_eq {β : Type} {t : Tree α} {u : Tree β} (h : t.plain = u.plain) :
    t.toJson = u.toJson := by
  have hplain {γ : Type} (t : Tree γ) : t.plain.toJson = t.toJson :=
    fold_plain (fun k values => Json.object (nodeFields k values)) t
  rw [← hplain t, h, hplain]

/-- The field of a slot is read where its key first occurs. -/
theorem fieldOf_of_lookup {fields : List (String × Json)} {v : Json}
    (h : fields.lookup slot.attr.key = some v) :
    fieldOf k slot fields = fieldOf k slot [(slot.attr.key, v)] := by
  induction fields with
  | nil => simp at h
  | cons field rest ih =>
      obtain ⟨key, w⟩ := field
      rw [Json.lookup_cons_ite] at h
      by_cases hkey : slot.attr.key = key
      · rw [if_pos hkey, Option.some.injEq] at h
        subst hkey h
        unfold fieldOf
        simp
      · rw [if_neg hkey] at h
        rw [← ih h]
        conv_lhs => unfold fieldOf
        rw [if_pos (Ne.symm hkey)]

theorem ofJsons_toJson {ts : List (Tree α)} (h : ∀ t ∈ ts, ofJson t.toJson = .ok t.plain) :
    ofJsons (ts.map toJson) = .ok (ts.map plain) := by
  induction ts with
  | nil => rfl
  | cons t ts ih =>
      rw [List.map_cons, ofJsons, h t List.mem_cons_self,
        ih fun u hu => h u (List.mem_cons_of_mem t hu)]
      rfl

theorem exists_toJson_eq_obj (t : Tree α) : ∃ fields, t.toJson = .obj fields := by
  cases t with
  | node l k vs => exact ⟨_, toJson_node l k vs⟩

/-- A value that fits its slot is read back from the field that was written for it. -/
theorem fieldOf_toJson {v : Value (Tree α)} (hfits : v.fits slot = true)
    (h : ∀ t ∈ v.children, ofJson t.toJson = .ok t.plain) :
    fieldOf k slot [(slot.attr.key, (v.map toJson).toJson)] = .ok (v.map plain) := by
  have hshape := (Value.fits_iff.1 hfits).1
  unfold fieldOf
  rw [if_neg (not_not_intro rfl), ← hshape]
  cases v with
  | int n =>
      change (intOfJson k slot.attr (.ofInt n.toInt) >>= fun n => pure (Value.int n)) = _
      simp [Json.ofInt, intOfJson, Value.map]
  | symbol a =>
      change (symbolOfJson a.toJson >>= fun a => pure (Value.symbol a)) = _
      rw [symbolOfJson, Symbol.ofJson_toJson]
      rfl
  | location l =>
      change (locationOfJson k slot.attr l.toJson >>= fun l => pure (Value.location l)) = _
      rw [locationOfJson, Location.ofJson_toJson]
      rfl
  | text a => rfl
  | node t =>
      change (ofJson t.toJson >>= fun t => pure (Value.node t)) = _
      rw [h t (by simp [Value.children])]
      rfl
  | optional child =>
      cases child with
      | none => rfl
      | some t =>
          obtain ⟨fields, hfields⟩ := t.exists_toJson_eq_obj
          have ht := h t (by simp [Value.children])
          simp only [Value.shape, Value.map, Value.toJson, Option.map_some, Option.getD_some]
          rw [hfields] at ht ⊢
          simp only [ht]
          rfl
  | texts items =>
      have hitems : (items.map Json.str).mapM (textOfJson k slot.attr) = .ok items :=
        mapM_eq_ok_iff.2 (List.forall₂_map_left_iff.2 (List.forall₂_same.2 fun _ _ => rfl))
      change ((items.map Json.str).mapM (textOfJson k slot.attr) >>= fun items =>
        pure (Value.texts items)) = _
      rw [hitems]
      rfl
  | nodes ts =>
      change (ofJsons (ts.map toJson) >>= fun ts => pure (Value.nodes ts)) = _
      have hitems : ofJsons (ts.map toJson) = .ok (ts.map plain) := ofJsons_toJson h
      rw [hitems]
      rfl

/-- A valid tree is read back from its JSON form, up to its labels. -/
theorem ofJson_toJson {t : Tree α} (ht : t.Valid) : ofJson t.toJson = .ok t.plain := by
  induction t using induct with
  | step l k vs ih =>
      obtain ⟨hadmits, hchildren⟩ := valid_node_iff.1 ht
      have hwritten : k.Admits (vs.map fun v => v.map toJson) := Kind.admits_map_iff.2 hadmits
      have hkeys := nodup_nodeFields_keys hwritten
      let fields := Json.sortFields (nodeFields k (vs.map fun v => v.map toJson))
      have hkind : kindOf fields = .ok k := by
        have htype : fields.lookup "type" = some (.str k.name) := by
          rw [Json.lookup_sortFields hkeys, nodeFields, List.lookup_cons_self]
        simp [kindOf, htype]
      have hforeign : checkFields k fields = .ok () := by
        have hnone : fields.find? (fun field => isForeign k field.1) = none := by
          refine List.find?_eq_none.2 fun field hfield => ?_
          rcases List.mem_cons.1 (Json.mem_of_mem_sortFields hfield) with rfl | hfield
          · simp [isForeign]
          · obtain ⟨⟨a, v⟩, hav, rfl⟩ := List.mem_map.1 hfield
            simpa [isForeign] using fun _ => ⟨a, (List.of_mem_zip hav).1, rfl⟩
        simp only [checkFields, hnone]
      have hread : k.slots.mapM (fun slot => fieldOf k slot fields) =
          .ok (vs.map fun v => v.map plain) := by
        refine mapM_eq_ok_iff.2 (List.forall₂_map_right_iff.2 ?_)
        refine List.forall₂_iff_zip.2 ⟨hadmits.length_eq, fun {slot v} hmem => ?_⟩
        have hv := (List.of_mem_zip hmem).2
        have hfits : v.fits slot = true := (List.forall₂_iff_zip.1 hadmits).2 hmem
        have hfield : (slot.attr.key, (v.map toJson).toJson) ∈
            nodeFields k (vs.map fun v => v.map toJson) := by
          refine List.mem_cons_of_mem _ (List.mem_map.2 ⟨(slot.attr, v.map toJson), ?_, rfl⟩)
          rw [Kind.attrs, List.zip_map]
          exact List.mem_map.2 ⟨(slot, v), hmem, rfl⟩
        rw [fieldOf_of_lookup ((Json.lookup_sortFields hkeys _).trans
          (Json.lookup_eq_some_of_mem hkeys hfield))]
        exact fieldOf_toJson hfits fun t htv => ih v hv t htv (hchildren v hv t htv)
      have hcheck : k.check (vs.map fun v => v.map plain) = .ok () :=
        Kind.check_eq_ok_iff.2 (Kind.admits_map_iff.2 hadmits)
      rw [toJson_node, plain_node]
      change ofJson (.obj fields) = _
      rw [ofJson, hkind]
      simp only [bind, Except.bind, hforeign, hread, hcheck]
      rfl

end Tree

/-! ## Nodes -/

namespace Store

variable {s : Store} {id : NodeId} {t : Tree NodeId}

theorem toJson_of_unfolding? (h : s.unfolding? id = some t) : s.toJson id = .ok t.toJson := by
  rw [toJson, unfold_eq_ok_iff.2 h]
  rfl

theorem ofJson_of_tree {v : Json} {p : Tree Unit} (h : Tree.ofJson v = .ok p) :
    s.ofJson v = .ok (p.plant.run s) := by
  rw [ofJson_eq, h]
  rfl

end Store

/-- A node of a well-formed store is read back from its JSON form as a copy with the
same unfolding, locations included, and the same JSON form. The instances of the copy
are fresh, each occurs once in it, and no older instance has changed. -/
theorem ofJson_toJson_plants_copy {s : Store} (hs : s.WellFormed) {id : NodeId} {n : Node}
    (hn : s.node? id = some n) :
    ∃ v copy s' t u, s.toJson id = .ok v ∧ s.ofJson v = .ok (copy, s') ∧
      s.unfolding? id = some t ∧ s'.unfolding? copy = some u ∧ u.plain = t.plain ∧
      s'.toJson copy = .ok v ∧ s.Extends s' ∧
      ∀ x, s'.Reaches copy x → s.node? x = none ∧ u.labels.count x = 1 := by
  obtain ⟨t, ht⟩ := hs.exists_unfolding? hn
  have hread := Store.ofJson_of_tree (s := s) (Tree.ofJson_toJson (hs.valid.unfolding? ht))
  obtain ⟨u, hu, hplain, hlabels, hextends⟩ := t.plain.plant_unfolds s
  rw [Tree.plain_plain] at hplain
  generalize t.plain.plant.run s = planted at hread hu hlabels hextends
  obtain ⟨copy, s'⟩ := planted
  refine ⟨t.toJson, copy, s', t, u, Store.toJson_of_unfolding? ht, hread, ht, hu, hplain, ?_,
    hextends, fun x hx => ?_⟩
  · rw [Store.toJson_of_unfolding? hu, Tree.toJson_eq_of_plain_eq hplain]
  · have hmem : x ∈ s.freshIds s' := hlabels ▸ (Store.mem_labels_iff_reaches hu).2 hx
    rw [hlabels]
    exact ⟨Store.node?_eq_none_iff.2 (Store.mem_freshIds.1 hmem).1,
      List.count_eq_one_of_mem Store.nodup_freshIds hmem⟩

theorem ofJson_toJson_sharedTerm :
    Store.sharedTerm.WellFormed ∧
      ∃ v copy s' t u, Store.sharedTerm.toJson ⟨1⟩ = .ok v ∧
        Store.sharedTerm.ofJson v = .ok (copy, s') ∧
        Store.sharedTerm.unfolding? ⟨1⟩ = some t ∧ s'.unfolding? copy = some u ∧
        u.plain = t.plain ∧ s'.toJson copy = .ok v ∧ Store.sharedTerm.Extends s' ∧
        ∀ x, s'.Reaches copy x → Store.sharedTerm.node? x = none ∧ u.labels.count x = 1 :=
  have hs : Store.sharedTerm.WellFormed := .of_inOrder (by decide)
  ⟨hs, ofJson_toJson_plants_copy hs rfl⟩

end AnswerSet
