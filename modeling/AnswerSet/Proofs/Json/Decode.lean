import AnswerSet.Proofs.Json.Grammar
import AnswerSet.Proofs.Store.Unchecked

/-!
# Reading exactly the grammar

A value is read as a tree if and only if it stands for that tree. Reading is spread
over several checks: the keys of an object, the shape of each field and its range when
the field is read, and the domain of integers at the very end. One judgement follows
the reader through all of them: what it answers is in the grammar, and what it refuses
is refused as an argument. The converse goes by induction over the tree.
-/

namespace AnswerSet

/-! ## Faults of the argument -/

/-- The action answers as promised or finds fault with its argument. -/
def Error.decoding : Judgement (Except Error) where
  Holds x post := (∃ a, x = .ok a ∧ post a) ∨ ∃ cause, x = .error (.invalidArgument cause)
  holds_pure h := .inl ⟨_, rfl, h⟩
  holds_bind hx hf := by
    rcases hx with ⟨a, rfl, ha⟩ | ⟨cause, rfl⟩
    · exact hf a ha
    · exact .inr ⟨cause, rfl⟩

open Error (decoding)

/-- What is known to find fault at most is known of the answer it gives. -/
theorem Error.decoding_eq {α : Type} {x : Except Error α} (h : decoding.Holds x fun _ => True) :
    decoding.Holds x fun a => x = .ok a :=
  h.imp_left fun ⟨a, ha, _⟩ => ⟨a, ha, ha⟩

namespace Kind

variable {ν : Type} (k : Kind)

theorem decoding_checkValue (slot : Slot) (v : Value ν) :
    decoding.Holds (k.checkValue slot v) fun _ => True := by
  unfold checkValue
  split
  · exact .inr ⟨_, rfl⟩
  · split
    · split
      · exact .inl ⟨_, rfl, trivial⟩
      · exact .inr ⟨_, rfl⟩
    · exact .inl ⟨_, rfl, trivial⟩

theorem decoding_checkSlots (slots : List Slot) (values : List (Value ν)) :
    decoding.Holds (k.checkSlots slots values) fun _ => True := by
  fun_induction checkSlots k slots values with
  | case1 slot slots v vs ih =>
      exact decoding.holds_bind (k.decoding_checkValue slot v) fun _ _ => ih
  | case2 => exact .inl ⟨_, rfl, trivial⟩

theorem decoding_check (values : List (Value ν)) :
    decoding.Holds (k.check values) fun _ => k.Admits values := by
  have hcheck : decoding.Holds (k.check values) fun _ => True := by
    unfold check
    split
    · exact .inr ⟨_, rfl⟩
    · exact k.decoding_checkSlots k.slots values
  exact Judgement.holds_imp (Error.decoding_eq hcheck) fun _ h => check_eq_ok_iff.1 h

end Kind

theorem decoding_kindOf (fields : List (String × Json)) :
    decoding.Holds (kindOf fields) fun k => fields.lookup "type" = some (.str k.name) := by
  unfold kindOf
  split
  · rename_i name hname
    split
    · rename_i k hk
      have hfound : k.name = name := by simpa using List.find?_some hk
      subst hfound
      exact .inl ⟨k, rfl, hname⟩
    · exact .inr ⟨_, rfl⟩
  · exact .inr ⟨_, rfl⟩
  · exact .inr ⟨_, rfl⟩

theorem checkFields_eq_ok_iff {k : Kind} {fields : List (String × Json)} :
    checkFields k fields = .ok () ↔
      ∀ key ∈ fields.map Prod.fst, key = "type" ∨ key ∈ k.attrs.map Attr.key := by
  have hnone : checkFields k fields = .ok () ↔
      fields.find? (fun field => isForeign k field.1) = none := by
    unfold checkFields
    split
    · rename_i hfound
      simp [hfound]
    · rename_i hfound
      simp [hfound]
  rw [hnone, List.find?_eq_none]
  simp [isForeign, or_iff_not_imp_left]

theorem decoding_checkFields (k : Kind) (fields : List (String × Json)) :
    decoding.Holds (checkFields k fields) fun _ =>
      ∀ key ∈ fields.map Prod.fst, key = "type" ∨ key ∈ k.attrs.map Attr.key := by
  have hcheck : decoding.Holds (checkFields k fields) fun _ => True := by
    unfold checkFields
    split
    · exact .inr ⟨_, rfl⟩
    · exact .inl ⟨_, rfl, trivial⟩
  exact Judgement.holds_imp (Error.decoding_eq hcheck) fun _ h => checkFields_eq_ok_iff.1 h

theorem decoding_intOfJson (k : Kind) (a : Attr) (v : Json) :
    decoding.Holds (intOfJson k a v) fun n =>
      (∃ b, v = .bool b ∧ n = if b then 1 else 0) ∨ v = .ofInt n.toInt := by
  unfold intOfJson
  split
  · exact .inl ⟨_, rfl, .inl ⟨_, rfl, rfl⟩⟩
  · split
    · rename_i hword
      refine .inl ⟨_, rfl, .inr ?_⟩
      rw [Json.int32?_eq_some_iff.1 hword, Json.ofInt]
    · exact .inr ⟨_, rfl⟩
  · exact .inr ⟨_, rfl⟩
  · exact .inr ⟨_, rfl⟩

theorem decoding_textOfJson (k : Kind) (a : Attr) (v : Json) :
    decoding.Holds (textOfJson k a v) fun s => v = .str s := by
  unfold textOfJson
  split
  · exact .inl ⟨_, rfl, rfl⟩
  · exact .inr ⟨_, rfl⟩

theorem decoding_textsOfJson (k : Kind) (a : Attr) (v : Json) :
    decoding.Holds (textsOfJson k a v) fun texts => v = .ofTexts texts := by
  unfold textsOfJson
  split
  · refine Judgement.holds_imp (Judgement.holds_mapM fun v _ => decoding_textOfJson k a v) ?_
    intro texts htexts
    have hitems : List.Forall₂ Eq _ (texts.map Json.str) := List.forall₂_map_right_iff.2 htexts
    rw [List.forall₂_eq_eq_eq] at hitems
    rw [hitems, Json.ofTexts]
  · exact .inr ⟨_, rfl⟩

theorem textsOfJson_ofTexts (k : Kind) (a : Attr) (items : List String) :
    textsOfJson k a (.ofTexts items) = .ok items :=
  mapM_eq_ok_iff.2 (List.forall₂_map_left_iff.2 (List.forall₂_same.2 fun _ _ => rfl))

/-- Faults of a part are faults of the argument. -/
theorem Error.decoding_mapError {ε α : Type} {x : Except ε α} {cause : ε → Cause}
    {post : α → Prop} (h : ∀ a, x = .ok a → post a) :
    decoding.Holds (x.mapError fun e => .invalidArgument (cause e)) post := by
  cases x with
  | ok a => exact .inl ⟨a, rfl, h a rfl⟩
  | error e => exact .inr ⟨cause e, rfl⟩

namespace Json.SpellsField

variable {ν : Type} {Spells : Json → ν → Prop} {v : Json} {slot : Slot} {value : Value ν}

theorem fits (h : SpellsField Spells v slot value) : value.fits slot = true := by
  rw [Value.fits_iff]
  cases h with
  | flag b hshape hdomain => exact ⟨hshape.symm, hdomain⟩
  | int n hshape hdomain => exact ⟨hshape.symm, hdomain⟩
  | _ => exact ⟨Eq.symm ‹_›, rfl⟩

end Json.SpellsField

namespace Tree

theorem decoding_fieldOf_single (k : Kind) {slot : Slot} {v : Json}
    (hread : decoding.Holds (ofJson v) (Json.SpellsNode v))
    (hitems : ∀ items, v = .arr items →
      decoding.Holds (ofJsons items) (List.Forall₂ Json.SpellsNode items)) :
    decoding.Holds (fieldOf k slot [(slot.attr.key, v)]) fun value =>
      value.fits slot = true → Json.SpellsField Json.SpellsNode v slot value := by
  unfold fieldOf
  rw [if_neg (not_not_intro rfl)]
  cases hshape : slot.shape with
  | int =>
      refine decoding.holds_bind (decoding_intOfJson k slot.attr v) fun n hn => ?_
      refine decoding.holds_pure fun hfits => ?_
      have hdomain : slot.domain.contains n = true := (Value.fits_iff.1 hfits).2
      rcases hn with ⟨b, rfl, rfl⟩ | rfl
      · exact .flag b hshape hdomain
      · exact .int n hshape hdomain
  | symbol =>
      refine decoding.holds_bind (Error.decoding_mapError fun a => Symbol.ofJson_eq_ok_iff.1)
        fun a ha => decoding.holds_pure fun _ => .symbol hshape ha
  | location =>
      refine decoding.holds_bind (Error.decoding_mapError fun l => Location.ofJson_eq_ok_iff.1)
        fun l hl => decoding.holds_pure fun _ => .location hshape hl
  | text =>
      refine decoding.holds_bind (decoding_textOfJson k slot.attr v) fun s hs => ?_
      exact decoding.holds_pure fun _ => hs ▸ .text s hshape
  | texts =>
      refine decoding.holds_bind (decoding_textsOfJson k slot.attr v) fun texts htexts => ?_
      exact decoding.holds_pure fun _ => htexts ▸ .texts texts hshape
  | node =>
      exact decoding.holds_bind hread fun t ht => decoding.holds_pure fun _ => .node hshape ht
  | optional =>
      dsimp only
      split
      · exact .inl ⟨_, rfl, fun _ => .absent hshape⟩
      · exact decoding.holds_bind hread fun t ht =>
          decoding.holds_pure fun _ => .present hshape ht
  | nodes =>
      dsimp only
      split
      · rename_i items
        exact decoding.holds_bind (hitems items rfl) fun ts hts =>
          decoding.holds_pure fun _ => .nodes hshape hts
      · exact .inr ⟨_, rfl⟩

mutual

theorem decoding_ofJson : (v : Json) → decoding.Holds (ofJson v) (Json.SpellsNode v)
  | .obj fields => by
      rw [ofJson]
      refine decoding.holds_bind (decoding_kindOf fields) fun k htype => ?_
      refine decoding.holds_bind (decoding_checkFields k fields) fun _ hkeys => ?_
      refine decoding.holds_bind
        (Judgement.holds_mapM fun slot _ => decoding_fieldOf k slot fields) fun values hvalues => ?_
      -- Only now is it known that the integers lie in their domains.
      refine decoding.holds_bind (k.decoding_check values) fun _ hadmits => ?_
      refine decoding.holds_pure (.node htype ?_ hadmits.length_eq ?_)
      · intro key
        refine ⟨hkeys key, ?_⟩
        rintro (rfl | hkey)
        · exact Json.mem_keys_of_lookup htype
        · obtain ⟨a, ha, rfl⟩ := List.mem_map.1 hkey
          obtain ⟨slot, hslot, rfl⟩ := List.mem_map.1 ha
          obtain ⟨_, -, v, hv, -⟩ := exists_of_forall₂_left hvalues hslot
          exact Json.mem_keys_of_lookup hv
      · intro slot value v hmem hv
        obtain ⟨w, hw, hspells⟩ := (List.forall₂_iff_zip.1 hvalues).2 hmem
        obtain rfl : w = v := Option.some.inj (hw.symm.trans hv)
        exact hspells ((List.forall₂_iff_zip.1 hadmits).2 hmem)
  | .null | .bool _ | .num _ | .str _ | .arr _ => .inr ⟨_, rfl⟩

theorem decoding_fieldOf (k : Kind) (slot : Slot) : (fields : List (String × Json)) →
    decoding.Holds (fieldOf k slot fields) fun value =>
      ∃ v, fields.lookup slot.attr.key = some v ∧
        (value.fits slot = true → Json.SpellsField Json.SpellsNode v slot value)
  | [] => .inr ⟨_, rfl⟩
  | (key, v) :: rest => by
      by_cases hkey : slot.attr.key = key
      · have hv : ((key, v) :: rest).lookup slot.attr.key = some v := by
          rw [Json.lookup_cons_ite, if_pos hkey]
        rw [fieldOf_of_lookup hv]
        refine Judgement.holds_imp (decoding_fieldOf_single k (decoding_ofJson v) ?_)
          fun value hvalue => ⟨v, hv, hvalue⟩
        cases v with
        | arr items =>
            rintro _ ⟨⟩
            exact decoding_ofJsons items
        | _ => exact fun _ h => by cases h
      · unfold fieldOf
        rw [if_pos (Ne.symm hkey), Json.lookup_cons_ite, if_neg hkey]
        exact decoding_fieldOf k slot rest

theorem decoding_ofJsons : (vs : List Json) →
    decoding.Holds (ofJsons vs) (List.Forall₂ Json.SpellsNode vs)
  | [] => .inl ⟨[], rfl, .nil⟩
  | v :: vs => by
      rw [ofJsons]
      refine decoding.holds_bind (decoding_ofJson v) fun t ht => ?_
      refine decoding.holds_bind (decoding_ofJsons vs) fun ts hts => ?_
      exact decoding.holds_pure (.cons ht hts)

end

theorem ofJsons_of_spells {vs : List Json} {ts : List (Tree Unit)}
    (h : List.Forall₂ Json.SpellsNode vs ts)
    (hread : ∀ t ∈ ts, ∀ v, Json.SpellsNode v t → ofJson v = .ok t) : ofJsons vs = .ok ts := by
  induction h with
  | nil => rfl
  | @cons v t vs ts ht _ ih =>
      rw [ofJsons, hread t List.mem_cons_self v ht,
        ih fun u hu => hread u (List.mem_cons_of_mem t hu)]
      rfl

/-- Each spelling of a field is read, given that the nodes in it are. -/
theorem fieldOf_of_spells {k : Kind} {slot : Slot} {v : Json} {value : Value (Tree Unit)}
    (h : Json.SpellsField Json.SpellsNode v slot value)
    (hread : ∀ t ∈ value.children, ∀ w, Json.SpellsNode w t → ofJson w = .ok t) :
    fieldOf k slot [(slot.attr.key, v)] = .ok value := by
  unfold fieldOf
  rw [if_neg (not_not_intro rfl), ← (Value.fits_iff.1 h.fits).1]
  cases h with
  | flag b hshape hdomain => rfl
  | int n hshape hdomain => simp [Value.shape, intOfJson, Json.ofInt]
  | symbol hshape h =>
      simp [Value.shape, symbolOfJson, Symbol.ofJson_eq_ok_iff.2 h, Except.mapError]
  | location hshape h =>
      simp [Value.shape, locationOfJson, Location.ofJson_eq_ok_iff.2 h, Except.mapError]
  | text s hshape => rfl
  | texts items hshape => simp [Value.shape, textsOfJson_ofTexts]
  | @node _ _ t hshape h =>
      have ht := hread t (by simp [Value.children]) v h
      simp [Value.shape, ht]
  | absent hshape => rfl
  | @present _ _ t hshape h =>
      have ht := hread t (by simp [Value.children]) v h
      -- A node is an object, so it is not taken for the absent one.
      cases h
      simp [Value.shape, ht]
  | nodes hshape h => simp [Value.shape, ofJsons_of_spells h hread]

theorem ofJson_of_spells {t : Tree Unit} {v : Json} (h : Json.SpellsNode v t) :
    ofJson v = .ok t := by
  induction t using induct generalizing v with
  | step l k vs ih =>
      cases h with
      | @node fields _ _ htype hkeys hlength hfields =>
      have hfield {slot : Slot} {value : Value (Tree Unit)}
          (hmem : (slot, value) ∈ k.slots.zip vs) : ∃ v, fields.lookup slot.attr.key = some v ∧
            Json.SpellsField Json.SpellsNode v slot value := by
        have hslot := (List.of_mem_zip hmem).1
        have hkey : slot.attr.key ∈ k.attrs.map Attr.key :=
          List.mem_map_of_mem (List.mem_map_of_mem hslot)
        obtain ⟨v, hv⟩ := Json.exists_lookup_of_mem_keys ((hkeys _).2 (.inr hkey))
        exact ⟨v, hv, hfields slot value v hmem hv⟩
      have hkind : kindOf fields = .ok k := by
        simp [kindOf, htype]
      have hforeign : checkFields k fields = .ok () :=
        checkFields_eq_ok_iff.2 fun key hkey => (hkeys key).1 hkey
      have hread : k.slots.mapM (fun slot => fieldOf k slot fields) = .ok vs := by
        refine mapM_eq_ok_iff.2 (List.forall₂_iff_zip.2 ⟨hlength, fun {slot value} hmem => ?_⟩)
        obtain ⟨v, hv, hspells⟩ := hfield hmem
        rw [fieldOf_of_lookup hv]
        exact fieldOf_of_spells hspells fun t ht w hw =>
          ih value (List.of_mem_zip hmem).2 t ht hw
      have hadmits : k.Admits vs := by
        refine List.forall₂_iff_zip.2 ⟨hlength, fun {slot value} hmem => ?_⟩
        obtain ⟨_, _, hspells⟩ := hfield hmem
        exact hspells.fits
      rw [ofJson, hkind]
      simp only [bind, Except.bind, hforeign, hread, Kind.check_eq_ok_iff.2 hadmits]
      rfl

/-- A tree is read from exactly the values that stand for it. -/
theorem ofJson_eq_ok_iff {v : Json} {t : Tree Unit} : ofJson v = .ok t ↔ Json.SpellsNode v t := by
  refine ⟨fun h => ?_, ofJson_of_spells⟩
  rcases decoding_ofJson v with ⟨u, hu, hspells⟩ | ⟨cause, hcause⟩
  · rw [h] at hu
    cases hu
    exact hspells
  · rw [h] at hcause
    cases hcause

end Tree

namespace Store

/-- Reading a value is a matter of the grammar: what stands for a tree is read as fresh
instances with that unfolding and written again in normal form, everything else is
refused as an argument. -/
structure ReadsByGrammar (s : Store) (v : Json) : Prop where
  accepts : (∃ id s', s.ofJson v = .ok (id, s')) ↔ ∃ t, Json.SpellsNode v t
  builds : ∀ t, Json.SpellsNode v t → ∃ id s' u, s.ofJson v = .ok (id, s') ∧ s.Extends s' ∧
    s'.unfolding? id = some u ∧ u.plain = t ∧ s'.toJson id = .ok t.toJson
  unambiguous : ∀ t u, Json.SpellsNode v t → Json.SpellsNode v u → t = u
  /-- The normal form stands for the same tree, so writing what was read from it changes
  nothing more. -/
  normal : ∀ t, Json.SpellsNode v t → Json.SpellsNode t.toJson t
  refuses : (¬∃ t, Json.SpellsNode v t) → ∃ cause, s.ofJson v = .error (.invalidArgument cause)

end Store

/-- Every value is read by the grammar, in every store. -/
theorem reading_follows_grammar (s : Store) (v : Json) : s.ReadsByGrammar v where
  accepts := by
    constructor
    · rintro ⟨id, s', h⟩
      rw [Store.ofJson_eq] at h
      obtain ⟨t, ht, -⟩ := bind_eq_ok_iff.1 h
      exact ⟨t, Tree.ofJson_eq_ok_iff.1 ht⟩
    · rintro ⟨t, ht⟩
      exact ⟨_, _, Store.ofJson_of_tree (Tree.ofJson_of_spells ht)⟩
  builds := by
    intro t ht
    have hread := Store.ofJson_of_tree (s := s) (Tree.ofJson_of_spells ht)
    obtain ⟨u, hu, hplain, -, hextends⟩ := t.plant_unfolds s
    rw [Tree.plain_eq_self] at hplain
    generalize t.plant.run s = planted at hread hu hextends
    obtain ⟨id, s'⟩ := planted
    refine ⟨id, s', u, hread, hextends, hu, hplain, ?_⟩
    have hwritten : u.toJson = t.toJson := by
      apply Tree.toJson_eq_of_plain_eq
      rw [hplain, Tree.plain_eq_self]
    rw [Store.toJson_of_unfolding? hu, hwritten]
  unambiguous := by
    intro t u ht hu
    have heq := (Tree.ofJson_of_spells ht).symm.trans (Tree.ofJson_of_spells hu)
    exact Except.ok.inj heq
  normal := by
    intro t ht
    have hvalid := Tree.valid_of_ofJson v (Tree.ofJson_of_spells ht)
    have hread := Tree.ofJson_toJson hvalid
    rw [Tree.plain_eq_self] at hread
    exact Tree.ofJson_eq_ok_iff.1 hread
  refuses := by
    intro h
    rcases Tree.decoding_ofJson v with ⟨t, -, ht⟩ | ⟨cause, hcause⟩
    · exact absurd ⟨t, ht⟩ h
    · refine ⟨cause, ?_⟩
      rw [Store.ofJson_eq, hcause]
      rfl

end AnswerSet
