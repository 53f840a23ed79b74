import AnswerSet.Proofs.Json.RoundTrip

/-!
# The JSON grammar of locations, symbols and nodes

A value may stand for a thing in more than one way. Positions and locations are
objects or arrays of their fields, truth values stand for the integers one and zero,
and a function symbol may leave out its arguments and its sign. The relations below
say which values stand for what, without mention of a reader; the later sections
prove that locations and symbols are read from exactly the values that stand for them.

Strictness differs. The object of a node holds its own fields and no other, those of a
position, a location and a function symbol may hold more.
-/

namespace AnswerSet

/-! ## The grammar -/

namespace Json

/-- The value stands for the position: an object with the three fields, whatever else
it holds, or an array of just the three. -/
inductive SpellsPosition : Json → Position → Prop where
  | object {fields : List (String × Json)} {p : Position}
      (hfilename : fields.lookup "filename" = some (.str p.filename))
      (hline : fields.lookup "line" = some (.ofInt p.line.toNat))
      (hcolumn : fields.lookup "column" = some (.ofInt p.column.toNat)) :
      SpellsPosition (.obj fields) p
  | array (p : Position) :
      SpellsPosition (.arr [.str p.filename, .ofInt p.line.toNat, .ofInt p.column.toNat]) p

/-- The value stands for the location. -/
inductive SpellsLocation : Json → Location → Prop where
  | object {fields : List (String × Json)} {first last : Json} {l : Location}
      (hbegin : fields.lookup "begin" = some first) (hend : fields.lookup "end" = some last)
      (hfirst : SpellsPosition first l.first) (hlast : SpellsPosition last l.last) :
      SpellsLocation (.obj fields) l
  | array {first last : Json} {l : Location}
      (hfirst : SpellsPosition first l.first) (hlast : SpellsPosition last l.last) :
      SpellsLocation (.arr [first, last]) l

/-- The value stands for the symbol. A function may leave out its arguments and its
sign, and may hold further fields. -/
inductive SpellsSymbol : Json → Symbol → Prop where
  | infimum : SpellsSymbol (.str "infimum") .infimum
  | supremum : SpellsSymbol (.str "supremum") .supremum
  | number (n : Int32) : SpellsSymbol (.obj [("number", .ofInt n.toInt)]) (.number n)
  | string (s : String) : SpellsSymbol (.obj [("string", .str s)]) (.string s)
  | function {fields : List (String × Json)} {name : String} {items : List Json}
      {arguments : List Symbol} {positive : Bool}
      (hname : fields.lookup "name" = some (.str name))
      (hitems : (fields.lookup "arguments").getD (.arr []) = .arr items)
      (harguments : List.Forall₂ SpellsSymbol items arguments)
      (hsign : (fields.lookup "positive").getD (.bool true) = .bool positive) :
      SpellsSymbol (.obj [("function", .obj fields)]) (.function name arguments positive)

/-- The value stands in the field of the slot for the value of an attribute, given how
nodes are spelled. -/
inductive SpellsField {ν : Type} (Spells : Json → ν → Prop) : Json → Slot → Value ν → Prop where
  | flag {slot : Slot} (b : Bool) (hshape : slot.shape = .int)
      (hdomain : slot.domain.contains (if b then 1 else 0) = true) :
      SpellsField Spells (.bool b) slot (.int (if b then 1 else 0))
  | int {slot : Slot} (n : Int32) (hshape : slot.shape = .int)
      (hdomain : slot.domain.contains n = true) :
      SpellsField Spells (.ofInt n.toInt) slot (.int n)
  | symbol {slot : Slot} {v : Json} {a : Symbol} (hshape : slot.shape = .symbol)
      (h : SpellsSymbol v a) : SpellsField Spells v slot (.symbol a)
  | location {slot : Slot} {v : Json} {l : Location} (hshape : slot.shape = .location)
      (h : SpellsLocation v l) : SpellsField Spells v slot (.location l)
  | text {slot : Slot} (s : String) (hshape : slot.shape = .text) :
      SpellsField Spells (.str s) slot (.text s)
  | texts {slot : Slot} (items : List String) (hshape : slot.shape = .texts) :
      SpellsField Spells (.ofTexts items) slot (.texts items)
  | node {slot : Slot} {v : Json} {child : ν} (hshape : slot.shape = .node)
      (h : Spells v child) : SpellsField Spells v slot (.node child)
  | absent {slot : Slot} (hshape : slot.shape = .optional) :
      SpellsField Spells .null slot (.optional none)
  | present {slot : Slot} {v : Json} {child : ν} (hshape : slot.shape = .optional)
      (h : Spells v child) : SpellsField Spells v slot (.optional (some child))
  | nodes {slot : Slot} {items : List Json} {children : List ν} (hshape : slot.shape = .nodes)
      (h : List.Forall₂ Spells items children) :
      SpellsField Spells (.arr items) slot (.nodes children)

/-- The value stands for the tree: its field `type` names the kind, the other keys are
those of the attributes, and each field stands for the value of its attribute. -/
inductive SpellsNode : Json → Tree Unit → Prop where
  | node {fields : List (String × Json)} {k : Kind} {values : List (Value (Tree Unit))}
      (htype : fields.lookup "type" = some (.str k.name))
      (hkeys : ∀ key, key ∈ fields.map Prod.fst ↔ key = "type" ∨ key ∈ k.attrs.map Attr.key)
      (hlength : k.slots.length = values.length)
      (hfields : ∀ slot value v, (slot, value) ∈ k.slots.zip values →
        fields.lookup slot.attr.key = some v → SpellsField SpellsNode v slot value) :
      SpellsNode (.obj fields) (.node () k values)

end Json

/-! ## Locations -/

namespace Location

variable {α : Type} {fields : List (String × Json)} {key : String} {a : α}

theorem require_eq_ok_iff {found : Option α} : require key found = .ok a ↔ found = some a := by
  cases found <;> simp [require]

theorem fieldOf_eq_ok_some_iff {decode : Json → Except DecodeError α} :
    fieldOf decode fields key = .ok (some a) ↔
      ∃ v, fields.lookup key = some v ∧ decode v = .ok a := by
  unfold fieldOf
  cases fields.lookup key with
  | none => simp [pure, Except.pure]
  | some v => cases hv : decode v <;> simp [hv]

end Location

namespace Position

variable {fields : List (String × Json)} {key : String} {p : Position}

theorem countOfJson_eq_ok_iff {v : Json} {n : UInt64} :
    countOfJson v = .ok n ↔ v = .ofInt n.toNat := by
  constructor
  · intro h
    unfold countOfJson at h
    split at h
    · split at h
      · rename_i hword
        cases h
        rw [Json.uint64?_eq_some_iff.1 hword, Json.ofInt]
      · cases h
    · cases h
  · rintro rfl
    exact countOfJson_ofInt n

theorem filenameOfJson_eq_ok_iff {v : Json} {s : String} :
    filenameOfJson v = .ok s ↔ v = .str s := by
  cases v <;> simp [filenameOfJson]

theorem countField_eq_ok_some_iff {n : UInt64} :
    Location.fieldOf countOfJson fields key = .ok (some n) ↔
      fields.lookup key = some (.ofInt n.toNat) := by
  simp [Location.fieldOf_eq_ok_some_iff, countOfJson_eq_ok_iff]

theorem filenameField_eq_ok_some_iff {s : String} :
    Location.fieldOf filenameOfJson fields key = .ok (some s) ↔
      fields.lookup key = some (.str s) := by
  simp [Location.fieldOf_eq_ok_some_iff, filenameOfJson_eq_ok_iff]

theorem spells_of_ofJson {v : Json} (h : ofJson v = .ok p) : Json.SpellsPosition v p := by
  unfold ofJson at h
  split at h
  case h_1 fields =>
    simp only [bind_eq_ok_iff, Location.require_eq_ok_iff] at h
    obtain ⟨_, hcolumn, _, hfilename, _, hline, filename, rfl, line, rfl, column, rfl, h⟩ := h
    cases h
    exact .object (filenameField_eq_ok_some_iff.1 hfilename) (countField_eq_ok_some_iff.1 hline)
      (countField_eq_ok_some_iff.1 hcolumn)
  case h_5 f l c more =>
    simp only [bind_eq_ok_iff, filenameOfJson_eq_ok_iff, countOfJson_eq_ok_iff] at h
    obtain ⟨filename, rfl, line, rfl, column, rfl, h⟩ := h
    split at h
    · rename_i hmore
      cases h
      rw [List.isEmpty_iff.1 hmore]
      exact .array ⟨filename, line, column⟩
    · cases h
  case h_3 | h_4 =>
    simp [bind_eq_ok_iff] at h
  all_goals cases h

theorem ofJson_eq_ok_iff {v : Json} : ofJson v = .ok p ↔ Json.SpellsPosition v p := by
  refine ⟨spells_of_ofJson, ?_⟩
  rintro (⟨hfilename, hline, hcolumn⟩ | _)
  · have hfilename' := filenameField_eq_ok_some_iff.2 hfilename
    have hline' := countField_eq_ok_some_iff.2 hline
    have hcolumn' := countField_eq_ok_some_iff.2 hcolumn
    rw [ofJson, hfilename', hline', hcolumn']
    rfl
  · rw [ofJson, countOfJson_ofInt, countOfJson_ofInt]
    rfl

end Position

namespace Location

theorem spells_of_ofJson {v : Json} {l : Location} (h : ofJson v = .ok l) :
    Json.SpellsLocation v l := by
  unfold ofJson at h
  split at h
  case h_1 fields =>
    simp only [bind_eq_ok_iff, require_eq_ok_iff] at h
    obtain ⟨_, hbegin, _, hend, first, rfl, last, rfl, h⟩ := h
    cases h
    obtain ⟨_, hbegin, hfirst⟩ := fieldOf_eq_ok_some_iff.1 hbegin
    obtain ⟨_, hend, hlast⟩ := fieldOf_eq_ok_some_iff.1 hend
    exact .object hbegin hend (Position.spells_of_ofJson hfirst) (Position.spells_of_ofJson hlast)
  case h_4 b e more =>
    simp only [bind_eq_ok_iff] at h
    obtain ⟨first, hfirst, last, hlast, h⟩ := h
    split at h
    · rename_i hmore
      cases h
      rw [List.isEmpty_iff.1 hmore]
      exact .array (Position.spells_of_ofJson hfirst) (Position.spells_of_ofJson hlast)
    · cases h
  case h_3 =>
    simp [bind_eq_ok_iff] at h
  all_goals cases h

/-- A location is read from exactly the values that stand for it. -/
theorem ofJson_eq_ok_iff {v : Json} {l : Location} :
    ofJson v = .ok l ↔ Json.SpellsLocation v l := by
  refine ⟨spells_of_ofJson, ?_⟩
  rintro (⟨hbegin, hend, hfirst, hlast⟩ | ⟨hfirst, hlast⟩)
  · rw [ofJson, fieldOf_of_lookup hbegin (Position.ofJson_eq_ok_iff.2 hfirst),
      fieldOf_of_lookup hend (Position.ofJson_eq_ok_iff.2 hlast)]
    rfl
  · rw [ofJson, Position.ofJson_eq_ok_iff.2 hfirst, Position.ofJson_eq_ok_iff.2 hlast]
    rfl

end Location

/-! ## Symbols -/

namespace Symbol

variable {fields : List (String × Json)}

theorem nameOf_eq_ok_iff {name : String} :
    nameOf fields = .ok name ↔ fields.lookup "name" = some (.str name) := by
  unfold nameOf
  cases fields.lookup "name" with
  | none => simp
  | some v => cases v <;> simp

theorem signOf_eq_ok_iff {positive : Bool} :
    signOf fields = .ok positive ↔
      (fields.lookup "positive").getD (.bool true) = .bool positive := by
  unfold signOf
  cases fields.lookup "positive" with
  | none => simp
  | some v => cases v <;> simp

theorem spells_of_scalarOf {tag : String} {v : Json} {a : Symbol} (h : scalarOf tag v = .ok a) :
    Json.SpellsSymbol (.obj [(tag, v)]) a := by
  unfold scalarOf at h
  split at h
  case h_1 m =>
    split at h
    · rename_i htag
      subst htag
      split at h
      · rename_i n hword
        cases h
        rw [Json.int32?_eq_some_iff.1 hword]
        exact .number n
      · cases h
    · cases h
  case h_3 s =>
    split at h
    · rename_i htag
      subst htag
      cases h
      exact .string s
    · cases h
  all_goals cases h

/-- An object with two fields is no symbol. -/
theorem ofJson_cons_cons (first second : String × Json) (rest : List (String × Json)) :
    ofJson (.obj (first :: second :: rest)) =
      .error (.unexpected .whole (.obj (first :: second :: rest))) := by
  rw [ofJson] <;> simp

mutual

theorem spells_of_ofJson : (v : Json) → {a : Symbol} → ofJson v = .ok a → Json.SpellsSymbol v a
  | .str s, a, h => by
      rw [ofJson] at h
      split at h
      · rename_i hs
        cases h
        exact hs ▸ .infimum
      · split at h
        · rename_i hs
          cases h
          exact hs ▸ .supremum
        · cases h
  | .obj [(tag, .obj fields)], a, h => by
      rw [ofJson] at h
      split at h
      · rename_i htag
        obtain ⟨name, hname, h⟩ := bind_eq_ok_iff.1 h
        obtain ⟨arguments, harguments, h⟩ := bind_eq_ok_iff.1 h
        obtain ⟨positive, hsign, h⟩ := bind_eq_ok_iff.1 h
        cases h
        obtain ⟨items, hitems, harguments⟩ := spells_of_argumentsOf fields harguments
        rw [htag]
        exact .function (nameOf_eq_ok_iff.1 hname) hitems harguments (signOf_eq_ok_iff.1 hsign)
      · cases h
  | .obj [(_, .null)], _, h | .obj [(_, .bool _)], _, h | .obj [(_, .num _)], _, h
  | .obj [(_, .str _)], _, h | .obj [(_, .arr _)], _, h => spells_of_scalarOf h
  | .obj (first :: second :: rest), _, h => by
      rw [ofJson_cons_cons] at h
      cases h
  | .obj [], _, h | .null, _, h | .bool _, _, h | .num _, _, h | .arr _, _, h => by cases h

theorem spells_of_argumentsOf : (fields : List (String × Json)) → {arguments : List Symbol} →
    argumentsOf fields = .ok arguments →
      ∃ items, (fields.lookup "arguments").getD (.arr []) = .arr items ∧
        List.Forall₂ Json.SpellsSymbol items arguments
  | [], arguments, h => by
      rw [argumentsOf] at h
      cases h
      exact ⟨[], rfl, .nil⟩
  | (key, v) :: rest, arguments, h => by
      unfold argumentsOf at h
      rw [Json.lookup_cons_ite]
      split at h
      · rename_i hkey
        rw [if_pos hkey.symm]
        split at h
        · rename_i items
          exact ⟨items, rfl, spells_of_ofJsons items h⟩
        · cases h
      · rename_i hkey
        rw [if_neg (Ne.symm hkey)]
        exact spells_of_argumentsOf rest h

theorem spells_of_ofJsons : (vs : List Json) → {as : List Symbol} → ofJsons vs = .ok as →
    List.Forall₂ Json.SpellsSymbol vs as
  | [], as, h => by
      rw [ofJsons] at h
      cases h
      exact .nil
  | v :: vs, as, h => by
      rw [ofJsons] at h
      obtain ⟨a, ha, h⟩ := bind_eq_ok_iff.1 h
      obtain ⟨as, has, h⟩ := bind_eq_ok_iff.1 h
      cases h
      exact .cons (spells_of_ofJson v ha) (spells_of_ofJsons vs has)

end

theorem argumentsOf_eq_ofJsons {items : List Json}
    (h : (fields.lookup "arguments").getD (.arr []) = .arr items) :
    argumentsOf fields = ofJsons items := by
  cases hfound : fields.lookup "arguments" with
  | some v =>
      rw [hfound, Option.getD_some] at h
      exact argumentsOf_of_lookup (h ▸ hfound)
  | none =>
      rw [hfound, Option.getD_none] at h
      cases h
      induction fields with
      | nil => rfl
      | cons field rest ih =>
          obtain ⟨key, v⟩ := field
          rw [Json.lookup_cons_ite] at hfound
          split at hfound
          · cases hfound
          · rename_i hkey
            unfold argumentsOf
            rw [if_neg (Ne.symm hkey)]
            exact ih hfound

mutual

theorem ofJson_of_spells : (a : Symbol) → {v : Json} → Json.SpellsSymbol v a → ofJson v = .ok a
  | .infimum, _, .infimum | .supremum, _, .supremum | .string _, _, .string _ => rfl
  | .number n, _, .number _ => ofJson_toJson (.number n)
  | .function _ arguments _, _, .function hname hitems harguments hsign => by
      rw [ofJson, if_pos rfl, nameOf_eq_ok_iff.2 hname, signOf_eq_ok_iff.2 hsign,
        argumentsOf_eq_ofJsons hitems, ofJsons_of_spells arguments harguments]
      rfl

theorem ofJsons_of_spells : (as : List Symbol) → {vs : List Json} →
    List.Forall₂ Json.SpellsSymbol vs as → ofJsons vs = .ok as
  | [], _, .nil => rfl
  | a :: as, _, .cons ha has => by
      rw [ofJsons, ofJson_of_spells a ha, ofJsons_of_spells as has]
      rfl

end

/-- A symbol is read from exactly the values that stand for it. -/
theorem ofJson_eq_ok_iff {v : Json} {a : Symbol} : ofJson v = .ok a ↔ Json.SpellsSymbol v a :=
  ⟨spells_of_ofJson v, ofJson_of_spells a⟩

end Symbol

end AnswerSet
