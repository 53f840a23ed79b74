import AnswerSet.Proofs.Tree.Order
import AnswerSet.Proofs.Visit
import AnswerSet.Tree.Code

/-!
# Trees without their locations

Equal trees may differ in their labels and in their locations. The neutral form of a tree
has no labels, and every location in it is the default one; unlike erased trees it still
follows the schema. Equal trees that follow the schema have one neutral form, so whatever
can be read off the neutral form is the same for equal trees: here the surface text, and the
kinds that a visitor sees.
-/

namespace AnswerSet

variable {ν μ : Type}

/-! ## Values -/

/-- The value with the default location in place of a location. -/
def Value.neutral : Value ν → Value ν
  | .location _ => .location .default
  | v => v

namespace Value

theorem neutral_map (f : ν → μ) (v : Value ν) : (v.map f).neutral = v.neutral.map f := by
  cases v <;> rfl

@[simp] theorem children_neutral (v : Value ν) : v.neutral.children = v.children := by
  cases v <;> rfl

theorem neutral_of_isLocation {v : Value ν} (h : v.isLocation = true) :
    v.neutral = .location .default := by
  cases v with
  | location l => rfl
  | _ => cases h

theorem isLocation_eq (v : Value ν) : v.isLocation = decide (v.shape = .location) := by
  cases v <;> rfl

end Value

theorem structural_neutral (vs : List (Value ν)) :
    structural (vs.map Value.neutral) = structural vs := by
  induction vs with
  | nil => rfl
  | cons v vs ih =>
      cases v with
      | location l => exact ih
      | _ => exact congrArg (List.cons _) ih

/-- Values that follow one schema and agree but for the locations agree slot by slot. -/
theorem forall₂_of_structural {R : Value ν → Value μ → Prop} {slots : List Slot}
    {vs : List (Value ν)} {ws : List (Value μ)}
    (hvs : List.Forall₂ (fun slot v => v.fits slot = true) slots vs)
    (hws : List.Forall₂ (fun slot w => w.fits slot = true) slots ws)
    (h : List.Forall₂ R (structural vs) (structural ws)) :
    List.Forall₂ (fun v w => (v.isLocation = true ∧ w.isLocation = true) ∨ R v w) vs ws := by
  induction hvs generalizing ws with
  | nil =>
      cases hws
      exact .nil
  | @cons slot v slots vs hv _ ih =>
      cases hws with
      | @cons _ w _ ws hw hws =>
          have hshape : v.shape = w.shape :=
            (Value.fits_iff.1 hv).1.trans (Value.fits_iff.1 hw).1.symm
          have hlocation : w.isLocation = v.isLocation := by
            rw [Value.isLocation_eq, Value.isLocation_eq, hshape]
          cases hl : v.isLocation with
          | true =>
              simp only [structural, List.filter_cons, hlocation, hl] at h
              exact .cons (.inl ⟨hl, hlocation.trans hl⟩) (ih hws h)
          | false =>
              simp only [structural, List.filter_cons, hlocation, hl] at h
              obtain ⟨hfirst, hrest⟩ := List.forall₂_cons.1 h
              exact .cons (.inr hfirst) (ih hws hrest)

/-! ## Trees -/

namespace Tree

variable {α β : Type}

/-- The tree without labels and with default locations. -/
def neutral : Tree α → Tree Unit := fold fun _ k vs => .node () k (vs.map Value.neutral)

theorem neutral_node (l : α) (k : Kind) (vs : List (Value (Tree α))) :
    (node l k vs).neutral = .node () k (vs.map fun v => (v.map neutral).neutral) := by
  rw [neutral, fold_node, List.map_map]
  rfl

@[simp] theorem kind_neutral (t : Tree α) : t.neutral.kind = t.kind := by
  cases t with
  | node l k vs => rw [neutral_node]; rfl

theorem neutral_plain (t : Tree α) : t.plain.neutral = t.neutral := fold_plain _ t

/-- A fold that does not look at locations does not see them replaced. -/
theorem fold_neutral {rule : Kind → List (Value β) → β}
    (hrule : ∀ k vs, rule k (vs.map Value.neutral) = rule k vs) (t : Tree α) :
    t.neutral.fold (fun _ => rule) = t.fold fun _ => rule := by
  induction t using induct with
  | step l k vs ih =>
      rw [neutral_node, fold_node, fold_node, ← hrule k (vs.map fun v => _), List.map_map,
        List.map_map]
      congr 1
      refine List.map_congr_left fun v hv => ?_
      rw [Function.comp_apply, Function.comp_apply, ← Value.neutral_map, Value.map_map]
      congr 1
      exact Value.map_congr fun t ht => ih v hv t ht

theorem erase_neutral (t : Tree α) : t.neutral.erase = t.erase :=
  fold_neutral (fun _ vs => by rw [structural_neutral]) t

/-- Equal trees that follow the schema have one neutral form. -/
theorem neutral_eq_of_erase_eq {t : Tree α} {u : Tree β} (ht : t.Valid) (hu : u.Valid)
    (h : t.erase = u.erase) : t.neutral = u.neutral := by
  induction t using induct generalizing u with
  | step l k vs ih =>
      cases u with
      | node m j ws =>
          obtain ⟨hvs, hvalid⟩ := valid_node_iff.1 ht
          obtain ⟨hws, hvalid'⟩ := valid_node_iff.1 hu
          rw [erase_node, erase_node, node.injEq, Value.map_eq_map_iff] at h
          obtain ⟨-, rfl, hvalues⟩ := h
          rw [neutral_node, neutral_node]
          congr 1
          have hneutral : List.Forall₂ (Value.Rel fun t u => t.neutral = u.neutral)
              (structural vs) (structural ws) :=
            Value.forall₂_rel_imp_mem hvalues fun v hv t ht w hw u hu htu =>
              ih v (mem_of_mem_structural hv) t ht (hvalid v (mem_of_mem_structural hv) t ht)
                (hvalid' w (mem_of_mem_structural hw) u hu) htu
          rw [← List.forall₂_eq_eq_eq, List.forall₂_map_left_iff, List.forall₂_map_right_iff]
          refine (forall₂_of_structural hvs hws hneutral).imp fun v w hvw => ?_
          rcases hvw with ⟨hv, hw⟩ | hvw
          · rw [Value.neutral_map, Value.neutral_map, Value.neutral_of_isLocation hv,
              Value.neutral_of_isLocation hw]
            rfl
          · rw [Value.map_eq_iff.2 hvw]

theorem erase_eq_of_neutral_eq {t : Tree α} {u : Tree β} (h : t.neutral = u.neutral) :
    t.erase = u.erase := by
  rw [← erase_neutral, h, erase_neutral]

end Tree

/-! ## Surface text -/

namespace Fields

/-- The fields without their locations. -/
def neutral (f : Fields) : Fields := { f with values := f.values.map Value.neutral }

variable (f : Fields) (a : Attr)

theorem value_neutral : f.neutral.value a = (f.value a).map Value.neutral :=
  Kind.valueOf?_map Value.neutral f.values a

/-- What is read off a value other than a location is read off its neutral form. -/
theorem bind_value_neutral {γ : Type} {read : Value Rendering → Option γ}
    (h : ∀ v, read v.neutral = read v) : (f.neutral.value a >>= read) = f.value a >>= read := by
  rw [value_neutral]
  cases f.value a with
  | none => rfl
  | some v => exact h v

@[simp] theorem kind_neutral : f.neutral.kind = f.kind := rfl

@[simp] theorem node_neutral : f.neutral.node a = f.node a :=
  bind_value_neutral f a fun v => by cases v <;> rfl

@[simp] theorem optional_neutral : f.neutral.optional a = f.optional a :=
  bind_value_neutral f a fun v => by cases v <;> rfl

@[simp] theorem nodes_neutral : f.neutral.nodes a = f.nodes a :=
  bind_value_neutral f a fun v => by cases v <;> rfl

@[simp] theorem text_neutral : f.neutral.text a = f.text a :=
  bind_value_neutral f a fun v => by cases v <;> rfl

@[simp] theorem texts_neutral : f.neutral.texts a = f.texts a :=
  bind_value_neutral f a fun v => by cases v <;> rfl

@[simp] theorem int_neutral : f.neutral.int a = f.int a :=
  bind_value_neutral f a fun v => by cases v <;> rfl

@[simp] theorem symbol_neutral : f.neutral.symbol a = f.symbol a :=
  bind_value_neutral f a fun v => by cases v <;> rfl

@[simp] theorem optionalText_neutral : f.neutral.optionalText a = f.optionalText a := by
  simp [optionalText]

@[simp] theorem number_neutral : f.neutral.number a = f.number a := by
  simp [number]

@[simp] theorem flag_neutral : f.neutral.flag a = f.flag a := by
  simp [flag]

@[simp] theorem flagText_neutral (shownFor : Bool) (s : String) :
    f.neutral.flagText a shownFor s = f.flagText a shownFor s := by
  simp [flagText]

@[simp] theorem member_neutral (ε : Type) [Enumerated ε] :
    f.neutral.member ε a = f.member ε a := by
  simp [member]

@[simp] theorem operator_neutral (ε : Type) [Enumerated ε] :
    f.neutral.operator ε a = f.operator ε a := by
  simp [operator]

@[simp] theorem guarded_neutral (inner : String) : f.neutral.guarded inner = f.guarded inner := by
  simp [guarded]

@[simp] theorem signature_neutral : f.neutral.signature = f.signature := by
  simp [signature]

theorem term_neutral : f.neutral.term = f.term := by
  simp only [term, kind_neutral, text_neutral, symbol_neutral, node_neutral, nodes_neutral,
    optionalText_neutral, flagText_neutral, member_neutral, operator_neutral]

theorem literal_neutral : f.neutral.literal = f.literal := by
  simp only [literal, kind_neutral, node_neutral, nodes_neutral, flag_neutral, operator_neutral]

theorem aggregate_neutral : f.neutral.aggregate = f.aggregate := by
  simp only [aggregate, kind_neutral, node_neutral, nodes_neutral, operator_neutral,
    guarded_neutral]

theorem theory_neutral : f.neutral.theory = f.theory := by
  simp only [theory, kind_neutral, text_neutral, texts_neutral, node_neutral, nodes_neutral,
    optionalText_neutral, number_neutral, member_neutral, operator_neutral]

theorem statement_neutral : f.neutral.statement = f.statement := by
  simp only [statement, kind_neutral, text_neutral, node_neutral, nodes_neutral,
    flagText_neutral, signature_neutral]

theorem code_neutral : f.neutral.code = f.code := by
  rw [code, code, term_neutral, literal_neutral, aggregate_neutral, theory_neutral,
    statement_neutral]

theorem asGuard_neutral : f.neutral.asGuard = f.asGuard := by
  simp [asGuard]

end Fields

namespace Tree

variable {α σ : Type}

theorem render_neutral (t : Tree α) : t.neutral.render = t.render := by
  refine fold_neutral (fun k vs => ?_) t
  have hcode := Fields.code_neutral ⟨k, vs⟩
  have hguard := Fields.asGuard_neutral ⟨k, vs⟩
  simp only [Fields.neutral] at hcode hguard
  simp only [hcode, hguard]

/-! ## Kinds -/

/-- Visits a tree with a visitor that sees nothing but kinds. -/
def walkKinds (visitor : Kind → StateM σ Bool) : Tree α → StateM σ Unit :=
  fold fun _ k values => do
    if ← visitor k then (values.flatMap Value.children).forM fun child => child
    else pure ()

theorem walkKinds_neutral (visitor : Kind → StateM σ Bool) (t : Tree α) :
    t.neutral.walkKinds visitor = t.walkKinds visitor := by
  refine fold_neutral (fun k vs => ?_) t
  simp only [List.flatMap_map, Value.children_neutral]

/-- A visitor that decides by kinds sees nothing but kinds. -/
theorem walk_eq_walkKinds {visitor : α → StateM σ Bool} {decision : Kind → StateM σ Bool}
    {t : Tree α} (h : ∀ w ∈ t.subtrees, visitor w.label = decision w.kind) :
    t.walk visitor = t.walkKinds decision := by
  induction t using induct with
  | step l k vs ih =>
      have hroot : visitor l = decision k := h _ (self_mem_subtrees _)
      have hvalues : (vs.map fun v => v.map (walk visitor)) =
          vs.map fun v => v.map (walkKinds decision) := by
        refine List.map_congr_left fun v hv => Value.map_congr fun t ht => ih v hv t ht ?_
        exact fun w hw => h w (mem_subtrees_of_child hv ht hw)
      rw [walk, fold_node, walkKinds, fold_node]
      rw [walk, walkKinds] at hvalues
      rw [hroot, hvalues]

end Tree

end AnswerSet
