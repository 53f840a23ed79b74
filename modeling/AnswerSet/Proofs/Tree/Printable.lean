import AnswerSet.Proofs.Store.Congruence

/-!
# When printing fails

A printer asks for attributes of a node by name, for the shape of what is stored there, and
for members of a family of operators by number. If the node follows the schema, all this is
there, so that the text of the node depends on the answers for its children alone. Every child
is asked for its text, other than the guards of an aggregate, of which the operator and the
term are needed.

A guard can be read by an aggregate if it has a comparison and a term, which are the guards of
aggregates and of constraints over integers. So a tree has a text exactly if the guards of all
aggregates in it are of these kinds.
-/

namespace AnswerSet

/-- The attribute holds a guard of an aggregate. -/
def Attr.isGuard (a : Attr) : Bool := a = .leftGuard || a = .rightGuard

/-- The number of members if the slot holds a member of a family of operators. -/
def Slot.count? (slot : Slot) : Option Nat :=
  match slot.type with
  | .choice e => some e.count
  | _ => none

namespace Kind

/-- The kind has the attribute, with values of the shape. -/
def Holds (k : Kind) (a : Attr) (shape : Shape) : Prop :=
  ∃ slot ∈ k.slots, slot.attr = a ∧ slot.shape = shape

instance (k : Kind) (a : Attr) (shape : Shape) : Decidable (k.Holds a shape) :=
  inferInstanceAs (Decidable (∃ slot ∈ k.slots, _))

/-- The kind has the attribute, with members of a family of this size. -/
def Chooses (k : Kind) (a : Attr) (count : Nat) : Prop :=
  ∃ slot ∈ k.slots, slot.attr = a ∧ slot.count? = some count

instance (k : Kind) (a : Attr) (count : Nat) : Decidable (k.Chooses a count) :=
  inferInstanceAs (Decidable (∃ slot ∈ k.slots, _))

/-- The kind has the attribute, and no children there. -/
def HoldsLeaf (k : Kind) (a : Attr) : Prop :=
  ∃ slot ∈ k.slots, slot.attr = a ∧ slot.shape ≠ .node ∧ slot.shape ≠ .optional ∧
    slot.shape ≠ .nodes

instance (k : Kind) (a : Attr) : Decidable (k.HoldsLeaf a) :=
  inferInstanceAs (Decidable (∃ slot ∈ k.slots, _))

end Kind

/-! ## Reading fields -/

namespace Option

variable {α β : Type} {x : Option α} {g : α → Option β}

theorem any_const (x : Option α) (b : Bool) : x.any (fun _ => b) = (x.isSome && b) := by
  cases x <;> rfl

/-- If it does not matter what is read, then it only has to be there, and so does the rest. -/
theorem isSome_bind_iff {p : Prop} (h : ∀ a, (g a).isSome = true ↔ p) :
    (x >>= g).isSome = true ↔ x.isSome = true ∧ p := by
  cases x with
  | none => simp
  | some a => simp [h a]

theorem isSome_bind_of_forall (h : ∀ a, (g a).isSome = true) :
    (x >>= g).isSome = true ↔ x.isSome = true := by
  cases x with
  | none => simp
  | some a => simp [h a]

end Option

theorem isSome_mapM_iff {α β : Type} {f : α → Option β} {as : List α} :
    (as.mapM f).isSome = true ↔ ∀ a ∈ as, (f a).isSome = true := by
  induction as with
  | nil => simp
  | cons a as ih =>
      rw [List.mapM_cons, List.forall_mem_cons, ← ih]
      cases f a with
      | none => simp
      | some b => cases as.mapM f <;> simp

/-- A member has a number below the size of its family. -/
theorem Enumerated.isSome_ofNumber? {ε : Type} [Enumerated ε] {n : Int32} (hle : 0 ≤ n.toInt)
    (hlt : n.toInt < (members : List ε).length) : (ofNumber? ε n).isSome = true := by
  have hnat : n.toInt.toNat < (members : List ε).length := by omega
  rw [ofNumber?, if_neg (by omega), List.getElem?_eq_getElem hnat]
  rfl

namespace Fields

/-- The answer for a child has what its parent needs of it: the operator and the term if it
guards an aggregate, and else the text. -/
def Serves (a : Attr) (r : Rendering) : Prop :=
  if a.isGuard then r.guard.isSome = true else r.text.isSome = true

/-- The answers for the children in a slot have what is needed of them. -/
def Served (f : Fields) (a : Attr) : Prop := ∀ v ∈ f.value a, ∀ r ∈ v.children, Serves a r

variable {k : Kind} {values : List (Value Rendering)} {a : Attr} {shape : Shape}

theorem served_iff {f : Fields} {v : Value Rendering} (hvalue : f.value a = some v) :
    f.Served a ↔ ∀ r ∈ v.children, Serves a r := by
  simp [Served, hvalue]

@[simp] theorem isSome_number (f : Fields) : (f.number a).isSome = (f.int a).isSome := by
  cases h : f.int a <;> simp [number, h]

@[simp] theorem isSome_flag (f : Fields) : (f.flag a).isSome = (f.int a).isSome := by
  cases h : f.int a <;> simp [flag, h]

@[simp] theorem isSome_flagText (f : Fields) (shownFor : Bool) (s : String) :
    (f.flagText a shownFor s).isSome = (f.int a).isSome := by
  cases h : f.int a <;> simp [flagText, flag, h]

@[simp] theorem isSome_operator (f : Fields) (ε : Type) [Enumerated ε] :
    (f.operator ε a).isSome = (f.member ε a).isSome := by
  cases h : f.member ε a <;> simp [operator, h]

section Schema

variable (hv : k.Admits values)

include hv

theorem exists_value {slot : Slot} (hslot : slot ∈ k.slots) :
    ∃ v, (⟨k, values⟩ : Fields).value slot.attr = some v ∧ v.fits slot = true :=
  hv.exists_valueOf? hslot

theorem exists_of_holds (h : k.Holds a shape) :
    ∃ v, (⟨k, values⟩ : Fields).value a = some v ∧ v.shape = shape := by
  obtain ⟨slot, hslot, rfl, rfl⟩ := h
  obtain ⟨v, hvalue, hfits⟩ := exists_value hv hslot
  exact ⟨v, hvalue, (Value.fits_iff.1 hfits).1⟩

theorem served_of_holdsLeaf (h : k.HoldsLeaf a) : (⟨k, values⟩ : Fields).Served a := by
  obtain ⟨slot, hslot, rfl, hleaf⟩ := h
  obtain ⟨v, hvalue, hfits⟩ := exists_value hv hslot
  rw [← (Value.fits_iff.1 hfits).1] at hleaf
  rw [served_iff hvalue]
  cases v <;> simp_all [Value.children, Value.shape]

theorem isSome_text (h : k.Holds a .text) : ((⟨k, values⟩ : Fields).text a).isSome = true := by
  obtain ⟨v, hvalue, hshape⟩ := exists_of_holds hv h
  cases v <;> cases hshape
  simp [text, hvalue, Value.text?]

theorem isSome_texts (h : k.Holds a .texts) : ((⟨k, values⟩ : Fields).texts a).isSome = true := by
  obtain ⟨v, hvalue, hshape⟩ := exists_of_holds hv h
  cases v <;> cases hshape
  simp [texts, hvalue, Value.texts?]

theorem isSome_symbol (h : k.Holds a .symbol) :
    ((⟨k, values⟩ : Fields).symbol a).isSome = true := by
  obtain ⟨v, hvalue, hshape⟩ := exists_of_holds hv h
  cases v <;> cases hshape
  simp [symbol, hvalue, Value.symbol?]

theorem isSome_int (h : k.Holds a .int) : ((⟨k, values⟩ : Fields).int a).isSome = true := by
  obtain ⟨v, hvalue, hshape⟩ := exists_of_holds hv h
  cases v <;> cases hshape
  simp [int, hvalue, Value.int?]

theorem isSome_member {ε : Type} [Enumerated ε]
    (h : k.Chooses a (Enumerated.members : List ε).length) :
    ((⟨k, values⟩ : Fields).member ε a).isSome = true := by
  obtain ⟨⟨a, t⟩, hslot, rfl, hcount⟩ := h
  obtain ⟨v, hvalue, hfits⟩ := exists_value hv hslot
  obtain ⟨hshape, hdomain⟩ := Value.fits_iff.1 hfits
  cases t with
  | choice e =>
      cases v <;> cases hshape
      rename_i n
      obtain ⟨hle, hlt⟩ : 0 ≤ n.toInt ∧ n.toInt < e.count := by
        simpa [Value.inDomain, Slot.domain, SlotType.domain, IntDomain.contains] using hdomain
      have hmember : (Enumerated.ofNumber? ε n).isSome = true := by
        refine Enumerated.isSome_ofNumber? hle ?_
        rwa [← Option.some.inj hcount]
      simpa [member, int, hvalue, Value.int?] using hmember
  | _ => cases hcount

theorem isSome_node_iff (h : k.Holds a .node) (ha : a.isGuard = false) :
    ((⟨k, values⟩ : Fields).node a).isSome = true ↔ (⟨k, values⟩ : Fields).Served a := by
  obtain ⟨v, hvalue, hshape⟩ := exists_of_holds hv h
  cases v <;> cases hshape
  simp [served_iff hvalue, node, hvalue, Value.children, Serves, ha]

theorem isSome_optionalText_iff (h : k.Holds a .optional) (ha : a.isGuard = false) :
    ((⟨k, values⟩ : Fields).optionalText a).isSome = true ↔ (⟨k, values⟩ : Fields).Served a := by
  obtain ⟨v, hvalue, hshape⟩ := exists_of_holds hv h
  cases v <;> cases hshape
  rename_i child
  cases child <;>
    simp [served_iff hvalue, optionalText, optional, hvalue, Value.children, Serves, ha]

theorem isSome_nodes_iff (h : k.Holds a .nodes) (ha : a.isGuard = false) :
    ((⟨k, values⟩ : Fields).nodes a).isSome = true ↔ (⟨k, values⟩ : Fields).Served a := by
  obtain ⟨v, hvalue, hshape⟩ := exists_of_holds hv h
  cases v <;> cases hshape
  simp [served_iff hvalue, nodes, hvalue, Value.nodes?, Value.children, Serves, ha, isSome_mapM_iff]

/-- The guards of an aggregate are asked for what is needed of them. -/
theorem isSome_guarded_iff (hleft : k.Holds .leftGuard .optional)
    (hright : k.Holds .rightGuard .optional) (inner : String) :
    ((⟨k, values⟩ : Fields).guarded inner).isSome = true ↔
      (⟨k, values⟩ : Fields).Served .leftGuard ∧ (⟨k, values⟩ : Fields).Served .rightGuard := by
  obtain ⟨v, hvalue, hshape⟩ := exists_of_holds hv hleft
  obtain ⟨w, hvalue', hshape'⟩ := exists_of_holds hv hright
  cases v <;> cases hshape
  cases w <;> cases hshape'
  rename_i left right
  rw [served_iff hvalue, served_iff hvalue']
  cases left <;> cases right <;>
    simp [guarded, optional, hvalue, hvalue', Value.children, Serves, Attr.isGuard,
      Option.isSome_bind, Option.any_const]

end Schema

/-! ## The five groups of kinds -/

/-- The kinds of terms. -/
def termKinds : List Kind :=
  [.id, .var, .symbolicTerm, .unaryOperation, .binaryOperation, .interval, .function, .pool,
    .cspProduct, .cspSum, .cspGuard]

/-- The kinds of atoms, literals and elements. -/
def literalKinds : List Kind :=
  [.booleanConstant, .symbolicAtom, .comparison, .cspLiteral, .literal, .conditionalLiteral,
    .disjunction, .disjointElement, .disjoint]

/-- The kinds of aggregates and their parts. -/
def aggregateKinds : List Kind :=
  [.aggregateGuard, .aggregate, .bodyAggregate, .headAggregate, .bodyAggregateElement,
    .headAggregateElement]

/-- The kinds of theory atoms and their parts. -/
def theoryKinds : List Kind :=
  [.theorySequence, .theoryFunction, .theoryUnparsedTermElement, .theoryUnparsedTerm, .theoryGuard,
    .theoryAtomElement, .theoryAtom, .theoryOperatorDefinition, .theoryTermDefinition,
    .theoryGuardDefinition, .theoryAtomDefinition]

/-- The kinds of statements. -/
def statementKinds : List Kind :=
  [.rule, .definition, .showSignature, .showTerm, .minimize, .script, .program, .external, .edge,
    .heuristic, .projectAtom, .projectSignature, .defined, .theoryDefinition]

/-! ### Kinds with several forms -/

section Forms

theorem isSome_unaryOperation : (⟨.unaryOperation, values⟩ : Fields).term.isSome = true ↔
    ((⟨.unaryOperation, values⟩ : Fields).node .argument).isSome = true ∧
      ((⟨.unaryOperation, values⟩ : Fields).member UnaryOperator .operatorType).isSome = true :=
  Option.isSome_bind_iff fun _ => Option.isSome_bind_of_forall fun op => by cases op <;> rfl

theorem isSome_cspProduct : (⟨.cspProduct, values⟩ : Fields).term.isSome = true ↔
    ((⟨.cspProduct, values⟩ : Fields).node .coefficient).isSome = true ∧
      ((⟨.cspProduct, values⟩ : Fields).optionalText .var).isSome = true :=
  Option.isSome_bind_iff fun _ => Option.isSome_bind_of_forall fun factor => by cases factor <;> rfl

theorem isSome_theoryUnparsedTerm : (⟨.theoryUnparsedTerm, values⟩ : Fields).theory.isSome = true ↔
    ((⟨.theoryUnparsedTerm, values⟩ : Fields).nodes .elements).isSome = true :=
  Option.isSome_bind_of_forall fun elements => by split <;> rfl

theorem isSome_theoryAtom : (⟨.theoryAtom, values⟩ : Fields).theory.isSome = true ↔
    ((⟨.theoryAtom, values⟩ : Fields).node .term).isSome = true ∧
      ((⟨.theoryAtom, values⟩ : Fields).nodes .elements).isSome = true ∧
      ((⟨.theoryAtom, values⟩ : Fields).optionalText .guard).isSome = true :=
  Option.isSome_bind_iff fun _ => Option.isSome_bind_iff fun _ =>
    Option.isSome_bind_of_forall fun guard => by cases guard <;> rfl

theorem isSome_theoryAtomDefinition :
    (⟨.theoryAtomDefinition, values⟩ : Fields).theory.isSome = true ↔
      ((⟨.theoryAtomDefinition, values⟩ : Fields).text .name).isSome = true ∧
      ((⟨.theoryAtomDefinition, values⟩ : Fields).number .arity).isSome = true ∧
      ((⟨.theoryAtomDefinition, values⟩ : Fields).text .term).isSome = true ∧
      ((⟨.theoryAtomDefinition, values⟩ : Fields).optionalText .guard).isSome = true ∧
      ((⟨.theoryAtomDefinition, values⟩ : Fields).operator TheoryAtomType
        .atomType).isSome = true :=
  Option.isSome_bind_iff fun _ => Option.isSome_bind_iff fun _ => Option.isSome_bind_iff fun _ =>
    Option.isSome_bind_iff fun guard => by
      cases guard <;> simp only [pure_bind] <;> exact Option.isSome_bind_of_forall fun _ => rfl

theorem isSome_aggregate (hv : Kind.aggregate.Admits values) :
    (⟨.aggregate, values⟩ : Fields).aggregate.isSome = true ↔
      ((⟨.aggregate, values⟩ : Fields).nodes .elements).isSome = true ∧
      (⟨.aggregate, values⟩ : Fields).Served .leftGuard ∧
      (⟨.aggregate, values⟩ : Fields).Served .rightGuard :=
  Option.isSome_bind_iff fun _ => isSome_guarded_iff hv (by decide) (by decide) _

theorem isSome_bodyAggregate (hv : Kind.bodyAggregate.Admits values) :
    (⟨.bodyAggregate, values⟩ : Fields).aggregate.isSome = true ↔
      ((⟨.bodyAggregate, values⟩ : Fields).operator AggregateFunction .function).isSome = true ∧
      ((⟨.bodyAggregate, values⟩ : Fields).nodes .elements).isSome = true ∧
      (⟨.bodyAggregate, values⟩ : Fields).Served .leftGuard ∧
      (⟨.bodyAggregate, values⟩ : Fields).Served .rightGuard :=
  Option.isSome_bind_iff fun _ => Option.isSome_bind_iff fun _ =>
    isSome_guarded_iff hv (by decide) (by decide) _

theorem isSome_headAggregate (hv : Kind.headAggregate.Admits values) :
    (⟨.headAggregate, values⟩ : Fields).aggregate.isSome = true ↔
      ((⟨.headAggregate, values⟩ : Fields).operator AggregateFunction .function).isSome = true ∧
      ((⟨.headAggregate, values⟩ : Fields).nodes .elements).isSome = true ∧
      (⟨.headAggregate, values⟩ : Fields).Served .leftGuard ∧
      (⟨.headAggregate, values⟩ : Fields).Served .rightGuard :=
  Option.isSome_bind_iff fun _ => Option.isSome_bind_iff fun _ =>
    isSome_guarded_iff hv (by decide) (by decide) _

end Forms

/-! ### All kinds -/

section Groups

variable (hv : k.Admits values)

include hv

theorem isSome_term_iff (hk : k ∈ termKinds) : (⟨k, values⟩ : Fields).term.isSome = true ↔
    ∀ slot ∈ k.slots, (⟨k, values⟩ : Fields).Served slot.attr := by
  cases k
  all_goals first
    | exact absurd hk (by decide)
    | simp (disch := decide) only [↓isSome_unaryOperation, ↓isSome_cspProduct, term,
        Option.bind_eq_bind, Option.isSome_bind, Option.pure_def, Option.isSome_some,
        Option.any_const, Bool.and_eq_true, isSome_text hv, isSome_symbol hv, isSome_flagText,
        isSome_int hv, isSome_operator, isSome_member hv, isSome_node_iff hv,
        isSome_optionalText_iff hv, isSome_nodes_iff hv, Kind.slots, List.forall_mem_cons,
        served_of_holdsLeaf hv, List.not_mem_nil, false_imp_iff, implies_true, and_true, true_and]

theorem isSome_literal_iff (hk : k ∈ literalKinds) :
    (⟨k, values⟩ : Fields).literal.isSome = true ↔
      ∀ slot ∈ k.slots, (⟨k, values⟩ : Fields).Served slot.attr := by
  cases k
  all_goals first
    | exact absurd hk (by decide)
    | simp (disch := decide) only [literal, Option.bind_eq_bind, Option.isSome_bind,
        Option.pure_def, Option.isSome_some, Option.any_const, Bool.and_eq_true, isSome_flag,
        isSome_int hv, isSome_operator, isSome_member hv, isSome_node_iff hv, isSome_nodes_iff hv,
        Kind.slots, List.forall_mem_cons, served_of_holdsLeaf hv, List.not_mem_nil, false_imp_iff,
        implies_true, and_true, true_and]

theorem isSome_aggregate_iff (hk : k ∈ aggregateKinds) :
    (⟨k, values⟩ : Fields).aggregate.isSome = true ↔
      ∀ slot ∈ k.slots, (⟨k, values⟩ : Fields).Served slot.attr := by
  cases k
  all_goals first
    | exact absurd hk (by decide)
    | simp (disch := first | assumption | decide) only [↓isSome_aggregate, ↓isSome_bodyAggregate,
        ↓isSome_headAggregate, aggregate, Option.bind_eq_bind, Option.isSome_bind,
        Option.pure_def, Option.isSome_some, Option.any_const, Bool.and_eq_true, isSome_operator,
        isSome_member hv, isSome_node_iff hv, isSome_nodes_iff hv, Kind.slots,
        List.forall_mem_cons, served_of_holdsLeaf hv, List.not_mem_nil, false_imp_iff,
        implies_true, and_true, true_and]
  -- Both guards are read when the elements have been.
  case aggregate | bodyAggregate | headAggregate => exact and_left_comm

theorem isSome_theory_iff (hk : k ∈ theoryKinds) :
    (⟨k, values⟩ : Fields).theory.isSome = true ↔
      ∀ slot ∈ k.slots, (⟨k, values⟩ : Fields).Served slot.attr := by
  cases k
  all_goals first
    | exact absurd hk (by decide)
    | simp (disch := decide) only [↓isSome_theoryUnparsedTerm, ↓isSome_theoryAtom,
        ↓isSome_theoryAtomDefinition, theory, Option.bind_eq_bind, Option.isSome_bind,
        Option.pure_def, Option.isSome_some, Option.any_const, Bool.and_eq_true, isSome_text hv,
        isSome_texts hv, isSome_number, isSome_int hv, isSome_operator, isSome_member hv,
        isSome_node_iff hv, isSome_optionalText_iff hv, isSome_nodes_iff hv, Kind.slots,
        List.forall_mem_cons, served_of_holdsLeaf hv, List.not_mem_nil, false_imp_iff,
        implies_true, and_true, true_and]

theorem isSome_statement_iff (hk : k ∈ statementKinds) :
    (⟨k, values⟩ : Fields).statement.isSome = true ↔
      ∀ slot ∈ k.slots, (⟨k, values⟩ : Fields).Served slot.attr := by
  cases k
  all_goals first
    | exact absurd hk (by decide)
    | simp (disch := decide) only [statement, signature, Option.bind_eq_bind, Option.isSome_bind,
        Option.pure_def, Option.isSome_some, Option.any_const, Bool.and_eq_true, isSome_text hv,
        isSome_number, isSome_flagText, isSome_int hv, isSome_node_iff hv, isSome_nodes_iff hv,
        Kind.slots, List.forall_mem_cons, served_of_holdsLeaf hv, List.not_mem_nil, false_imp_iff,
        implies_true, and_true, true_and]
  -- The body comes first in the text and last in the schema.
  case minimize => tauto

end Groups

theorem term_eq_none (hk : k ∉ termKinds) : (⟨k, values⟩ : Fields).term = none := by
  cases k <;> first | rfl | exact absurd (by decide) hk

theorem literal_eq_none (hk : k ∉ literalKinds) : (⟨k, values⟩ : Fields).literal = none := by
  cases k <;> first | rfl | exact absurd (by decide) hk

theorem aggregate_eq_none (hk : k ∉ aggregateKinds) :
    (⟨k, values⟩ : Fields).aggregate = none := by
  cases k <;> first | rfl | exact absurd (by decide) hk

theorem theory_eq_none (hk : k ∉ theoryKinds) : (⟨k, values⟩ : Fields).theory = none := by
  cases k <;> first | rfl | exact absurd (by decide) hk

theorem statement_eq_none (hk : k ∉ statementKinds) :
    (⟨k, values⟩ : Fields).statement = none := by
  cases k <;> first | rfl | exact absurd (by decide) hk

/-- Every kind is in one of the groups. -/
theorem mem_groups (k : Kind) : k ∈ termKinds ∨ k ∈ literalKinds ∨ k ∈ aggregateKinds ∨
    k ∈ theoryKinds ∨ k ∈ statementKinds := by
  cases k <;> decide

theorem isSome_iff_mem_and {group : List Kind} {x : Option String} {p : Prop}
    (h : k ∈ group → (x.isSome = true ↔ p)) (hnone : k ∉ group → x = none) :
    x.isSome = true ↔ k ∈ group ∧ p := by
  by_cases hk : k ∈ group
  · rw [h hk, and_iff_right hk]
  · simp [hnone hk, hk]

/-- A node that follows the schema prints exactly if the answers for its children have what is
needed of them. -/
theorem isSome_code_iff (hv : k.Admits values) : (⟨k, values⟩ : Fields).code.isSome = true ↔
    ∀ slot ∈ k.slots, (⟨k, values⟩ : Fields).Served slot.attr := by
  simp only [code, Option.orElse_eq_orElse, Option.orElse_eq_or, Option.isSome_or, Bool.or_eq_true,
    isSome_iff_mem_and (isSome_term_iff hv) term_eq_none,
    isSome_iff_mem_and (isSome_literal_iff hv) literal_eq_none,
    isSome_iff_mem_and (isSome_aggregate_iff hv) aggregate_eq_none,
    isSome_iff_mem_and (isSome_theory_iff hv) theory_eq_none,
    isSome_iff_mem_and (isSome_statement_iff hv) statement_eq_none, ← or_and_right]
  exact and_iff_right (mem_groups k)

theorem value_eq_none {f : Fields} (h : f.kind.owns a = false) : f.value a = none := by
  rw [Kind.owns, Option.isSome_eq_false_iff, Option.isNone_iff_eq_none] at h
  rw [value, Kind.valueOf?, h]
  rfl

/-- Guards are the only kinds with a comparison and a term. -/
theorem lacks_of_not_guard (h : k ≠ .aggregateGuard) (h' : k ≠ .cspGuard) :
    k.owns .comparison = false ∨ k.owns .term = false := by
  revert h h'
  cases k <;> decide

/-- A node reads as a guard exactly if it is one and has a text. -/
theorem isSome_asGuard_iff (hv : k.Admits values) :
    (⟨k, values⟩ : Fields).asGuard.isSome = true ↔
      (k = .aggregateGuard ∨ k = .cspGuard) ∧ (⟨k, values⟩ : Fields).code.isSome = true := by
  rw [isSome_code_iff hv]
  by_cases hguard : k = .aggregateGuard ∨ k = .cspGuard
  · rw [and_iff_right hguard]
    rcases hguard with rfl | rfl
    all_goals
      simp (disch := decide) only [asGuard, Option.bind_eq_bind, Option.isSome_bind,
        Option.pure_def, Option.isSome_some, Option.any_const, Bool.and_eq_true, isSome_member hv,
        isSome_node_iff hv, Kind.slots, List.forall_mem_cons, served_of_holdsLeaf hv,
        List.not_mem_nil, false_imp_iff, implies_true, and_true, true_and]
  · rw [not_or] at hguard
    rcases lacks_of_not_guard hguard.1 hguard.2 with hlacks | hlacks
    · simp [asGuard, member, int, value_eq_none (f := ⟨k, values⟩) hlacks, hguard]
    · cases hmember : (⟨k, values⟩ : Fields).member Comparison .comparison <;>
        simp [asGuard, hmember, node, value_eq_none (f := ⟨k, values⟩) hlacks, hguard]

end Fields

/-! ## Trees -/

namespace Tree

variable {α : Type}

theorem render_node (l : α) (k : Kind) (vs : List (Value (Tree α))) :
    (node l k vs).render =
      { text := (⟨k, vs.map fun v => v.map render⟩ : Fields).code
        guard := (⟨k, vs.map fun v => v.map render⟩ : Fields).asGuard } :=
  fold_node _ l k vs

/-- The guard in a slot of an aggregate, unless the slot is empty. -/
def guard? (t : Tree α) (a : Attr) : Option (Tree α) :=
  match t.kind.valueOf? t.values a with
  | some (.optional guard) => guard
  | _ => none

/-- If the node is an aggregate, then the guards that it has are guards of aggregates or of
constraints over integers. -/
def Guarded (t : Tree α) : Prop :=
  t.kind ∈ [Kind.aggregate, .bodyAggregate, .headAggregate] →
    ∀ a ∈ [Attr.leftGuard, .rightGuard], ∀ guard ∈ t.guard? a,
      guard.kind ∈ [Kind.aggregateGuard, .cspGuard]

instance (t : Tree α) : Decidable t.Guarded :=
  inferInstanceAs (Decidable (_ → ∀ a ∈ _, ∀ guard ∈ t.guard? a, _))

theorem guard?_eq_some_iff {t : Tree α} {a : Attr} {guard : Tree α} :
    t.guard? a = some guard ↔ t.kind.valueOf? t.values a = some (.optional (some guard)) := by
  rw [guard?]
  split <;> simp_all

/-- A tree reads as a guard exactly if it is one and has a text. -/
theorem isSome_guard_render_iff {t : Tree α} (ht : t.Valid) : t.render.guard.isSome = true ↔
    t.kind ∈ [Kind.aggregateGuard, .cspGuard] ∧ t.render.text.isSome = true := by
  cases t with
  | node l k vs =>
      have hadmits : k.Admits (vs.map fun v => v.map render) :=
        Kind.admits_map_iff.2 (valid_node_iff.1 ht).1
      rw [render_node]
      simpa using Fields.isSome_asGuard_iff hadmits

/-- A child has what is needed of it exactly if it has a text and is a guard where one has to
be. -/
theorem serves_render_iff {a : Attr} {t : Tree α} (ht : t.Valid) :
    Fields.Serves a t.render ↔ t.render.text.isSome = true ∧
      (a.isGuard = true → t.kind ∈ [Kind.aggregateGuard, .cspGuard]) := by
  rw [Fields.Serves]
  split
  · rename_i ha
    rw [isSome_guard_render_iff ht, forall_prop_of_true ha, and_comm]
  · rename_i ha
    exact (and_iff_left fun h => absurd h ha).symm

theorem served_render_iff {k : Kind} {vs : List (Value (Tree α))} {a : Attr} :
    (⟨k, vs.map fun v => v.map render⟩ : Fields).Served a ↔
      ∀ v ∈ k.valueOf? vs a, ∀ c ∈ v.children, Fields.Serves a c.render := by
  rw [Fields.Served, Fields.value, Kind.valueOf?_map]
  cases k.valueOf? vs a with
  | none => simp
  | some v => simp [Value.children_map]

/-- Only aggregates have slots for guards, which may be empty. -/
theorem aggregate_of_isGuard {k : Kind} {slot : Slot} (hslot : slot ∈ k.slots)
    (h : slot.attr.isGuard = true) :
    k ∈ [Kind.aggregate, .bodyAggregate, .headAggregate] ∧ slot.shape = .optional := by
  revert slot
  cases k <;> decide

/-- Aggregates have a slot for every guard. -/
theorem exists_guard_slot {k : Kind} (hk : k ∈ [Kind.aggregate, .bodyAggregate, .headAggregate])
    {a : Attr} (ha : a ∈ [Attr.leftGuard, .rightGuard]) : ∃ slot ∈ k.slots, slot.attr = a := by
  revert a
  cases k <;> first | exact absurd hk (by decide) | decide

/-- The guards of an aggregate are the children in its slots for guards. -/
theorem guarded_node_iff {l : α} {k : Kind} {vs : List (Value (Tree α))} (hv : k.Admits vs) :
    (node l k vs).Guarded ↔ ∀ slot ∈ k.slots, ∀ v ∈ k.valueOf? vs slot.attr, ∀ c ∈ v.children,
      slot.attr.isGuard = true → c.kind ∈ [Kind.aggregateGuard, .cspGuard] := by
  constructor
  · intro hguarded slot hslot v hvalue c hc ha
    obtain ⟨hk, hshape⟩ := aggregate_of_isGuard hslot ha
    obtain ⟨w, hfound, hfits⟩ := hv.exists_valueOf? hslot
    obtain rfl : w = v := Option.some.inj (hfound.symm.trans hvalue)
    -- The slot may be empty, and it is not, so it holds just the child.
    obtain ⟨child, rfl⟩ : ∃ child, w = .optional child := by
      cases w <;> first | exact ⟨_, rfl⟩ | cases (Value.fits_iff.1 hfits).1.trans hshape
    obtain rfl : child = some c := by simpa [Value.children] using hc
    exact hguarded hk slot.attr (by simpa [Attr.isGuard] using ha) c
      (guard?_eq_some_iff.2 hvalue)
  · intro h hk a ha guard hguard
    obtain ⟨slot, hslot, rfl⟩ := exists_guard_slot hk ha
    refine h slot hslot _ (guard?_eq_some_iff.1 hguard) guard (by simp [Value.children]) ?_
    simpa [Attr.isGuard] using ha

/-- A node that follows the schema has a text exactly if its children have, and if it is no
aggregate with a guard that cannot be read. -/
theorem isSome_text_render_iff {t : Tree α} (ht : t.Valid) : t.render.text.isSome = true ↔
    (∀ c ∈ t.children, c.render.text.isSome = true) ∧ t.Guarded := by
  cases t with
  | node l k vs =>
      obtain ⟨hadmits, hvalid⟩ := valid_node_iff.1 ht
      rw [render_node, Fields.isSome_code_iff (Kind.admits_map_iff.2 hadmits),
        guarded_node_iff hadmits]
      simp only [served_render_iff]
      have hserves {a : Attr} {v : Value (Tree α)} (hv : v ∈ k.valueOf? vs a) {c : Tree α}
          (hc : c ∈ v.children) : Fields.Serves a c.render ↔ c.render.text.isSome = true ∧
            (a.isGuard = true → c.kind ∈ [Kind.aggregateGuard, .cspGuard]) :=
        serves_render_iff (hvalid v (Kind.mem_of_valueOf? hv) c hc)
      refine ⟨fun h => ⟨fun c hc => ?_, fun slot hslot v hv c hc => ?_⟩,
        fun h slot hslot v hv c hc => ?_⟩
      · obtain ⟨v, hv, hc⟩ := List.mem_flatMap.1 hc
        obtain ⟨slot, hslot, hfound⟩ := hadmits.exists_slot hv
        exact ((hserves hfound hc).1 (h slot hslot v hfound c hc)).1
      · exact ((hserves hv hc).1 (h slot hslot v hv c hc)).2
      · refine (hserves hv hc).2 ⟨h.1 c ?_, h.2 slot hslot v hv c hc⟩
        exact List.mem_flatMap.2 ⟨v, Kind.mem_of_valueOf? hv, hc⟩

/-- A tree that follows the schema has a text exactly if no aggregate in it has a guard that
cannot be read. -/
theorem isSome_code?_iff {t : Tree α} (ht : t.Valid) :
    t.code?.isSome = true ↔ ∀ w ∈ t.subtrees, w.Guarded := by
  induction t using induct with
  | step l k vs ih =>
      have hvalid := (valid_node_iff.1 ht).2
      rw [code?, isSome_text_render_iff ht, subtrees_node, List.forall_mem_append,
        List.forall_mem_singleton, List.forall_mem_flatMap]
      refine and_congr_left fun _ => forall₂_congr fun c hc => ?_
      obtain ⟨v, hv, hcv⟩ := List.mem_flatMap.1 hc
      exact ih v hv c hcv (hvalid v hv c hcv)

end Tree

/-- A node has a text exactly if all aggregates in its unfolding have guards that can be read.
There is no other reason to fail: at every node of the unfolding, and whatever the answers for
its children are, the text is found if the children have what is needed of them, and the node
reads as a guard if it is one and has a text. -/
theorem printing_fails_only_at_guards {s : Store} (hs : s.WellFormed) {id : NodeId} {n : Node}
    (hn : s.node? id = some n) :
    ∃ t, s.unfolding? id = some t ∧
      ((∃ text, s.code id = .ok text) ↔ ∀ w ∈ t.subtrees, w.Guarded) ∧
      (∀ e, s.code id = .error e → e = .failed (.invalidNode .unprintable)) ∧
      ∀ w ∈ t.subtrees, ∀ answers : List (Value Rendering),
        List.Forall₂ (Value.Rel fun _ _ => True) w.values answers →
          let f : Fields := ⟨w.kind, answers⟩
          (f.code.isSome = true ↔ ∀ slot ∈ w.kind.slots, f.Served slot.attr) ∧
          (f.asGuard.isSome = true ↔
            (w.kind = .aggregateGuard ∨ w.kind = .cspGuard) ∧ f.code.isSome = true) := by
  obtain ⟨t, ht⟩ := hs.exists_unfolding? hn
  have hvalid : t.Valid := hs.valid.unfolding? ht
  have hcode := Store.code_of_unfolding? ht
  rw [Tree.render_neutral] at hcode
  refine ⟨t, ht, ?_, fun e he => ?_, fun w hw answers hanswers => ?_⟩
  · rw [← Tree.isSome_code?_iff hvalid, Tree.code?, hcode]
    cases t.render.text <;> simp
  · rw [hcode] at he
    cases htext : t.render.text with
    | none => simpa [htext] using he.symm
    | some text => simp [htext] at he
  · cases w with
    | node l k vs =>
        have hadmits : k.Admits answers :=
          (Tree.valid_node_iff.1 (hvalid.of_mem_subtrees hw)).1.of_rel hanswers
        exact ⟨Fields.isSome_code_iff hadmits, Fields.isSome_asGuard_iff hadmits⟩

/-- A store with the literals `1 <= { }` and `{ }`, of which the first has a guard of
an aggregate and the second has the term `1` in place of one. -/
def Store.guardedLiterals : Store :=
  ⟨#[⟨.symbolicTerm, [.location .default, .symbol (.number 1)]⟩,
     ⟨.aggregateGuard, [.int 2, .node ⟨0⟩]⟩,
     ⟨.aggregate, [.location .default, .optional (some ⟨1⟩), .nodes [], .optional none]⟩,
     ⟨.literal, [.location .default, .int 0, .node ⟨2⟩]⟩,
     ⟨.aggregate, [.location .default, .optional (some ⟨0⟩), .nodes [], .optional none]⟩,
     ⟨.literal, [.location .default, .int 0, .node ⟨4⟩]⟩]⟩

theorem printing_fails_only_at_guards_guardedLiterals :
    Store.guardedLiterals.WellFormed ∧ (∃ text, Store.guardedLiterals.code ⟨3⟩ = .ok text) ∧
      Store.guardedLiterals.code ⟨5⟩ = .error (.failed (.invalidNode .unprintable)) := by
  have hs : Store.guardedLiterals.WellFormed := .of_inOrder (by decide)
  have hgood : Store.guardedLiterals.node? ⟨3⟩ = some _ := rfl
  have hbad : Store.guardedLiterals.node? ⟨5⟩ = some _ := rfl
  have hguarded : ∀ t ∈ Store.guardedLiterals.unfolding? ⟨3⟩, ∀ w ∈ t.subtrees, w.Guarded := by
    decide
  have hnotGuarded : ∀ t ∈ Store.guardedLiterals.unfolding? ⟨5⟩,
      ¬ ∀ w ∈ t.subtrees, w.Guarded := by
    decide
  obtain ⟨t, ht, hprints, -, -⟩ := printing_fails_only_at_guards hs hgood
  obtain ⟨u, hu, hfails, honly, -⟩ := printing_fails_only_at_guards hs hbad
  refine ⟨hs, hprints.2 (hguarded t ht), ?_⟩
  cases hcode : Store.guardedLiterals.code ⟨5⟩ with
  | ok text => exact absurd (hfails.1 ⟨text, hcode⟩) (hnotGuarded u hu)
  | error e => rw [honly e hcode]

end AnswerSet
