import AnswerSet.Program
import AnswerSet.Proofs.Symbol.Text
import AnswerSet.Proofs.Tree.Printable

/-!
# One statement per line

What a printer adds to the texts of a node are words, operators and separators, none of which
breaks a line. The texts that a node holds are written as they are, and so are the names of the
functions in its symbol, whereas the strings in a symbol are quoted. So the text of a node
stays on one line if no text and no name below it breaks the line.

Then a program has as many lines as statements, and every line is the text of one of them.
-/

namespace AnswerSet

/-- The text does not break the line. -/
def OneLine (s : String) : Prop := '\n' ∉ s.toList

instance (s : String) : Decidable (OneLine s) := inferInstanceAs (Decidable (_ ∉ _))

/-! ## Texts made of texts -/

section Texts

variable {s t separator : String} {items : List String}

theorem oneLine_append : OneLine (s ++ t) ↔ OneLine s ∧ OneLine t := by
  rw [OneLine, String.toList_append, List.mem_append, not_or]
  rfl

theorem oneLine_ite {c : Prop} [Decidable c] (hs : OneLine s) (ht : OneLine t) :
    OneLine (if c then s else t) := by
  split
  · exact hs
  · exact ht

theorem oneLine_joinWith (hseparator : OneLine separator) :
    OneLine (joinWith separator items) ↔ ∀ item ∈ items, OneLine item := by
  induction items with
  | nil => simp [OneLine]
  | cons item rest ih =>
      cases rest with
      | nil => simp
      | cons next rest =>
          rw [joinWith_cons_cons, oneLine_append, oneLine_append, and_iff_left hseparator, ih]
          exact List.forall_mem_cons.symm

/-- One text if there are no items, and otherwise one with all of them. -/
theorem oneLine_ite_isEmpty (hs : OneLine s) (ht : OneLine t ↔ ∀ item ∈ items, OneLine item) :
    OneLine (if items.isEmpty then s else t) ↔ ∀ item ∈ items, OneLine item := by
  cases items with
  | nil => exact iff_of_true hs (by simp)
  | cons item rest => exact ht

theorem oneLine_join_map {suffix : String} (hsuffix : OneLine suffix) :
    OneLine (String.join (items.map (· ++ suffix))) ↔ ∀ item ∈ items, OneLine item := by
  induction items with
  | nil => simp [OneLine]
  | cons item rest ih =>
      rw [List.map_cons, String.join_cons, oneLine_append, oneLine_append, and_iff_left hsuffix, ih,
        List.forall_mem_cons]

theorem oneLine_toString (n : Int) : OneLine (toString n) := by
  intro h
  replace h : '\n' ∈ (Json.Number.int n).text.toList := h
  rw [Json.toList_text_int, List.mem_append] at h
  rcases h with hsign | hdigit
  · cases Json.Numeral.eq_of_mem_signText hsign
  · cases Json.isDigit_of_mem_toDigits hdigit

end Texts

/-! ## Symbols -/

namespace Symbol

theorem oneLine_argumentText {name : String} {items : List String} :
    OneLine (argumentText name items) ↔ ∀ item ∈ items, OneLine item := by
  cases items with
  | nil =>
      refine iff_of_true ?_ (by simp)
      rw [argumentText]
      exact oneLine_ite (by decide) (by simp [OneLine])
  | cons item rest =>
      have hcomma : OneLine (if name.isEmpty && (item :: rest).length == 1 then "," else "") :=
        oneLine_ite (by decide) (by decide)
      have hcommas : OneLine (joinWith "," (item :: rest)) ↔ ∀ i ∈ item :: rest, OneLine i :=
        oneLine_joinWith (by decide)
      rw [argumentText, List.isEmpty_cons, Bool.false_and, if_neg Bool.false_ne_true,
        oneLine_append, oneLine_append, oneLine_append, hcommas, and_iff_left hcomma]
      exact (and_iff_left (by decide)).trans (and_iff_right (by decide))

/-- Strings are quoted, so a symbol can break the line at the names of its functions only. -/
theorem oneLine_text {a : Symbol} (h : ∀ name ∈ a.names, OneLine name) : OneLine a.text := by
  induction a using induct with
  | infimum => decide
  | supremum => decide
  | number n => exact oneLine_toString n.toInt
  | string s =>
      intro hbreak
      rw [toList_text_string, List.mem_cons, List.mem_append] at hbreak
      rcases hbreak with hquote | hbody | hquote
      · cases hquote
      · exact Quoted.newline_not_mem_escape s.toList hbody
      · cases List.mem_singleton.1 hquote
  | function name arguments positive ih =>
      obtain ⟨hname, harguments⟩ := forall_names_function.1 h
      rw [text, texts_eq_map, oneLine_append, oneLine_append, oneLine_argumentText,
        List.forall_mem_map]
      refine ⟨⟨oneLine_ite (by decide) (by decide), hname⟩, ?_⟩
      exact fun a ha => ih a ha (harguments a ha)

end Symbol

/-! ## Values and answers -/

/-- Whatever is given has the property. -/
def Gives {α : Type} (x : Option α) (p : α → Prop) : Prop := ∀ a ∈ x, p a

section Gives

variable {α β : Type} {x y : Option α} {g : α → Option β} {p q : α → Prop} {r : β → Prop}

theorem Gives.imp (h : Gives x p) (hpq : ∀ a, p a → q a) : Gives x q :=
  fun a ha => hpq a (h a ha)

theorem Gives.bind (h : Gives x p) (hg : ∀ a, p a → Gives (g a) r) : Gives (x >>= g) r := by
  intro b hb
  obtain ⟨a, ha, hb⟩ := Option.bind_eq_some_iff.1 hb
  exact hg a (h a ha) b hb

theorem Gives.orElse (hx : Gives x p) (hy : Gives y p) : Gives (x <|> y) p := by
  cases x with
  | none => exact hy
  | some a => exact hx

theorem gives_none : Gives none p := by
  intro a ha
  cases ha

theorem gives_pure {a : α} : Gives (pure a) p ↔ p a := by
  simp [Gives]

theorem gives_bind : Gives (x >>= g) r ↔ Gives x fun a => Gives (g a) r := by
  cases x <;> simp [Gives]

theorem gives_map {h : α → β} : Gives (h <$> x) r ↔ Gives x fun a => r (h a) := by
  cases x <;> simp [Gives]

theorem gives_and : Gives x (fun a => p a ∧ q a) ↔ Gives x p ∧ Gives x q := forall₂_and

theorem gives_imp {c : Prop} : Gives x (fun a => c → p a) ↔ (c → Gives x p) :=
  ⟨fun h hc a ha => h a ha hc, fun h a ha hc => h hc a ha⟩

theorem gives_const {c : Prop} : Gives x (fun _ => c) ↔ (x.isSome = true → c) := by
  cases x <;> simp [Gives]

theorem gives_mapM {as : List α} (h : ∀ a ∈ as, Gives (g a) r) :
    Gives (as.mapM g) fun bs => ∀ b ∈ bs, r b := by
  intro bs hbs
  have hanswers : List.Forall₂ (fun a b => g a = some b) as bs := mapM_eq_some_iff.1 hbs
  induction hanswers with
  | nil => simp
  | @cons a b as bs hb hbs' ih =>
      obtain ⟨hfirst, hrest⟩ := List.forall_mem_cons.1 h
      exact List.forall_mem_cons.2 ⟨hfirst b hb, ih hrest (mapM_eq_some_iff.2 hbs')⟩

end Gives

/-- No text of the value and no name in its symbol breaks the line. -/
def Value.Unbroken {ν : Type} : Value ν → Prop
  | .text s => OneLine s
  | .texts items => ∀ item ∈ items, OneLine item
  | .symbol a => ∀ name ∈ a.names, OneLine name
  | _ => True

instance {ν : Type} (v : Value ν) : Decidable v.Unbroken :=
  match v with
  | .text s => inferInstanceAs (Decidable (OneLine s))
  | .texts items => inferInstanceAs (Decidable (∀ item ∈ items, OneLine item))
  | .symbol a => inferInstanceAs (Decidable (∀ name ∈ a.names, OneLine name))
  | .int _ | .location _ | .node _ | .optional _ | .nodes _ => inferInstanceAs (Decidable True)

theorem Value.unbroken_map {ν μ : Type} {f : ν → μ} {v : Value ν} :
    (v.map f).Unbroken ↔ v.Unbroken := by
  cases v <;> rfl

/-- The node does not break the line, whether it is written as a whole or as a guard. -/
def Rendering.Unbroken (r : Rendering) : Prop :=
  Gives r.text OneLine ∧ Gives r.guard fun guard => OneLine guard.2

/-! ## Fields -/

namespace Fields

/-- Neither the values of the node nor its children break the line. -/
structure Unbroken (f : Fields) : Prop where
  values : ∀ v ∈ f.values, v.Unbroken
  children : ∀ v ∈ f.values, ∀ r ∈ v.children, r.Unbroken

theorem oneLine_comparison (op : Comparison) : OneLine (Enumerated.text op) := by
  cases op <;> decide

section Readers

variable {f : Fields} (hf : f.Unbroken) (a : Attr)

theorem gives_number : Gives (f.number a) OneLine := by
  rw [number, gives_bind]
  intro n _
  exact gives_pure.2 (oneLine_toString n.toInt)

theorem gives_flagText {shownFor : Bool} {s : String} (hs : OneLine s) :
    Gives (f.flagText a shownFor s) OneLine := by
  rw [flagText, gives_bind]
  intro b _
  exact gives_pure.2 (oneLine_ite hs (by decide))

theorem gives_operator {ε : Type} [Enumerated ε]
    (h : ∀ e ∈ (Enumerated.members : List ε), OneLine (Enumerated.text e)) :
    Gives (f.operator ε a) OneLine := by
  rw [operator, gives_bind]
  intro e _
  exact gives_pure.2 (h e (List.mem_of_getElem? (Enumerated.members_index e)))

include hf

theorem gives_value : Gives (f.value a) fun v => v.Unbroken ∧ ∀ r ∈ v.children, r.Unbroken := by
  intro v hv
  have hmem : v ∈ f.values := Kind.mem_of_valueOf? hv
  exact ⟨hf.values v hmem, hf.children v hmem⟩

theorem gives_text : Gives (f.text a) OneLine := by
  refine (gives_value hf a).bind fun v hv => ?_
  cases v with
  | text s => exact gives_pure.2 hv.1
  | _ => exact gives_none

theorem gives_texts : Gives (f.texts a) fun items => ∀ item ∈ items, OneLine item := by
  refine (gives_value hf a).bind fun v hv => ?_
  cases v with
  | texts items => exact gives_pure.2 hv.1
  | _ => exact gives_none

theorem gives_symbol : Gives (f.symbol a) fun symbol => OneLine symbol.text := by
  refine (gives_value hf a).bind fun v hv => ?_
  cases v with
  | symbol symbol => exact gives_pure.2 (Symbol.oneLine_text hv.1)
  | _ => exact gives_none

theorem gives_node : Gives (f.node a) OneLine := by
  refine (gives_value hf a).bind fun v hv => ?_
  cases v with
  | node child => exact (hv.2 child (by simp [Value.children])).1
  | _ => exact gives_none

theorem gives_optional : Gives (f.optional a) fun child => Gives child Rendering.Unbroken := by
  refine (gives_value hf a).bind fun v hv => ?_
  cases v with
  | optional child =>
      exact gives_pure.2 fun r hr => hv.2 r (by simpa [Value.children] using hr)
  | _ => exact gives_none

theorem gives_optionalText : Gives (f.optionalText a) fun text => Gives text OneLine := by
  refine (gives_optional hf a).bind fun child hchild => ?_
  cases child with
  | none => exact gives_pure.2 gives_none
  | some r =>
      show Gives (some <$> r.text) _
      exact gives_map.2 ((hchild r rfl).1.imp fun text htext => gives_pure.2 htext)

theorem gives_nodes : Gives (f.nodes a) fun items => ∀ item ∈ items, OneLine item := by
  refine (gives_value hf a).bind fun v hv => ?_
  cases v with
  | nodes children => exact gives_mapM fun r hr => (hv.2 r hr).1
  | _ => exact gives_none

/-- The part of an aggregate from its right guard on. -/
theorem gives_rightGuarded {before : String} (hbefore : OneLine before) : Gives (do
    let right ← match ← f.optional .rightGuard with
      | none => pure ""
      | some r => do
          let (op, term) ← r.guard
          pure (" " ++ Enumerated.text op ++ " " ++ term)
    return before ++ right) OneLine := by
  refine (gives_optional hf .rightGuard).bind fun right hright => ?_
  cases right with
  | none => exact gives_pure.2 (by simpa using hbefore)
  | some r =>
      refine (hright r rfl).2.bind fun guard hguard => gives_pure.2 ?_
      simp +decide [oneLine_append, hbefore, oneLine_comparison, hguard]

theorem gives_guarded {inner : String} (hinner : OneLine inner) :
    Gives (f.guarded inner) OneLine := by
  refine (gives_optional hf .leftGuard).bind fun left hleft => ?_
  cases left with
  | none => exact gives_rightGuarded hf (by simpa using hinner)
  | some r =>
      refine (hleft r rfl).2.bind fun guard hguard => gives_rightGuarded hf ?_
      simp +decide [oneLine_append, oneLine_comparison, hguard, hinner]

end Readers

/-! ## Parts of statements -/

section Parts

variable {items : List String}

theorem oneLine_introduced {intro separator : String} (hintro : OneLine intro)
    (hseparator : OneLine separator) :
    OneLine (introduced intro separator items) ↔ ∀ item ∈ items, OneLine item :=
  oneLine_ite_isEmpty (by decide) (by
    rw [oneLine_append, and_iff_right hintro, oneLine_joinWith hseparator])

theorem oneLine_enclosed {empty left separator right : String} (hempty : OneLine empty)
    (hleft : OneLine left) (hseparator : OneLine separator) (hright : OneLine right) :
    OneLine (if items.isEmpty then empty else left ++ joinWith separator items ++ right) ↔
      ∀ item ∈ items, OneLine item :=
  oneLine_ite_isEmpty hempty (by
    rw [oneLine_append, and_iff_left hright, oneLine_append, and_iff_right hleft,
      oneLine_joinWith hseparator])

theorem oneLine_elementsText : OneLine (elementsText items) ↔ ∀ item ∈ items, OneLine item :=
  oneLine_enclosed (by decide) (by decide) (by decide) (by decide)

theorem oneLine_parenthesized : OneLine (parenthesized items) ↔ ∀ item ∈ items, OneLine item :=
  oneLine_enclosed (by decide) (by decide) (by decide) (by decide)

theorem oneLine_delimiters (type : SequenceType) :
    OneLine type.delimiters.1 ∧ OneLine type.delimiters.2 := by
  cases type <;> decide

end Parts

/-! ## Kinds with several forms -/

section Forms

variable {values : List (Value Rendering)}

theorem gives_unaryOperation (hf : (⟨.unaryOperation, values⟩ : Fields).Unbroken) :
    Gives (⟨.unaryOperation, values⟩ : Fields).term OneLine := by
  refine (gives_node hf .argument).bind fun argument hargument => gives_bind.2 fun op _ => ?_
  cases op <;> exact gives_pure.2 (by simp +decide [oneLine_append, hargument])

theorem gives_cspProduct (hf : (⟨.cspProduct, values⟩ : Fields).Unbroken) :
    Gives (⟨.cspProduct, values⟩ : Fields).term OneLine := by
  refine (gives_node hf .coefficient).bind fun coefficient hcoefficient => ?_
  refine (gives_optionalText hf .var).bind fun var hvar => ?_
  cases var with
  | none => exact gives_pure.2 hcoefficient
  | some factor =>
      exact gives_pure.2 (by simp +decide [oneLine_append, hcoefficient, hvar factor rfl])

theorem gives_cspSum (hf : (⟨.cspSum, values⟩ : Fields).Unbroken) :
    Gives (⟨.cspSum, values⟩ : Fields).term OneLine := by
  refine (gives_nodes hf .terms).bind fun terms hterms => gives_pure.2 ?_
  exact (oneLine_ite_isEmpty (by decide) (oneLine_joinWith (by decide))).2 hterms

theorem gives_booleanConstant :
    Gives (⟨.booleanConstant, values⟩ : Fields).literal OneLine :=
  gives_bind.2 fun _ _ => gives_pure.2 (oneLine_ite (by decide) (by decide))

theorem gives_theorySequence (hf : (⟨.theorySequence, values⟩ : Fields).Unbroken) :
    Gives (⟨.theorySequence, values⟩ : Fields).theory OneLine := by
  refine gives_bind.2 fun type _ => (gives_nodes hf .terms).bind fun terms hterms => ?_
  have hjoined : OneLine (joinWith "," terms) := (oneLine_joinWith (by decide)).2 hterms
  have hcomma : OneLine (if type = .tuple && terms.length == 1 then "," else "") :=
    oneLine_ite (by decide) (by decide)
  refine gives_pure.2 ?_
  simp only [oneLine_append, oneLine_delimiters type, hjoined, hcomma, and_true]

theorem gives_theoryUnparsedTerm (hf : (⟨.theoryUnparsedTerm, values⟩ : Fields).Unbroken) :
    Gives (⟨.theoryUnparsedTerm, values⟩ : Fields).theory OneLine := by
  refine (gives_nodes hf .elements).bind fun elements helements => ?_
  have hjoined : OneLine (joinWith " " elements) := (oneLine_joinWith (by decide)).2 helements
  split
  · exact gives_pure.2 (helements _ (List.mem_singleton_self _))
  · exact gives_pure.2 (by simp +decide [oneLine_append, hjoined])

theorem gives_theoryAtom (hf : (⟨.theoryAtom, values⟩ : Fields).Unbroken) :
    Gives (⟨.theoryAtom, values⟩ : Fields).theory OneLine := by
  refine (gives_node hf .term).bind fun term hterm => ?_
  refine (gives_nodes hf .elements).bind fun elements helements => ?_
  have hatom : OneLine ("&" ++ term ++ " " ++ elementsText elements) := by
    simp +decide [oneLine_append, hterm, oneLine_elementsText.2 helements]
  refine (gives_optionalText hf .guard).bind fun guard hguard => ?_
  cases guard with
  | none => exact gives_pure.2 hatom
  | some guard => exact gives_pure.2 (by simp +decide [oneLine_append, hatom, hguard guard rfl])

theorem gives_theoryAtomDefinition (hf : (⟨.theoryAtomDefinition, values⟩ : Fields).Unbroken) :
    Gives (⟨.theoryAtomDefinition, values⟩ : Fields).theory OneLine := by
  refine (gives_text hf .name).bind fun name hname => ?_
  refine (gives_number .arity).bind fun arity harity => ?_
  refine (gives_text hf .term).bind fun term hterm => ?_
  have htype : ∀ type ∈ (Enumerated.members : List TheoryAtomType),
      OneLine (Enumerated.text type) := by decide
  refine (gives_optionalText hf .guard).bind fun guard hguard => ?_
  cases guard with
  | none =>
      refine (gives_operator .atomType htype).bind fun type htype => gives_pure.2 ?_
      simp +decide [oneLine_append, hname, harity, hterm, htype]
  | some guard =>
      refine (gives_operator .atomType htype).bind fun type htype => gives_pure.2 ?_
      simp +decide [oneLine_append, hname, harity, hterm, hguard guard rfl, htype]

end Forms

/-! ## All kinds -/

section Kinds

variable {k : Kind} {values : List (Value Rendering)} (hf : (⟨k, values⟩ : Fields).Unbroken)

include hf

-- Apart from the kinds with several forms, a printer reads some fields and joins what it has
-- read. The rules about `Gives` take this apart into one condition for each field that is read,
-- which its reader meets, and one for each separator, which is decided.

theorem gives_term : Gives (⟨k, values⟩ : Fields).term OneLine := by
  cases k
  case unaryOperation => exact gives_unaryOperation hf
  case cspProduct => exact gives_cspProduct hf
  case cspSum => exact gives_cspSum hf
  all_goals first
    | exact gives_none
    | simp +decide (disch := decide) only [term, gives_bind, gives_pure, gives_and, gives_imp,
        gives_const, oneLine_append, oneLine_joinWith, Symbol.oneLine_argumentText, gives_text hf,
        gives_symbol hf, gives_node hf, gives_nodes hf, gives_operator, gives_flagText,
        implies_true, and_true, true_and]

theorem gives_literal : Gives (⟨k, values⟩ : Fields).literal OneLine := by
  cases k
  case booleanConstant => exact gives_booleanConstant
  all_goals first
    | exact gives_none
    | simp +decide (disch := decide) only [literal, gives_bind, gives_pure, gives_and, gives_imp,
        gives_const, oneLine_append, oneLine_joinWith, conditionText, oneLine_introduced,
        oneLine_elementsText, gives_node hf, gives_nodes hf, gives_operator, implies_true,
        and_true, true_and]

theorem gives_aggregate : Gives (⟨k, values⟩ : Fields).aggregate OneLine := by
  cases k
  case aggregate =>
    refine (gives_nodes hf .elements).bind fun elements helements => ?_
    exact gives_guarded hf (oneLine_elementsText.2 helements)
  case bodyAggregate | headAggregate =>
    refine (gives_operator .function (by decide)).bind fun function hfunction => ?_
    refine (gives_nodes hf .elements).bind fun elements helements => gives_guarded hf ?_
    simp +decide [oneLine_append, hfunction, oneLine_elementsText.2 helements]
  all_goals first
    | exact gives_none
    | simp +decide (disch := decide) only [aggregate, gives_bind, gives_pure, gives_and, gives_imp,
        gives_const, oneLine_append, oneLine_joinWith, conditionText, oneLine_introduced,
        gives_node hf, gives_nodes hf, gives_operator, implies_true, and_true]

theorem gives_theory : Gives (⟨k, values⟩ : Fields).theory OneLine := by
  cases k
  case theorySequence => exact gives_theorySequence hf
  case theoryUnparsedTerm => exact gives_theoryUnparsedTerm hf
  case theoryAtom => exact gives_theoryAtom hf
  case theoryAtomDefinition => exact gives_theoryAtomDefinition hf
  all_goals first
    | exact gives_none
    | simp +decide (disch := decide) only [theory, gives_bind, gives_pure, gives_and, gives_imp,
        gives_const, oneLine_append, oneLine_joinWith, oneLine_join_map, conditionText,
        oneLine_introduced, oneLine_elementsText, oneLine_parenthesized, gives_text hf,
        gives_texts hf, gives_number, gives_node hf, gives_nodes hf, gives_operator, implies_true,
        and_true, true_and]

theorem gives_statement : Gives (⟨k, values⟩ : Fields).statement OneLine := by
  cases k
  all_goals first
    | exact gives_none
    | simp +decide (disch := decide) only [statement, signature, gives_bind, gives_pure, gives_and,
        gives_imp, gives_const, oneLine_append, bodyText, oneLine_introduced, oneLine_elementsText,
        oneLine_parenthesized, List.forall_mem_append, gives_text hf, gives_number,
        gives_node hf, gives_nodes hf, gives_flagText, implies_true, and_true, true_and]

theorem gives_code : Gives (⟨k, values⟩ : Fields).code OneLine :=
  (gives_term hf).orElse <| (gives_literal hf).orElse <| (gives_aggregate hf).orElse <|
    (gives_theory hf).orElse (gives_statement hf)

theorem gives_asGuard :
    Gives (⟨k, values⟩ : Fields).asGuard fun guard => OneLine guard.2 := by
  refine gives_bind.2 fun comparison _ => (gives_node hf .term).bind fun term hterm => ?_
  exact gives_pure.2 hterm

end Kinds

end Fields

/-! ## Trees -/

/-- No text in a slot and no name in a symbol breaks the line, at any node of the tree. -/
def Tree.Unbroken {α : Type} (t : Tree α) : Prop := ∀ w ∈ t.subtrees, ∀ v ∈ w.values, v.Unbroken

instance {α : Type} (t : Tree α) : Decidable t.Unbroken :=
  inferInstanceAs (Decidable (∀ w ∈ t.subtrees, ∀ v ∈ w.values, v.Unbroken))

/-- A tree does not break the line, neither as a text nor as a guard, because its children do
not. -/
theorem Tree.Unbroken.render {α : Type} {t : Tree α} (ht : t.Unbroken) : t.render.Unbroken := by
  induction t using Tree.induct with
  | step l k vs ih =>
      have hf : (⟨k, vs.map fun v => v.map Tree.render⟩ : Fields).Unbroken := by
        refine ⟨List.forall_mem_map.2 fun v hv => ?_, List.forall_mem_map.2 fun v hv => ?_⟩
        · exact Value.unbroken_map.2 (ht _ (Tree.self_mem_subtrees _) v hv)
        · rw [Value.children_map, List.forall_mem_map]
          exact fun c hc => ih v hv c hc fun w hw => ht w (Tree.mem_subtrees_of_child hv hc hw)
      rw [Tree.render_node]
      exact ⟨Fields.gives_code hf, Fields.gives_asGuard hf⟩

/-! ## Programs -/

theorem joinWith_eq_intercalate (separator : String) (items : List String) :
    joinWith separator items = separator.intercalate items := by
  induction items with
  | nil => rfl
  | cons item rest ih =>
      cases rest with
      | nil => simp
      | cons next rest => rw [joinWith_cons_cons, String.intercalate_cons_cons, ih]

/-- Between neighbours there is one line break. -/
theorem count_newline_joinWith {line : String} {rest : List String} (hline : OneLine line)
    (hrest : ∀ next ∈ rest, OneLine next) :
    (joinWith "\n" (line :: rest)).toList.count '\n' = rest.length := by
  rw [toList_joinWith_cons, List.count_append, List.count_eq_zero_of_not_mem hline, zero_add]
  induction rest with
  | nil => rfl
  | cons next rest ih =>
      obtain ⟨hnext, hrest⟩ := List.forall_mem_cons.1 hrest
      rw [List.flatMap_cons, List.count_append, ih hrest, List.count_append,
        List.count_eq_zero_of_not_mem hnext, List.length_cons]
      exact Nat.add_comm 1 rest.length

/-- The lines of a program are its statements. -/
theorem split_joinWith_newline {lines : List String} (hlines : lines ≠ [])
    (h : ∀ line ∈ lines, OneLine line) :
    ((joinWith "\n" lines).split '\n').toList.map String.Slice.copy = lines := by
  have hsplit := String.toList_split_intercalate h
  rwa [if_neg hlines, ← joinWith_eq_intercalate] at hsplit

namespace Store

/-- The node has the text, and no text in a slot and no name in a symbol breaks the line anywhere
in its unfolding. A node with a text has an unfolding. -/
structure PrintsUnbroken (s : Store) (id : NodeId) (text : String) : Prop where
  code : s.code id = .ok text
  unbroken : ∀ t ∈ s.unfolding? id, t.Unbroken

theorem PrintsUnbroken.oneLine {s : Store} {id : NodeId} {text : String}
    (h : s.PrintsUnbroken id text) : OneLine text := by
  obtain ⟨t, ht, hcode⟩ := bind_eq_ok_iff.1 h.code
  have hrender : t.render.Unbroken := (h.unbroken t (unfold_eq_ok_iff.1 ht)).render
  cases htext : t.code? with
  | none => simp [htext] at hcode
  | some u =>
      obtain rfl : u = text := by simpa [htext, pure, Except.pure] using hcode
      exact hrender.1 u htext

end Store

/-- A node prints on one line if no text and no name below it breaks the line; what the strings in
symbols and the file names in locations hold does not matter. So a program of such statements
prints, and its lines are the texts of the statements in order. -/
theorem statements_stay_on_lines {s : Store} :
    (∀ id text, s.PrintsUnbroken id text → OneLine text) ∧
      ∀ statements texts, statements ≠ [] → List.Forall₂ s.PrintsUnbroken statements texts →
        ∃ program, s.programText statements = .ok program ∧
          program.toList.count '\n' = statements.length - 1 ∧
          (program.split '\n').toList.map String.Slice.copy = texts := by
  refine ⟨fun id text h => h.oneLine, fun statements texts hne hprints => ?_⟩
  have htexts : ∀ text ∈ texts, OneLine text :=
    ((List.forall₂_and_left _ _).1 (hprints.flip.imp fun text id h => ⟨h.oneLine, h⟩)).1
  have hcodes : statements.mapM s.code = .ok texts :=
    mapM_eq_ok_iff.2 (hprints.imp fun id text h => h.code)
  cases hprints with
  | nil => exact absurd rfl hne
  | @cons id line ids rest _ hrest =>
      refine ⟨joinWith "\n" (line :: rest), ?_, ?_, ?_⟩
      · rw [Store.programText, hcodes]
        rfl
      · obtain ⟨hfirst, hothers⟩ := List.forall_mem_cons.1 htexts
        rw [count_newline_joinWith hfirst hothers, List.length_cons, Nat.add_sub_cancel,
          hrest.length_eq]
      · exact split_joinWith_newline (List.cons_ne_nil line rest) htexts

/-- A store with the statements `#show "a\nb".` and `#program base.`, which are located in a file
with a line break in its name. -/
def Store.brokenFile : Store :=
  let location : Value NodeId := .location (.span "broken\nfile" 1 1 9)
  ⟨#[⟨.symbolicTerm, [location, .symbol (.string "a\nb")]⟩,
     ⟨.showTerm, [location, .node ⟨0⟩, .nodes [], .int 0]⟩,
     ⟨.program, [location, .text "base", .nodes []]⟩]⟩

theorem statements_stay_on_lines_brokenFile :
    ∃ program, Store.brokenFile.programText [⟨1⟩, ⟨2⟩] = .ok program ∧
      program.toList.count '\n' = 1 ∧
      (program.split '\n').toList.map String.Slice.copy =
        ["#show \"a\\nb\".", "#program base."] := by
  have hshow : Store.brokenFile.PrintsUnbroken ⟨1⟩ "#show \"a\\nb\"." := ⟨rfl, by decide⟩
  have hprogram : Store.brokenFile.PrintsUnbroken ⟨2⟩ "#program base." := ⟨rfl, by decide⟩
  exact statements_stay_on_lines.2 [⟨1⟩, ⟨2⟩] _ (by decide)
    (.cons hshow (.cons hprogram .nil))

end AnswerSet
