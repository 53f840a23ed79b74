import AnswerSet.Value
import Mathlib.Data.List.Forall2

/-!
# Values related child by child

A relation between children extends to values: both values have the same shape and
agree on everything but their children, and the children are related one by one in
order. Running an action over the children of a value, or replacing them by a
function, relates the value to the result in this way, so statements about stores
and trees need one relation on values and no case split over their shapes.
-/

namespace AnswerSet

/-- An action that may give no answer succeeds on a list exactly when it succeeds on
every member. -/
theorem mapM_eq_some_iff {α β : Type} {f : α → Option β} {as : List α} {bs : List β} :
    as.mapM f = some bs ↔ List.Forall₂ (fun a b => f a = some b) as bs := by
  induction as generalizing bs with
  | nil => simp [eq_comm]
  | cons a as ih =>
      simp only [List.mapM_cons, List.forall₂_cons_left_iff, ← ih]
      constructor
      · intro h
        obtain ⟨b, hb, h⟩ := Option.bind_eq_some_iff.1 h
        obtain ⟨rest, hrest, h⟩ := Option.bind_eq_some_iff.1 h
        exact ⟨b, rest, hb, hrest, (Option.some.inj h).symm⟩
      · rintro ⟨b, rest, hb, hrest, rfl⟩
        simp [hb, hrest]

/-- An action that only answers does so over a list. -/
theorem mapM_eq_pure {m : Type → Type} [Monad m] [LawfulMonad m] {α β : Type} {f : α → m β}
    {g : α → β} {as : List α} (h : ∀ a ∈ as, f a = pure (g a)) : as.mapM f = pure (as.map g) := by
  induction as with
  | nil => rfl
  | cons a as ih =>
      rw [List.mapM_cons, h a List.mem_cons_self, pure_bind,
        ih fun a' ha' => h a' (List.mem_cons_of_mem a ha'), pure_bind, List.map_cons]

theorem bind_eq_ok_iff {ε α β : Type} {x : Except ε α} {f : α → Except ε β} {b : β} :
    x >>= f = .ok b ↔ ∃ a, x = .ok a ∧ f a = .ok b := by
  cases x <;> simp [bind, Except.bind]

/-- The same for an action that fails with an error. -/
theorem mapM_eq_ok_iff {ε α β : Type} {f : α → Except ε β} {as : List α} {bs : List β} :
    as.mapM f = .ok bs ↔ List.Forall₂ (fun a b => f a = .ok b) as bs := by
  induction as generalizing bs with
  | nil => simp [pure, Except.pure, eq_comm]
  | cons a as ih =>
      simp only [List.mapM_cons, List.forall₂_cons_left_iff, ← ih, bind_eq_ok_iff]
      constructor
      · rintro ⟨b, hb, rest, hrest, h⟩
        cases h
        exact ⟨b, rest, hb, hrest, rfl⟩
      · rintro ⟨b, rest, hb, hrest, rfl⟩
        exact ⟨b, hb, rest, hrest, rfl⟩

/-- Members that all have a partner have partners in order. -/
theorem exists_forall₂ {α β : Type} {R : α → β → Prop} {as : List α}
    (h : ∀ a ∈ as, ∃ b, R a b) : ∃ bs, List.Forall₂ R as bs := by
  induction as with
  | nil => exact ⟨[], .nil⟩
  | cons a as ih =>
      obtain ⟨b, hb⟩ := h a List.mem_cons_self
      obtain ⟨bs, hbs⟩ := ih fun a' ha' => h a' (List.mem_cons_of_mem a ha')
      exact ⟨b :: bs, .cons hb hbs⟩

theorem exists_of_forall₂_left {α β : Type} {R : α → β → Prop} {as : List α} {bs : List β}
    (h : List.Forall₂ R as bs) {a : α} (ha : a ∈ as) : ∃ b ∈ bs, R a b := by
  obtain ⟨i, hi, rfl⟩ := List.getElem_of_mem ha
  have hi' : i < bs.length := h.length_eq ▸ hi
  exact ⟨bs[i], List.getElem_mem hi', h.get hi hi'⟩

/-- Lists whose partners are partners. -/
theorem forall₂_join {α β γ δ : Type} {R : α → γ → Prop} {S : β → δ → Prop} {T : γ → δ → Prop}
    {as : List α} {bs : List β} {cs : List γ} {ds : List δ} (hR : List.Forall₂ R as cs)
    (hS : List.Forall₂ S bs ds) (hT : List.Forall₂ T cs ds) :
    List.Forall₂ (fun a b => ∃ c d, R a c ∧ S b d ∧ T c d) as bs := by
  induction hT generalizing as bs with
  | nil =>
      cases hR
      cases hS
      exact .nil
  | @cons c d cs ds hcd _ ih =>
      cases hR with
      | cons hac hR =>
          cases hS with
          | cons hbd hS => exact .cons ⟨c, d, hac, hbd, hcd⟩ (ih hR hS)

theorem forall₂_set {α β : Type} {R : α → β → Prop} {as : List α} {bs : List β}
    (h : List.Forall₂ R as bs) {a : α} {b : β} (hab : R a b) (i : Nat) :
    List.Forall₂ R (as.set i a) (bs.set i b) := by
  induction h generalizing i with
  | nil => exact .nil
  | cons hfirst hrest ih =>
      cases i with
      | zero => exact .cons hab hrest
      | succ i => exact .cons hfirst (ih i)

namespace Value

variable {ν μ ξ : Type} {R S : ν → μ → Prop}

/-- The values agree up to their children, and their children are related. -/
inductive Rel (R : ν → μ → Prop) : Value ν → Value μ → Prop where
  | int (n : Int32) : Rel R (.int n) (.int n)
  | symbol (s : Symbol) : Rel R (.symbol s) (.symbol s)
  | location (l : Location) : Rel R (.location l) (.location l)
  | text (s : String) : Rel R (.text s) (.text s)
  | node {a : ν} {b : μ} (h : R a b) : Rel R (.node a) (.node b)
  | absent : Rel R (.optional none) (.optional none)
  | present {a : ν} {b : μ} (h : R a b) : Rel R (.optional (some a)) (.optional (some b))
  | texts (items : List String) : Rel R (.texts items) (.texts items)
  | nodes {as : List ν} {bs : List μ} (h : List.Forall₂ R as bs) : Rel R (.nodes as) (.nodes bs)

namespace Rel

theorem shape_eq {v : Value ν} {w : Value μ} (h : Rel R v w) : v.shape = w.shape := by
  cases h <;> rfl

theorem fits_eq {v : Value ν} {w : Value μ} (h : Rel R v w) (slot : Slot) :
    v.fits slot = w.fits slot := by
  cases h <;> rfl

theorem children {v : Value ν} {w : Value μ} (h : Rel R v w) :
    List.Forall₂ R v.children w.children := by
  cases h with
  | node h => exact .cons h .nil
  | present h => exact .cons h .nil
  | nodes h => exact h
  | _ => exact .nil

/-- It is enough to know the new relation for the children at hand. -/
theorem imp_mem {v : Value ν} {w : Value μ} (h : Rel R v w)
    (himp : ∀ a ∈ v.children, ∀ b ∈ w.children, R a b → S a b) : Rel S v w := by
  cases h with
  | int n => exact .int n
  | symbol s => exact .symbol s
  | location l => exact .location l
  | text s => exact .text s
  | node h => exact .node (himp _ (by simp [Value.children]) _ (by simp [Value.children]) h)
  | absent => exact .absent
  | present h => exact .present (himp _ (by simp [Value.children]) _ (by simp [Value.children]) h)
  | texts items => exact .texts items
  | nodes h =>
      refine .nodes ?_
      have hpairs := List.forall₂_iff_zip.1 h
      refine List.forall₂_iff_zip.2 ⟨hpairs.1, fun hmem => ?_⟩
      exact himp _ (List.of_mem_zip hmem).1 _ (List.of_mem_zip hmem).2 (hpairs.2 hmem)

theorem congr_mem {v : Value ν} {w : Value μ}
    (h : ∀ a ∈ v.children, ∀ b ∈ w.children, R a b ↔ S a b) : Rel R v w ↔ Rel S v w :=
  ⟨fun hrel => hrel.imp_mem fun a ha b hb => (h a ha b hb).1,
    fun hrel => hrel.imp_mem fun a ha b hb => (h a ha b hb).2⟩

theorem imp {v : Value ν} {w : Value μ} (h : Rel R v w) (himp : ∀ a b, R a b → S a b) :
    Rel S v w :=
  h.imp_mem fun a _ b _ => himp a b

end Rel

@[simp] theorem rel_int_iff {m n : Int32} : Rel R (.int m) (.int n) ↔ m = n :=
  ⟨fun h => (by cases h; rfl), fun h => h ▸ .int m⟩

@[simp] theorem rel_symbol_iff {a b : Symbol} : Rel R (.symbol a) (.symbol b) ↔ a = b :=
  ⟨fun h => (by cases h; rfl), fun h => h ▸ .symbol a⟩

@[simp] theorem rel_location_iff {k l : Location} : Rel R (.location k) (.location l) ↔ k = l :=
  ⟨fun h => (by cases h; rfl), fun h => h ▸ .location k⟩

@[simp] theorem rel_text_iff {a b : String} : Rel R (.text a) (.text b) ↔ a = b :=
  ⟨fun h => (by cases h; rfl), fun h => h ▸ .text a⟩

@[simp] theorem rel_node_iff {a : ν} {b : μ} : Rel R (.node a) (.node b) ↔ R a b :=
  ⟨fun h => (by cases h; assumption), .node⟩

@[simp] theorem rel_optional_iff {a : Option ν} {b : Option μ} :
    Rel R (.optional a) (.optional b) ↔ Option.Rel R a b := by
  constructor
  · rintro (_ | h)
    · exact .none
    · exact .some ‹_›
  · rintro (h | _)
    · exact .present h
    · exact .absent

@[simp] theorem rel_texts_iff {as bs : List String} : Rel R (.texts as) (.texts bs) ↔ as = bs :=
  ⟨fun h => (by cases h; rfl), fun h => h ▸ .texts as⟩

@[simp] theorem rel_nodes_iff {as : List ν} {bs : List μ} :
    Rel R (.nodes as) (.nodes bs) ↔ List.Forall₂ R as bs :=
  ⟨fun h => (by cases h; assumption), .nodes⟩

theorem rel_map_left_iff {f : ξ → ν} {v : Value ξ} {w : Value μ} :
    Rel R (v.map f) w ↔ Rel (fun a b => R (f a) b) v w := by
  constructor
  · intro h
    cases v with
    | optional child =>
        cases child with
        | none => cases h with | absent => exact .absent
        | some a => cases h with | present h => exact .present h
    | node a => cases h with | node h => exact .node h
    | nodes as => cases h with | nodes h => exact .nodes (List.forall₂_map_left_iff.1 h)
    | _ => cases h; constructor
  · intro h
    cases h with
    | node h => exact .node h
    | present h => exact .present h
    | nodes h => exact .nodes (List.forall₂_map_left_iff.2 h)
    | _ => constructor

theorem Rel.flip {v : Value ν} {w : Value μ} (h : Rel R v w) : Rel (fun b a => R a b) w v := by
  cases h with
  | node h => exact .node h
  | present h => exact .present h
  | nodes h => exact .nodes (List.Forall₂.flip h)
  | _ => constructor

theorem rel_map_right_iff {f : ξ → μ} {v : Value ν} {w : Value ξ} :
    Rel R v (w.map f) ↔ Rel (fun a b => R a (f b)) v w :=
  ⟨fun h => (rel_map_left_iff.1 h.flip).flip, fun h => (rel_map_left_iff.2 h.flip).flip⟩

theorem rel_eq_iff {v w : Value ν} : Rel (fun a b => a = b) v w ↔ v = w := by
  constructor
  · intro h
    cases h with
    | node h => rw [h]
    | present h => rw [h]
    | nodes h => rw [List.forall₂_eq_eq_eq] at h; rw [h]
    | _ => rfl
  · rintro rfl
    cases v with
    | node a => exact .node rfl
    | optional child =>
        cases child with
        | none => exact .absent
        | some a => exact .present rfl
    | nodes as => exact .nodes (List.forall₂_same.2 fun _ _ => rfl)
    | _ => constructor

theorem map_eq_iff {f : ν → ξ} {g : μ → ξ} {v : Value ν} {w : Value μ} :
    v.map f = w.map g ↔ Rel (fun a b => f a = g b) v w := by
  rw [← rel_eq_iff, rel_map_left_iff, rel_map_right_iff]

theorem map_congr {f g : ν → μ} {v : Value ν} (h : ∀ a ∈ v.children, f a = g a) :
    v.map f = v.map g :=
  map_eq_iff.2 ((rel_eq_iff.2 rfl).imp_mem fun a ha _ _ hab => hab ▸ h a ha)

theorem map_inj_left {f g : ν → μ} {v : Value ν} :
    v.map f = v.map g ↔ ∀ a ∈ v.children, f a = g a := by
  refine ⟨fun h => List.map_inj_left.1 ?_, map_congr⟩
  rw [← children_map, ← children_map, h]

theorem map_id (v : Value ν) : v.map id = v := by
  rw [← rel_eq_iff, rel_map_left_iff]
  exact rel_eq_iff.2 rfl

theorem mapM_map {m : Type → Type} [Monad m] [LawfulMonad m] (f : ν → μ) (g : μ → m ξ)
    (v : Value ν) : (v.map f).mapM g = v.mapM fun a => g (f a) := by
  cases v with
  | optional child => cases child <;> rfl
  | nodes children => simp [map, mapM, List.mapM_map, Function.comp_def]
  | _ => rfl

/-- An action that may give no answer succeeds on a value exactly when it succeeds on
every child. -/
theorem mapM_eq_some_iff {f : ν → Option μ} {v : Value ν} {w : Value μ} :
    v.mapM f = some w ↔ Rel (fun a b => f a = some b) v w := by
  constructor
  · intro h
    cases v with
    | node a =>
        obtain ⟨b, hb, h⟩ := Option.bind_eq_some_iff.1 h
        cases h
        exact .node hb
    | optional child =>
        cases child with
        | none => cases h; exact .absent
        | some a =>
            obtain ⟨b, hb, h⟩ := Option.bind_eq_some_iff.1 h
            cases h
            exact .present hb
    | nodes as =>
        obtain ⟨bs, hbs, h⟩ := Option.bind_eq_some_iff.1 h
        cases h
        exact .nodes (AnswerSet.mapM_eq_some_iff.1 hbs)
    | _ => cases h; constructor
  · intro h
    cases h with
    | node h => simp [mapM, h]
    | present h => simp [mapM, h]
    | nodes h => simp [mapM, AnswerSet.mapM_eq_some_iff.2 h]
    | _ => rfl

/-- Values are related to what a function makes of their children. -/
theorem forall₂_rel_map {f : ν → μ} {vs : List (Value ν)}
    (h : ∀ v ∈ vs, ∀ a ∈ v.children, R a (f a)) :
    List.Forall₂ (Rel R) vs (vs.map fun v => v.map f) := by
  refine List.forall₂_map_right_iff.2 (List.forall₂_same.2 fun v hv => ?_)
  refine rel_map_right_iff.2 ((rel_eq_iff.2 rfl).imp_mem fun a ha b _ hab => ?_)
  exact hab ▸ h v hv a ha

/-- Two functions give the same values exactly if they agree on the children. -/
theorem map_eq_map_iff {f : ν → ξ} {g : μ → ξ} {vs : List (Value ν)} {ws : List (Value μ)} :
    (vs.map fun v => v.map f) = (ws.map fun w => w.map g) ↔
      List.Forall₂ (Rel fun a b => f a = g b) vs ws := by
  rw [← List.forall₂_eq_eq_eq, List.forall₂_map_left_iff, List.forall₂_map_right_iff]
  simp only [map_eq_iff]

/-- Values are what a function makes of others exactly if their children are. -/
theorem eq_map_iff {f : μ → ν} {vs : List (Value ν)} {ws : List (Value μ)} :
    vs = (ws.map fun w => w.map f) ↔ List.Forall₂ (Rel fun a b => a = f b) vs ws := by
  rw [← List.forall₂_eq_eq_eq, List.forall₂_map_right_iff]
  simp only [← rel_eq_iff, rel_map_right_iff]

theorem exists_rel {v : Value ν} (h : ∀ a ∈ v.children, ∃ b, R a b) : ∃ w, Rel R v w := by
  cases v with
  | int n => exact ⟨_, .int n⟩
  | symbol s => exact ⟨_, .symbol s⟩
  | location l => exact ⟨_, .location l⟩
  | text s => exact ⟨_, .text s⟩
  | node a => exact (h a (by simp [children])).elim fun b hb => ⟨_, .node hb⟩
  | optional child =>
      cases child with
      | none => exact ⟨_, .absent⟩
      | some a => exact (h a (by simp [children])).elim fun b hb => ⟨_, .present hb⟩
  | texts items => exact ⟨_, .texts items⟩
  | nodes as => exact (exists_forall₂ h).elim fun bs hbs => ⟨_, .nodes hbs⟩

/-- Values whose children all have a partner have partners in order. -/
theorem exists_forall₂_rel {vs : List (Value ν)}
    (h : ∀ v ∈ vs, ∀ a ∈ v.children, ∃ b, R a b) : ∃ ws, List.Forall₂ (Rel R) vs ws :=
  exists_forall₂ fun v hv => exists_rel (h v hv)

/-- Every child on the left has a partner among the children on the right. -/
theorem exists_child_of_rel {vs : List (Value ν)} {ws : List (Value μ)}
    (h : List.Forall₂ (Rel R) vs ws) {v : Value ν} (hv : v ∈ vs) {a : ν}
    (ha : a ∈ v.children) : ∃ w ∈ ws, ∃ b ∈ w.children, R a b := by
  obtain ⟨w, hw, hvw⟩ := exists_of_forall₂_left h hv
  obtain ⟨b, hb, hab⟩ := exists_of_forall₂_left hvw.children ha
  exact ⟨w, hw, b, hb, hab⟩

/-- Every child on the right has a partner among the children on the left. -/
theorem exists_child_of_rel_right {vs : List (Value ν)} {ws : List (Value μ)}
    (h : List.Forall₂ (Rel R) vs ws) {w : Value μ} (hw : w ∈ ws) {b : μ}
    (hb : b ∈ w.children) : ∃ v ∈ vs, ∃ a ∈ v.children, R a b :=
  exists_child_of_rel (List.Forall₂.flip (h.imp fun _ _ hvw => hvw.flip)) hw hb

/-- It is enough to know the new relation for the children at hand. -/
theorem forall₂_rel_imp_mem {vs : List (Value ν)} {ws : List (Value μ)}
    (h : List.Forall₂ (Rel R) vs ws)
    (himp : ∀ v ∈ vs, ∀ a ∈ v.children, ∀ w ∈ ws, ∀ b ∈ w.children, R a b → S a b) :
    List.Forall₂ (Rel S) vs ws := by
  have hpairs := List.forall₂_iff_zip.1 h
  refine List.forall₂_iff_zip.2 ⟨hpairs.1, fun hmem => ?_⟩
  obtain ⟨hv, hw⟩ := List.of_mem_zip hmem
  exact (hpairs.2 hmem).imp_mem fun a ha b hb => himp _ hv a ha _ hw b hb

theorem forall₂_rel_congr {vs : List (Value ν)} {ws : List (Value μ)}
    (h : ∀ v ∈ vs, ∀ a ∈ v.children, ∀ w ∈ ws, ∀ b ∈ w.children, R a b ↔ S a b) :
    List.Forall₂ (Rel R) vs ws ↔ List.Forall₂ (Rel S) vs ws :=
  ⟨fun hrel => forall₂_rel_imp_mem hrel fun v hv a ha w hw b hb => (h v hv a ha w hw b hb).1,
    fun hrel => forall₂_rel_imp_mem hrel fun v hv a ha w hw b hb => (h v hv a ha w hw b hb).2⟩

/-- A relation that determines its right side does so for values. -/
theorem rel_right_unique (hR : ∀ a b b', R a b → R a b' → b = b') {vs : List (Value ν)}
    {ws ws' : List (Value μ)} (h : List.Forall₂ (Rel R) vs ws)
    (h' : List.Forall₂ (Rel R) vs ws') : ws = ws' := by
  have hlists : Relator.RightUnique (List.Forall₂ R) :=
    Relator.RightUnique.forall₂ fun {a b b'} => hR a b b'
  refine List.right_unique_forall₂' (fun {v w w'} hvw hvw' => ?_) h h'
  cases hvw with
  | node hab => cases hvw' with | node hab' => rw [hR _ _ _ hab hab']
  | present hab => cases hvw' with | present hab' => rw [hR _ _ _ hab hab']
  | nodes hab => cases hvw' with | nodes hab' => rw [hlists hab hab']
  | _ => cases hvw'; rfl

end Value

end AnswerSet
