import AnswerSet.Proofs.Json.Reader
import AnswerSet.Proofs.Json.RoundTrip
import AnswerSet.Proofs.Store.Growth
import AnswerSet.Store.Text

/-!
# Reading nodes from the text that was written for them

The JSON form of a tree holds integers of 32 and 64 bits and no floating point number,
and its objects are sorted, so text holds it exactly. A node is therefore read back from
its text unless its form nests too deep for the reader, and then it is refused: no text
that was written is read as another node. Nodes beyond the limit are easily made, since
each level of a term is a level of its form.
-/

namespace AnswerSet

/-! ## Forms that text holds exactly -/

namespace Json

theorem exact_object {fields : List (String × Json)} (h : ∀ field ∈ fields, Exact field.2) :
    Exact (.object fields) :=
  .obj (pairwise_sortFields fields) fun field hfield => h field (mem_of_mem_sortFields hfield)

theorem exact_int32 (n : Int32) : Exact (.ofInt n.toInt) := by
  have hlow := n.le_toInt
  have hhigh := n.toInt_lt
  exact .int (by omega) (by omega)

theorem exact_uint64 (n : UInt64) : Exact (.ofInt n.toNat) := by
  have hhigh := n.toNat_lt
  exact .int (by omega) (by omega)

end Json

open Json (Exact)

mutual

theorem Symbol.exact_toJson : (a : Symbol) → Exact a.toJson
  | .infimum => .str _
  | .supremum => .str _
  | .number n => by
      rw [toJson]
      exact Json.exact_object (List.forall_mem_singleton.2 (Json.exact_int32 n))
  | .string s => by
      rw [toJson]
      exact Json.exact_object (List.forall_mem_singleton.2 (.str s))
  | .function name arguments positive => by
      rw [toJson]
      refine Json.exact_object (List.forall_mem_singleton.2 (Json.exact_object ?_))
      simp only [List.forall_mem_cons]
      exact ⟨.str name, .arr (Symbol.exact_toJsons arguments), .bool positive,
        List.forall_mem_nil _⟩

theorem Symbol.exact_toJsons : (as : List Symbol) → ∀ v ∈ toJsons as, Exact v
  | [] => by simp [toJsons]
  | a :: as => by
      rw [toJsons]
      exact List.forall_mem_cons.2 ⟨Symbol.exact_toJson a, Symbol.exact_toJsons as⟩

end

theorem Position.exact_toJson (p : Position) : Exact p.toJson := by
  apply Json.exact_object
  simp only [List.forall_mem_cons]
  exact ⟨.str _, Json.exact_uint64 _, Json.exact_uint64 _, List.forall_mem_nil _⟩

theorem Location.exact_toJson (l : Location) : Exact l.toJson := by
  apply Json.exact_object
  simp only [List.forall_mem_cons]
  exact ⟨l.first.exact_toJson, l.last.exact_toJson, List.forall_mem_nil _⟩

theorem Value.exact_toJson {v : Value Json} (h : ∀ child ∈ v.children, Exact child) :
    Exact v.toJson := by
  cases v with
  | int n => exact Json.exact_int32 n
  | symbol a => exact a.exact_toJson
  | location l => exact l.exact_toJson
  | text s => exact .str s
  | node child => exact h child (by simp [children])
  | optional child =>
      cases child with
      | none => exact .null
      | some child => exact h child (by simp [children])
  | texts items =>
      apply Exact.arr
      intro v hv
      obtain ⟨s, -, rfl⟩ := List.mem_map.1 hv
      exact .str s
  | nodes children => exact .arr h

/-- Text holds the JSON form of every tree exactly. -/
theorem Tree.exact_toJson {α : Type} (t : Tree α) : Exact t.toJson := by
  induction t using induct with
  | step l k vs ih =>
      rw [toJson_node]
      refine Json.exact_object (List.forall_mem_cons.2 ⟨.str k.name, ?_⟩)
      intro field hfield
      obtain ⟨⟨a, w⟩, haw, rfl⟩ := List.mem_map.1 hfield
      obtain ⟨v, hv, rfl⟩ := List.mem_map.1 (List.of_mem_zip haw).2
      apply Value.exact_toJson
      intro child hchild
      rw [Value.children_map] at hchild
      obtain ⟨t, ht, rfl⟩ := List.mem_map.1 hchild
      exact ih v hv t ht

/-! ## Trees -/

namespace Tree

/-- A valid tree is read back from its text, up to its labels, or nests too deep for that. -/
theorem ofText_toText {α : Type} {t : Tree α} (ht : t.Valid) :
    ofText t.toText =
      if t.toJson.depth ≤ 127 then .ok t.plain
      else .error (.invalidArgument (.malformedJson .tooDeep)) := by
  rw [ofText, toText, t.exact_toJson.parse_text, Json.standardLimit]
  by_cases hdepth : t.toJson.depth ≤ 127
  · rw [if_pos hdepth, if_pos hdepth]
    exact ofJson_toJson ht
  · rw [if_neg hdepth, if_neg hdepth]

/-- The term `1` under a number of minus signs. -/
def minusTerm : Nat → Tree Unit
  | 0 => .node () .symbolicTerm [.location .default, .symbol (.number 1)]
  | n + 1 => .node () .unaryOperation [.location .default, .int 0, .node (minusTerm n)]

theorem valid_minusTerm (n : Nat) : (minusTerm n).Valid := by
  induction n with
  | zero => exact valid_node_iff.2 ⟨Kind.check_eq_ok_iff.1 rfl, by simp [Value.children]⟩
  | succ n ih =>
      exact valid_node_iff.2 ⟨Kind.check_eq_ok_iff.1 rfl, by simpa [Value.children] using ih⟩

theorem depth_minusTerm (n : Nat) : (minusTerm n).toJson.depth = n + 3 := by
  induction n with
  | zero => rfl
  | succ n ih =>
      have hform : (minusTerm (n + 1)).toJson =
          .obj [("argument", (minusTerm n).toJson), ("location", Location.default.toJson),
            ("operator_type", .ofInt 0), ("type", .str "UnaryOperation")] := by
        rw [minusTerm, toJson_node]
        rfl
      have hlocation : Location.default.toJson.depth = 2 := rfl
      have hscalars : Json.depthOfFields
          [("operator_type", .ofInt 0), ("type", .str "UnaryOperation")] = 0 := rfl
      rw [hform, Json.depth, Json.depthOfFields, Json.depthOfFields, hlocation, hscalars, ih]
      omega

end Tree

/-! ## Nodes -/

namespace Store

variable {s : Store} {id : NodeId} {t : Tree NodeId}

theorem toText_of_unfolding? (h : s.unfolding? id = some t) : s.toText id = .ok t.toText := by
  rw [toText, unfold_eq_ok_iff.2 h]
  rfl

end Store

/-- The text of a node of a well-formed store is read back as a copy with the same
unfolding, locations included, and the same text, as long as arrays and objects nest at
most 127 deep in the JSON form of the node. If they nest deeper, the text is refused. -/
theorem text_round_trip_ends_at_limit {s : Store} (hs : s.WellFormed) {id : NodeId} {n : Node}
    (hn : s.node? id = some n) :
    ∃ v, s.toJson id = .ok v ∧ s.toText id = .ok v.text ∧
      (v.depth ≤ 127 → ∃ copy s' t u, s.ofText v.text = .ok (copy, s') ∧
        s.unfolding? id = some t ∧ s'.unfolding? copy = some u ∧ u.plain = t.plain ∧
        s'.toText copy = .ok v.text ∧ s.Extends s') ∧
      (127 < v.depth →
        s.ofText v.text = .error (.invalidArgument (.malformedJson .tooDeep))) := by
  obtain ⟨t, ht⟩ := hs.exists_unfolding? hn
  have hread := Tree.ofText_toText (hs.valid.unfolding? ht)
  refine ⟨t.toJson, Store.toJson_of_unfolding? ht, Store.toText_of_unfolding? ht, ?_, ?_⟩
  · intro hdepth
    rw [if_pos hdepth] at hread
    have hplanted : s.ofText t.toText = .ok (t.plain.plant.run s) := by
      rw [Store.ofText_eq, hread]
      rfl
    obtain ⟨u, hu, hplain, -, hextends⟩ := t.plain.plant_unfolds s
    rw [Tree.plain_plain] at hplain
    generalize t.plain.plant.run s = planted at hplanted hu hextends
    obtain ⟨copy, s'⟩ := planted
    refine ⟨copy, s', t, u, hplanted, ht, hu, hplain, ?_, hextends⟩
    rw [Store.toText_of_unfolding? hu, Tree.toText, Tree.toJson_eq_of_plain_eq hplain]
  · intro hdepth
    rw [if_neg (by omega)] at hread
    change s.ofText t.toText = _
    rw [Store.ofText_eq, hread]
    rfl

/-- A term that shares a child is read back. A term under 125 minus signs is refused: with one
sign less, it would be at the limit. -/
theorem text_round_trip_ends_at_limit_sharedTerm :
    (Store.sharedTerm.WellFormed ∧
      ∃ v copy s' t u, Store.sharedTerm.toJson ⟨1⟩ = .ok v ∧
        Store.sharedTerm.toText ⟨1⟩ = .ok v.text ∧ v.depth ≤ 127 ∧
        Store.sharedTerm.ofText v.text = .ok (copy, s') ∧
        Store.sharedTerm.unfolding? ⟨1⟩ = some t ∧ s'.unfolding? copy = some u ∧
        u.plain = t.plain ∧ s'.toText copy = .ok v.text ∧ Store.sharedTerm.Extends s') ∧
      ∃ id s v, (Tree.minusTerm 125).plant.run .empty = (id, s) ∧ s.WellFormed ∧
        s.toJson id = .ok v ∧ s.toText id = .ok v.text ∧ v.depth = 128 ∧
        s.ofText v.text = .error (.invalidArgument (.malformedJson .tooDeep)) := by
  constructor
  · have hs : Store.sharedTerm.WellFormed := .of_inOrder (by decide)
    obtain ⟨n, hn⟩ : ∃ n, Store.sharedTerm.node? ⟨1⟩ = some n := ⟨_, rfl⟩
    obtain ⟨v, hv, htext, hwithin, -⟩ := text_round_trip_ends_at_limit hs hn
    have hdepth : v.depth ≤ 127 := by
      have hfive : (Store.sharedTerm.toJson ⟨1⟩).toOption.map Json.depth = some 5 := by
        decide +kernel
      rw [hv] at hfive
      rw [Option.some.inj hfive]
      decide
    obtain ⟨copy, s', t, u, hread⟩ := hwithin hdepth
    exact ⟨hs, v, copy, s', t, u, hv, htext, hdepth, hread⟩
  · have hempty : Store.empty.WellFormed := .of_inOrder (by decide)
    obtain ⟨hgrows, hheld⟩ := Tree.growth_plant (Tree.valid_minusTerm 125) .empty .empty (.refl _)
    obtain ⟨t, ht, hplain, -, -⟩ := (Tree.minusTerm 125).plant_unfolds .empty
    generalize (Tree.minusTerm 125).plant.run .empty = planted at hgrows hheld ht
    obtain ⟨id, s⟩ := planted
    have hs : s.WellFormed := hgrows.wellFormed hempty
    obtain ⟨n, hn⟩ := Option.isSome_iff_exists.1 (hheld s (.refl s))
    obtain ⟨v, hv, htext, -, hbeyond⟩ := text_round_trip_ends_at_limit hs hn
    have hdepth : v.depth = 128 := by
      rw [Store.toJson_of_unfolding? ht, Tree.toJson_eq_of_plain_eq hplain, Except.ok.injEq] at hv
      rw [← hv, Tree.depth_minusTerm]
    exact ⟨id, s, v, rfl, hs, hv, htext, hdepth, hbeyond (by omega)⟩

end AnswerSet
