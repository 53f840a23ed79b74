import AnswerSet.Proofs.Store.Order
import AnswerSet.Proofs.Store.Unchecked
import AnswerSet.Proofs.Transform.Account
import AnswerSet.Proofs.Visit

/-!
# Top-down transformation

A top-down transformation asks its action about nodes, from the root of an unfolding on,
and enters those for which the action gives no replacement. A run is described by a tree of
verdicts: it has the shape of the unfolding, and the occurrences that the action was asked
about carry its answers. These are the occurrences that a visitor sees which enters the
nodes without replacement, in the same order.

The tree that the result stands for is the unfolding with the trees of the replacements
grafted upon the topmost occurrences that have one. The node itself is the result exactly
if all these replacements are the instances they replace.
-/

namespace AnswerSet

variable {σ ε : Type}

/-! ## Verdicts -/

/-- What the action of a top-down transformation answered about an occurrence. -/
structure Verdict where
  occurrence : NodeId
  replacement : Option NodeId

/-- The action with a record of its verdicts beside the state of the caller. -/
def recording (g : NodeId → EditM σ ε (Option NodeId)) (x : NodeId) :
    EditM (σ × List Verdict) ε (Option NodeId) :=
  ExceptT.mk fun (state, record) s =>
    match (g x).exec state s with
    | some (.ok replacement, state', s') =>
        some ((.ok replacement, state', record ++ [⟨x, replacement⟩]), s')
    | some (.error e, state', s') => some ((.error e, state', record), s')
    | none => none

/-- On the instances of the base the action always comes back with an answer, it adds instances
at most, and
the answer is a replacement exactly where it should be one. Replacements have unfoldings. -/
def Replaces (base : Store) (g : NodeId → EditM σ ε (Option NodeId)) (defined : NodeId → Bool) :
    Prop :=
  ∀ x state s, base.Holds x → base.Extends s →
    ∃ replacement q, (g x).exec state s = some (.ok replacement, q) ∧ s.Extends q.2 ∧
      replacement.isSome = defined x ∧ ∀ y ∈ replacement, q.2.Grounded y

namespace Tree

/-- The verdicts of a run in order: parents before their children, and none below an
occurrence that is replaced. -/
def asked (u : Tree Verdict) : List Verdict := u.reached fun c => c.replacement.isNone

/-- The tree with others in place of the topmost occurrences that are replaced. -/
def graft (R : NodeId → Tree Unit) : Tree Verdict → Tree Unit :=
  fold fun c k vs =>
    match c.replacement with
    | some y => R y
    | none => .node () k vs

theorem asked_node (c : Verdict) (k : Kind) (ws : List (Value (Tree Verdict))) :
    (node c k ws).asked =
      c :: if c.replacement.isNone then (ws.flatMap Value.children).flatMap asked else [] :=
  reached_node _ c k ws

theorem graft_node (R : NodeId → Tree Unit) (c : Verdict) (k : Kind)
    (ws : List (Value (Tree Verdict))) :
    (node c k ws).graft R =
      match c.replacement with
      | some y => R y
      | none => .node () k (ws.map fun w => w.map (graft R)) :=
  fold_node _ c k ws

/-- A tree in which nothing has been asked yet. -/
def unasked (t : Tree NodeId) : Tree Verdict := t.map fun x => ⟨x, none⟩

theorem map_occurrence_unasked (t : Tree NodeId) : t.unasked.map Verdict.occurrence = t := by
  induction t using induct with
  | step l k vs ih =>
      rw [unasked, map_node, map_node, List.map_map]
      congr 1
      refine (List.map_congr_left fun v hv => ?_).trans (List.map_id vs)
      rw [Function.comp_apply, Value.map_map]
      exact (Value.map_congr fun t ht => ih v hv t ht).trans (Value.map_id v)

end Tree

/-! ## Runs with and without a record -/

/-- From the first pair of states to the second the action answers, adding instances at
most. The recording action answers the same and appends the verdicts to its record. -/
def Recorded {β : Type} (action : EditM σ ε β) (recorded : EditM (σ × List Verdict) ε β)
    (verdicts : List Verdict) (answer : β) (p q : σ × Store) : Prop :=
  action.exec p.1 p.2 = some (.ok answer, q) ∧ p.2.Extends q.2 ∧
    ∀ record, recorded.exec (p.1, record) p.2 = some (.ok answer, (q.1, record ++ verdicts), q.2)

/-- The account of a transformation by its verdicts. -/
def asking : Account (EditM σ ε) (EditM (σ × List Verdict) ε) Verdict σ where
  Does := Recorded
  does_pure b p := by
    refine ⟨rfl, .refl p.2, fun record => ?_⟩
    rw [List.append_nil]
    rfl
  does_bind {_ _ x x' f f' _ _ _ _ _ _ _} hx hf := by
    obtain ⟨hrun, hextends, hrecorded⟩ := hx
    obtain ⟨hrun', hextends', hrecorded'⟩ := hf
    refine ⟨?_, hextends.trans hextends', fun record => ?_⟩
    · rw [EditM.exec_bind, hrun]
      exact hrun'
    · rw [EditM.exec_bind, hrecorded, ← List.append_assoc]
      exact hrecorded' _
  store_extends h := h.2.1

/-- Transforming the children of a node that is part of an unfolding is transforming them in
turn, with and without a record. -/
theorem Recorded.of_node? {f : NodeId → EditM σ ε NodeId}
    {f' : NodeId → EditM (σ × List Verdict) ε NodeId} {id answer : NodeId} {k : Kind}
    {vs : List (Value (Tree NodeId))} {verdicts : List Verdict} {p q : σ × Store}
    (h : Recorded
      (vs.mapM (Value.mapM fun t => f t.label) >>= rebuild id k (vs.map fun v => v.map Tree.label))
      (vs.mapM (Value.mapM fun t => f' t.label) >>= rebuild id k (vs.map fun v => v.map Tree.label))
      verdicts answer p q)
    (hn : p.2.node? id = some ⟨k, vs.map fun v => v.map Tree.label⟩) :
    Recorded (transformChildren f id) (transformChildren f' id) verdicts answer p q := by
  obtain ⟨hrun, hextends, hrecorded⟩ := h
  refine ⟨?_, hextends, fun record => ?_⟩
  · rw [exec_transformChildren_of_node? hn, hrun]
  · rw [exec_transformChildren_of_node? hn, hrecorded]

section Runs

variable {base : Store} {g : NodeId → EditM σ ε (Option NodeId)} {defined : NodeId → Bool}

/-- Asking about one instance. -/
theorem Replaces.exists_recorded (hg : Replaces base g defined) {x : NodeId} (hx : base.Holds x)
    (p : σ × Store) (hp : base.Extends p.2) :
    ∃ replacement q, Recorded (g x) (recording g x) [⟨x, replacement⟩] replacement p q ∧
      replacement.isSome = defined x ∧ ∀ y ∈ replacement, q.2.Grounded y := by
  obtain ⟨replacement, q, hrun, hextends, hdefined, hgrounded⟩ := hg x p.1 p.2 hx hp
  refine ⟨replacement, q, ⟨hrun, hextends, fun record => ?_⟩, hdefined, hgrounded⟩
  have hrecord : recording g x (p.1, record) p.2 =
      some ((.ok replacement, q.1, record ++ [⟨x, replacement⟩]), q.2) := by
    simp only [recording, ExceptT.mk, hrun]
  rw [EditM.exec_eq, hrecord]
  rfl

/-- The node that `rebuild` answers with has the new values, and it is the old one exactly
if these are the old values. -/
theorem exists_recorded_rebuild {id : NodeId} {k : Kind} {before : List (Value NodeId)}
    (p : σ × Store) (hn : p.2.node? id = some ⟨k, before⟩) (after : List (Value NodeId)) :
    ∃ answer q, Recorded (ε := ε) (rebuild id k before after) (rebuild id k before after) []
        answer p q ∧
      q.2.node? answer = some ⟨k, after⟩ ∧ (answer = id ↔ after = before) := by
  by_cases h : after = before
  · refine ⟨id, p, ?_, h ▸ hn, iff_of_true rfl h⟩
    rw [rebuild, rebuild, if_pos h, if_pos h]
    exact asking.does_pure id p
  · let n : Node := ⟨k, after⟩
    refine ⟨((Store.alloc n).run p.2).1, (p.1, ((Store.alloc n).run p.2).2), ⟨?_, .alloc p.2 n, ?_⟩,
      Store.node?_alloc_self p.2 n, iff_of_false (fun hid => ?_) h⟩
    · rw [rebuild, if_neg h]
      rfl
    · intro record
      rw [rebuild, if_neg h, List.append_nil]
      rfl
    · have hlt := Store.index_lt_of_node? hn
      rw [← hid] at hlt
      exact Nat.lt_irrefl _ hlt

/-! ## Trees of verdicts -/

/-- What is known about the verdicts of a run and about its answer, in the store at the end
of the run and in later ones. -/
structure Decides (defined : NodeId → Bool) (s : Store) (u : Tree Verdict) (answer : NodeId) :
    Prop where
  decided : ∀ c ∈ u.asked, c.replacement.isSome = defined c.occurrence
  grounded : ∀ c ∈ u.asked, ∀ y ∈ c.replacement, s.Grounded y
  kept : answer = u.label.occurrence ↔ ∀ c ∈ u.asked, ∀ y ∈ c.replacement, y = c.occurrence
  grafted : ∀ R s', s.Extends s' →
    (∀ c ∈ u.asked, ∀ y ∈ c.replacement, s'.Denotes y (R y)) → s'.Denotes answer (u.graft R)

theorem Decides.of_extends {s s' : Store} {u : Tree Verdict} {answer : NodeId}
    (h : Decides defined s u answer) (hs : s.Extends s') : Decides defined s' u answer where
  decided := h.decided
  grounded c hc y hy := hs.grounded (h.grounded c hc y hy)
  kept := h.kept
  grafted R s'' hs'' := h.grafted R s'' (hs.trans hs'')

theorem Decides.of_replaced {s : Store} {id y : NodeId} {k : Kind}
    {ws : List (Value (Tree Verdict))} (hid : defined id = true) (hy : s.Grounded y) :
    Decides defined s (.node ⟨id, some y⟩ k ws) y := by
  have hasked : (Tree.node ⟨id, some y⟩ k ws).asked = [⟨id, some y⟩] := Tree.asked_node _ k ws
  refine ⟨?_, ?_, ?_, fun R s' _ hR => ?_⟩
  · simpa [hasked] using hid.symm
  · simpa [hasked] using hy
  · simp [hasked]
  · simpa [Tree.graft_node, hasked] using hR

/-- A node without replacement is asked about before its children. -/
theorem Tree.asked_unreplaced (id : NodeId) (k : Kind)
    (ws : List (Value (Tree Verdict × NodeId))) :
    (Tree.node ⟨id, none⟩ k (ws.map fun w => w.map Prod.fst)).asked =
      ⟨id, none⟩ :: (ws.flatMap Value.children).flatMap fun c => c.1.asked := by
  rw [asked_node, Option.isNone_none, if_pos rfl, List.flatMap_map]
  simp only [Value.children_map, ← List.map_flatMap, List.flatMap_map]

theorem Tree.forall_asked_unreplaced_iff {id : NodeId} {k : Kind}
    {ws : List (Value (Tree Verdict × NodeId))} {P : Verdict → Prop} :
    (∀ c ∈ (Tree.node ⟨id, none⟩ k (ws.map fun w => w.map Prod.fst)).asked, P c) ↔
      P ⟨id, none⟩ ∧ ∀ w ∈ ws, ∀ u ∈ w.children, ∀ c ∈ u.1.asked, P c := by
  simp only [asked_unreplaced, List.forall_mem_cons, List.mem_flatMap]
  refine and_congr_right fun _ => ⟨fun h w hw u hu c hc => h c ⟨u, ⟨w, hw, hu⟩, hc⟩, ?_⟩
  rintro h c ⟨u, ⟨w, hw, hu⟩, hc⟩
  exact h w hw u hu c hc

/-- A node whose children are done. -/
theorem Decides.of_children {s : Store} {id answer : NodeId} {k : Kind}
    {ws : List (Value (Tree Verdict × NodeId))} (hid : defined id = false)
    (hws : ∀ w ∈ ws, ∀ c ∈ w.children, Decides defined s c.1 c.2)
    (hn : s.node? answer = some ⟨k, ws.map fun w => w.map Prod.snd⟩)
    (hanswer : answer = id ↔
      (ws.map fun w => w.map Prod.snd) = ws.map fun w => w.map fun c => c.1.label.occurrence) :
    Decides defined s (.node ⟨id, none⟩ k (ws.map fun w => w.map Prod.fst)) answer := by
  refine ⟨?_, ?_, ?_, fun R s' hs' hR => ?_⟩
  · exact Tree.forall_asked_unreplaced_iff.2 ⟨hid.symm, fun w hw u hu => (hws w hw u hu).decided⟩
  · exact Tree.forall_asked_unreplaced_iff.2
      ⟨by simp, fun w hw u hu => (hws w hw u hu).grounded⟩
  · rw [Tree.forall_asked_unreplaced_iff, Tree.label_node, hanswer]
    simp only [List.map_inj_left, Value.map_inj_left]
    constructor
    · intro h
      exact ⟨by simp, fun w hw u hu => (hws w hw u hu).kept.1 (h w hw u hu)⟩
    · rintro ⟨-, h⟩ w hw u hu
      exact (hws w hw u hu).kept.2 (h w hw u hu)
  · rw [Tree.forall_asked_unreplaced_iff] at hR
    rw [Tree.graft_node, List.map_map]
    refine Store.denotes_node_iff.2 ⟨_, hs' hn, rfl, ?_⟩
    simp only [Function.comp_def, Value.map_map, List.forall₂_map_left_iff, Value.rel_map_left_iff]
    exact Value.forall₂_rel_map fun w hw c hc =>
      (hws w hw c hc).grafted R s' hs' (hR.2 w hw c hc)

namespace Tree

/-- A top-down transformation makes its verdicts from the root on. -/
theorem exists_verdicts (hg : Replaces base g defined) (t : Tree NodeId) (ht : base.Unfolds t)
    (p : σ × Store) (hp : base.Extends p.2) :
    ∃ (c : Tree Verdict × NodeId) (q : σ × Store),
      Recorded (transformTopDown g t.label) (transformTopDown (recording g) t.label) c.1.asked c.2
        p q ∧
        c.1.map Verdict.occurrence = t ∧ Decides defined q.2 c.1 c.2 := by
  induction t using induct generalizing p with
  | step id k vs ih =>
      have hn : base.node? id = some ⟨k, vs.map fun v => v.map label⟩ := ht.node?
      have hheld : base.Holds id := Option.isSome_of_eq_some hn
      obtain ⟨replacement, q, hask, hdefined, hgrounded⟩ := hg.exists_recorded hheld p hp
      rw [label_node, transformTopDown_eq, transformTopDown_eq]
      cases replacement with
      | some y =>
          refine ⟨(.node ⟨id, some y⟩ k (vs.map fun v => v.map unasked), y), q, ?_, ?_, ?_⟩
          · exact asking.does_bind hask (asking.does_pure y q)
          · rw [map_node, ← map_occurrence_unasked (.node id k vs), unasked, map_node, map_node]
            rfl
          · exact .of_replaced hdefined.symm (hgrounded y rfl)
      | none =>
          have hq : base.Extends q.2 := hp.trans hask.2.1
          have hchild : ∀ v ∈ vs, ∀ t ∈ v.children, ∀ p : σ × Store, q.2.Extends p.2 →
              ∃ (c : Tree Verdict × NodeId) (r : σ × Store),
                Recorded (transformTopDown g t.label) (transformTopDown (recording g) t.label)
                  c.1.asked c.2 p r ∧
                c.1.map Verdict.occurrence = t ∧ Decides defined r.2 c.1 c.2 :=
            fun v hv t htv p hp => ih v hv t htv (ht.child v hv t htv) p (hq.trans hp)
          obtain ⟨ws, r, hws, hrel⟩ := asking.exists_valuesMapM
            (R := fun (r : σ × Store) t (c : Tree Verdict × NodeId) =>
              c.1.map Verdict.occurrence = t ∧ Decides defined r.2 c.1 c.2)
            (fun _ _ _ _ hle h => ⟨h.1, h.2.of_extends hle⟩) hchild q (.refl q.2)
          have hbefore : (vs.map fun v => v.map label) =
              ws.map fun w => w.map fun c => c.1.label.occurrence := by
            refine Value.map_eq_map_iff.2 (hrel.imp fun v w hvw => hvw.imp fun t c htc => ?_)
            rw [← htc.1, label_map]
          have hshape : vs = ws.map fun w => w.map fun c => c.1.map Verdict.occurrence :=
            Value.eq_map_iff.2 (hrel.imp fun v w hvw => hvw.imp fun t c htc => htc.1.symm)
          obtain ⟨answer, r', hrebuild, hanswer, hiff⟩ := exists_recorded_rebuild (ε := ε) r
            (hq.trans hws.2.1 hn) (ws.map fun w => w.map Prod.snd)
          refine ⟨(.node ⟨id, none⟩ k (ws.map fun w => w.map Prod.fst), answer), r', ?_, ?_, ?_⟩
          · rw [asked_unreplaced, ← List.append_nil (List.flatMap _ _)]
            exact asking.does_bind hask ((asking.does_bind hws hrebuild).of_node? (hq hn))
          · rw [map_node, hshape, List.map_map]
            simp only [Function.comp_def, Value.map_map]
          · refine .of_children hdefined.symm (fun w hw c hc => ?_) hanswer (hbefore ▸ hiff)
            obtain ⟨v, hv, t, ht, htc⟩ := Value.exists_child_of_rel_right hrel hw hc
            exact htc.2.of_extends hrebuild.2.1

end Tree

end Runs

/-! ## What a run does -/

/-- Run in the given states, the action answers and changes neither of them. -/
def EditM.returning (state : σ) (s : Store) : Judgement (EditM σ ε) where
  Holds action post := ∃ answer, action.exec state s = some (.ok answer, state, s) ∧ post answer
  holds_pure h := ⟨_, rfl, h⟩
  holds_bind hx hf := by
    obtain ⟨a, hrun, ha⟩ := hx
    obtain ⟨b, hrun', hb⟩ := hf a ha
    refine ⟨b, ?_, hb⟩
    rw [exec_bind, hrun]
    exact hrun'

/-- An action that never replaces anything leaves the node as it is. -/
theorem Tree.transformTopDown_none {s : Store} {t : Tree NodeId} (ht : s.Unfolds t) (state : σ) :
    (transformTopDown (ε := ε) (fun _ => pure none) t.label).exec state s =
      some (.ok t.label, state, s) := by
  induction t using induct with
  | step id k vs ih =>
      have hn : s.node? id = some ⟨k, vs.map fun v => v.map label⟩ := ht.node?
      have hchild : ∀ v ∈ vs, ∀ t ∈ v.children, (EditM.returning state s).Holds
          (transformTopDown (ε := ε) (fun _ => pure none) t.label) fun x => x = t.label :=
        fun v hv t htv => ⟨t.label, ih v hv t htv (ht.child v hv t htv), rfl⟩
      obtain ⟨values, hrun, hvalues⟩ := (EditM.returning state s).holds_mapM fun v hv =>
        (EditM.returning state s).holds_valueMapM fun t htv => hchild v hv t htv
      obtain rfl : values = vs.map fun v => v.map label :=
        Value.eq_map_iff.2 (hvalues.flip.imp fun _ _ h => h.flip)
      rw [label_node, transformTopDown_eq, pure_bind]
      change (transformChildren _ id).exec state s = _
      rw [exec_transformChildren_of_node? hn, EditM.exec_bind, hrun]
      simp only [rebuild, if_true]
      rfl

/-- A run of a top-down transformation, as a tree of verdicts for the unfolding of a node. -/
structure TopDownRun (g : NodeId → EditM σ ε (Option NodeId)) (defined : NodeId → Bool)
    (id : NodeId) (u : Tree Verdict) (answer : NodeId) (p q : σ × Store) : Prop where
  /-- There is one place for each occurrence in the unfolding. -/
  shape : p.2.unfolding? id = some (u.map Verdict.occurrence)
  /-- The transformation gives the answer and adds instances at most. -/
  run : (transformTopDown g id).exec p.1 p.2 = some (.ok answer, q) ∧ p.2.Extends q.2
  /-- The verdicts that it asks for, one after the other, are those of the tree. None is
  below another that is a replacement. -/
  asked : (transformTopDown (recording g) id).exec (p.1, []) p.2 =
    some (.ok answer, (q.1, u.asked), q.2)
  /-- The action gives replacements where it should. -/
  decided : ∀ c ∈ u.asked, c.replacement.isSome = defined c.occurrence
  /-- A visitor that enters the nodes without replacement sees the same occurrences. -/
  visited : p.2.visit (Tree.noting fun x => !defined x) id [] =
    .ok (u.asked.map Verdict.occurrence)
  /-- The answer stands for the unfolding with the trees of the topmost replacements in
  place of the occurrences that they replace. -/
  grafted : ∃ R : NodeId → Tree Unit,
    (∀ c ∈ u.asked, ∀ y ∈ c.replacement, q.2.Denotes y (R y)) ∧ q.2.Denotes answer (u.graft R)
  /-- The answer is the node itself exactly if these replacements are what they replace. -/
  kept : answer = id ↔ ∀ c ∈ u.asked, ∀ y ∈ c.replacement, y = c.occurrence

/-- A top-down transformation of a node, with an action that adds instances at most, asks
about the same occurrences in the same order as a visitor sees that enters the nodes
without replacement. The result stands for the unfolding of the node with the topmost
replacements grafted upon it, and it is the node itself exactly if these replace nothing by
another instance. An action that never gives a replacement changes nothing at all. -/
theorem transformTopDown_asks_as_visited {s : Store} (hclosed : s.Closed) (hacyclic : s.Acyclic)
    {id : NodeId} {n : Node} (hn : s.node? id = some n) {g : NodeId → EditM σ ε (Option NodeId)}
    {defined : NodeId → Bool} (hg : Replaces s g defined) (state : σ) :
    (∃ u answer q, TopDownRun g defined id u answer (state, s) q) ∧
      (transformTopDown (ε := ε) (fun _ => pure none) id).exec state s =
        some (.ok id, state, s) := by
  obtain ⟨t, ht⟩ := (hclosed.grounded hacyclic hn).exists_unfolding?
  have hlabel := Store.label_of_unfolding? ht
  constructor
  · obtain ⟨⟨u, answer⟩, q, ⟨hrun, hextends, hrecorded⟩, hshape, hdecides⟩ :=
      t.exists_verdicts hg (Store.unfolds_of_unfolding? ht) (state, s) (.refl s)
    have hoccurrence : u.label.occurrence = id := by
      rw [← hlabel, ← hshape, Tree.label_map]
    rw [hlabel] at hrun hrecorded
    refine ⟨u, answer, q, hshape ▸ ht, ⟨hrun, hextends⟩, hrecorded [], hdecides.decided, ?_, ?_, ?_⟩
    · have hreached : u.asked = u.reached fun c => !defined c.occurrence := by
        refine (Tree.reached_congr fun c hc => ?_).symm
        rw [← hdecides.decided c hc, Option.not_isSome]
      rw [Store.visit_noting ht, ← hshape, Tree.reached_map, hreached]
    · have hR : ∀ y, ∃ p, q.2.Grounded y → q.2.Denotes y p := by
        intro y
        by_cases hy : q.2.Grounded y
        · obtain ⟨w, hw⟩ := hy.exists_unfolding?
          exact ⟨w.plain, fun _ => Store.denotes_of_unfolding? hw⟩
        · exact ⟨t.plain, fun hy' => absurd hy' hy⟩
      choose R hR using hR
      have hreplacements : ∀ c ∈ u.asked, ∀ y ∈ c.replacement, q.2.Denotes y (R y) :=
        fun c hc y hy => hR y (hdecides.grounded c hc y hy)
      exact ⟨R, hreplacements, hdecides.grafted R q.2 (.refl q.2) hreplacements⟩
    · rw [← hoccurrence]
      exact hdecides.kept
  · rw [← hlabel]
    exact Tree.transformTopDown_none (Store.unfolds_of_unfolding? ht) state

/-- Each argument of `f(1,1)` is replaced by a number of its own, so the term is rebuilt. -/
theorem transformTopDown_asks_as_visited_sharedTerm :
    let two : Node := ⟨.symbolicTerm, [.location .default, .symbol (.number 2)]⟩
    let g : NodeId → EditM Unit Empty (Option NodeId) := fun x =>
      if x = ⟨0⟩ then some <$> (Store.alloc two : StateM Store NodeId) else pure none
    let defined : NodeId → Bool := fun x => x = ⟨0⟩
    Store.sharedTerm.Closed ∧ Store.sharedTerm.Acyclic ∧ Replaces Store.sharedTerm g defined ∧
      ∃ u answer q, TopDownRun g defined ⟨1⟩ u answer ((), Store.sharedTerm) q ∧
        u.asked.map Verdict.occurrence = [⟨1⟩, ⟨0⟩, ⟨0⟩] ∧ answer = ⟨4⟩ := by
  intro two g defined
  have hs : Store.sharedTerm.WellFormed := .of_inOrder (by decide)
  have hg : Replaces Store.sharedTerm g defined := by
    intro x state s _ _
    by_cases hx : x = ⟨0⟩
    · refine ⟨some ((Store.alloc two).run s).1, ((), ((Store.alloc two).run s).2), ?_,
        .alloc s two, ?_, ?_⟩
      · simp only [g, if_pos hx]
        rfl
      · simp [defined, hx]
      · rintro y ⟨⟩
        exact .intro (s.node?_alloc_self two) fun child hchild => nomatch hchild
    · refine ⟨none, ((), s), ?_, .refl s, ?_, fun y hy => nomatch hy⟩
      · simp only [g, if_neg hx]
        rfl
      · simp [defined, hx]
  have hn : Store.sharedTerm.node? ⟨1⟩ = some ⟨.function,
    [.location .default, .text "f", .nodes [⟨0⟩, ⟨0⟩], .int 0]⟩ := rfl
  obtain ⟨⟨u, answer, q, hrun⟩, -⟩ :=
    transformTopDown_asks_as_visited hs.closed hs.acyclic hn hg ()
  refine ⟨hs.closed, hs.acyclic, hg, u, answer, q, hrun, ?_, ?_⟩
  · have ht : Store.sharedTerm.unfolding? ⟨1⟩ = some _ := rfl
    have hvisited := hrun.visited
    rw [Store.visit_noting ht, Except.ok.injEq] at hvisited
    exact hvisited.symm
  · have hargument : transformTopDown g ⟨0⟩ = (Store.alloc two : StateM Store NodeId) := by
      rw [transformTopDown_eq]
      rfl
    have hanswer := hrun.run.1
    rw [transformTopDown_eq, EditM.exec_bind] at hanswer
    change (transformChildren (transformTopDown g) ⟨1⟩).exec () Store.sharedTerm = _ at hanswer
    rw [transformChildren, EditM.exec_store_bind, hn] at hanswer
    simp only [List.mapM_cons, List.mapM_nil, Value.mapM, hargument] at hanswer
    cases hanswer
    rfl

end AnswerSet
