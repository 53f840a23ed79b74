import AnswerSet.Json.Reader
import AnswerSet.Proofs.Json.Lexer
import AnswerSet.Proofs.Json.Object

/-!
# Reading written text

The text of a value is cut into the tokens it was written from, and these are read as the
same value. Two things can stand in the way. A value may be one that text does not hold
exactly: `Exact` leaves out floating point numbers, integers beyond 64 bits and objects
whose fields are out of order. And it may nest deeper than the reader allows, in which
case reading ends at the first bracket that is too deep, whatever comes behind it.

Both parts are proved for a value followed by arbitrary tokens, and the second one for a
value at any place in arrays and objects that are still open.
-/

namespace AnswerSet.Json

/-! ## Lists of tokens -/

/-- The characters of tokens written one after the other. -/
def chars (ts : List Token) : List Char := ts.flatMap fun t => t.text.toList

/-- The text of the tokens is cut into these tokens again. -/
def Legible (ts : List Token) : Prop := scan (chars ts) = ts

theorem toList_text (v : Json) : v.text.toList = chars v.tokens := by
  rw [text, chars, String.toList_join, List.flatMap_map]

theorem Legible.cons {t : Token} {ts : List Token} (h : Legible ts) (ht : t.isClosed = true) :
    Legible (t :: ts) := by
  show scan (t.text.toList ++ chars ts) = t :: ts
  rw [scan_of_isClosed ht, h]

theorem Legible.int {n : Int} {ts : List Token} (h : Legible ts)
    (hlow : -9223372036854775808 ≤ n) (hhigh : n ≤ 18446744073709551615)
    (hends : EndsNumeral (chars ts)) : Legible (.num (.int n) :: ts) := by
  show scan ((Number.int n).text.toList ++ chars ts) = .num (.int n) :: ts
  rw [scan_int hlow hhigh hends, h]

/-! ## Tokens from text -/

/-- Text holds the value exactly: its numbers are integers of 64 bits, signed or unsigned, and
its objects list their fields in the order of their keys. -/
inductive Exact : Json → Prop where
  | null : Exact .null
  | bool (b : Bool) : Exact (.bool b)
  | int {n : Int} (hlow : -9223372036854775808 ≤ n) (hhigh : n ≤ 18446744073709551615) :
      Exact (.ofInt n)
  | str (s : String) : Exact (.str s)
  | arr {items : List Json} (h : ∀ v ∈ items, Exact v) : Exact (.arr items)
  | obj {fields : List (String × Json)} (hkeys : (fields.map Prod.fst).Pairwise (· < ·))
      (h : ∀ field ∈ fields, Exact field.2) : Exact (.obj fields)

/-- The tokens of the value can be put before tokens that do not go on with a numeral. -/
def LegibleBefore (v : Json) : Prop :=
  ∀ ts, Legible ts → EndsNumeral (chars ts) → Legible (v.tokensThen ts)

/-- The token may stand behind a number. -/
def Token.separates : Token → Bool
  | .comma | .closeArray | .closeObject => true
  | _ => false

theorem endsNumeral_of_separates {t : Token} (ht : t.separates = true) (ts : List Token) :
    EndsNumeral (chars (t :: ts)) := by
  cases t with
  | comma | closeArray | closeObject =>
      rintro _ ⟨⟩
      decide
  | _ => cases ht

theorem legible_itemTokens {items : List Json} (h : ∀ v ∈ items, LegibleBefore v)
    {ts : List Token} (hts : Legible ts) : Legible (itemTokens items ts) := by
  induction items with
  | nil => exact hts.cons rfl
  | cons v more ih =>
      have hv := h v List.mem_cons_self
      cases more with
      | nil => exact hv (.closeArray :: ts) (hts.cons rfl) (endsNumeral_of_separates rfl ts)
      | cons next more =>
          have hmore := ih fun w hw => h w (List.mem_cons_of_mem v hw)
          exact hv (.comma :: itemTokens (next :: more) ts) (hmore.cons rfl)
            (endsNumeral_of_separates rfl _)

theorem legible_fieldTokens {fields : List (String × Json)}
    (h : ∀ field ∈ fields, LegibleBefore field.2) {ts : List Token} (hts : Legible ts) :
    Legible (fieldTokens fields ts) := by
  induction fields with
  | nil => exact hts.cons rfl
  | cons field more ih =>
      obtain ⟨key, v⟩ := field
      have hv := h (key, v) List.mem_cons_self
      cases more with
      | nil =>
          have hvalue := hv (.closeObject :: ts) (hts.cons rfl) (endsNumeral_of_separates rfl ts)
          exact (hvalue.cons rfl).cons rfl
      | cons next more =>
          have hmore := ih fun w hw => h w (List.mem_cons_of_mem _ hw)
          have hvalue := hv (.comma :: fieldTokens (next :: more) ts) (hmore.cons rfl)
            (endsNumeral_of_separates rfl _)
          exact (hvalue.cons rfl).cons rfl

theorem Exact.legibleBefore {v : Json} (hv : Exact v) : LegibleBefore v := by
  induction hv with
  | null => exact fun ts hts _ => hts.cons rfl
  | bool b => exact fun ts hts _ => hts.cons rfl
  | int hlow hhigh => exact fun ts hts hends => hts.int hlow hhigh hends
  | str s => exact fun ts hts _ => hts.cons rfl
  | arr _ ih => exact fun ts hts _ => (legible_itemTokens ih hts).cons rfl
  | obj _ _ ih => exact fun ts hts _ => (legible_fieldTokens ih hts).cons rfl

/-- The text of an exact value is cut into the tokens it was written from. -/
theorem Exact.scan_text {v : Json} (hv : Exact v) : scan v.text.toList = v.tokens := by
  rw [toList_text]
  exact hv.legibleBefore [] rfl (by rintro _ ⟨⟩)

/-! ## Depth -/

mutual

/-- How deep arrays and objects nest in the value. -/
def depth : Json → Nat
  | .arr items => depthOfItems items + 1
  | .obj fields => depthOfFields fields + 1
  | _ => 0

/-- The greatest depth of items. -/
def depthOfItems : List Json → Nat
  | [] => 0
  | v :: vs => max (depth v) (depthOfItems vs)

/-- The greatest depth of fields. -/
def depthOfFields : List (String × Json) → Nat
  | [] => 0
  | (_, v) :: fields => max (depth v) (depthOfFields fields)

end

/-! ## Outcomes of reading -/

variable {limit : Nat} {ts : List Token}

/-- What reading the tokens ends with. -/
def Expecting.outcome (limit : Nat) (state : Expecting) (ts : List Token) : Except ReadError Json :=
  (state.run limit ts).2

theorem Expecting.outcome_cons (state : Expecting) (t : Token) :
    state.outcome limit (t :: ts) =
      state.step limit t >>= fun next => next.outcome limit ts := by
  rw [outcome, run]
  cases state.step limit t <;> rfl

/-- No value begins with the end of an array. -/
theorem exists_tokensThen_eq_cons (v : Json) (ts : List Token) :
    ∃ t rest, v.tokensThen ts = t :: rest ∧ t ≠ .closeArray := by
  cases v <;> exact ⟨_, _, rfl, by simp⟩

theorem exists_itemTokens_eq (v : Json) (more : List Json) (ts : List Token) :
    ∃ rest, itemTokens (v :: more) ts = v.tokensThen rest := by
  cases more <;> exact ⟨_, rfl⟩

/-- Where an item may come, an item is read like any other value. -/
theorem outcome_itemTokens {state : Expecting} {before : List Json} {outer : Context}
    (hstate : ∀ t, t ≠ .closeArray →
      state.step limit t = readValue limit (.item before outer) t) (v : Json) (more : List Json) :
    state.outcome limit (itemTokens (v :: more) ts) =
      (Expecting.value (.item before outer)).outcome limit (itemTokens (v :: more) ts) := by
  obtain ⟨rest, hrest⟩ := exists_itemTokens_eq v more ts
  obtain ⟨t, rest, ht, hne⟩ := exists_tokensThen_eq_cons v rest
  rw [hrest, ht, Expecting.outcome_cons, Expecting.outcome_cons, hstate t hne]
  rfl

theorem outcome_firstItem (outer : Context) (v : Json) (more : List Json) :
    (Expecting.firstItem outer).outcome limit (itemTokens (v :: more) ts) =
      (Expecting.value (.item [] outer)).outcome limit (itemTokens (v :: more) ts) := by
  apply outcome_itemTokens
  intro t ht
  cases t with
  | closeArray => exact absurd rfl ht
  | _ => rfl

theorem outcome_nextItem (before : List Json) (outer : Context) (v : Json) (more : List Json) :
    (Expecting.nextItem before outer).outcome limit (itemTokens (v :: more) ts) =
      (Expecting.value (.item before outer)).outcome limit (itemTokens (v :: more) ts) := by
  apply outcome_itemTokens
  intro t ht
  cases t with
  | closeArray => exact absurd rfl ht
  | _ => rfl

/-! ## Values from tokens -/

/-- Wherever the value may stand it is read from its tokens, unless it nests too deep there. -/
def ReadsBack (limit : Nat) (v : Json) : Prop :=
  ∀ context ts, context.depth ≤ limit →
    (Expecting.value context).outcome limit (v.tokensThen ts) =
      if context.depth + v.depth ≤ limit then (context.fill v).outcome limit ts
      else .error .tooDeep

/-- A first value and what comes after it are within the limit together or not at all. -/
theorem ite_ite_depth {α : Type} {base first rest : Nat} {x y : α} :
    (if base + first ≤ limit then if base + rest ≤ limit then x else y else y) =
      if base + max first rest ≤ limit then x else y := by
  by_cases hfirst : base + first ≤ limit
  · rw [if_pos hfirst]
    exact if_congr (by omega) rfl rfl
  · rw [if_neg hfirst, if_neg (by omega)]

/-- The items of an array behind those that have been read. -/
theorem outcome_items {outer : Context} (houter : outer.depth < limit) (before : List Json)
    (v : Json) (more : List Json) (h : ∀ w ∈ v :: more, ReadsBack limit w) (ts : List Token) :
    (Expecting.value (.item before outer)).outcome limit (itemTokens (v :: more) ts) =
      if outer.depth + 1 + depthOfItems (v :: more) ≤ limit then
        (outer.fill (.arr (before.reverse ++ v :: more))).outcome limit ts
      else .error .tooDeep := by
  -- The induction is on the items to come; each one read joins those before, in reverse.
  induction more generalizing before v with
  | nil =>
      have hv := h v List.mem_cons_self (.item before outer) (.closeArray :: ts) houter
      have hend : ((Context.item before outer).fill v).outcome limit (.closeArray :: ts) =
          (outer.fill (.arr (v :: before).reverse)).outcome limit ts :=
        Expecting.outcome_cons _ _
      rw [itemTokens, hv, hend, List.reverse_cons, depthOfItems, depthOfItems, Nat.max_zero]
      rfl
  | cons next more ih =>
      have hv := h v List.mem_cons_self (.item before outer)
        (.comma :: itemTokens (next :: more) ts) houter
      have hcomma : ((Context.item before outer).fill v).outcome limit
            (.comma :: itemTokens (next :: more) ts) =
          (Expecting.value (.item (v :: before) outer)).outcome limit
            (itemTokens (next :: more) ts) :=
        (Expecting.outcome_cons _ _).trans (outcome_nextItem (v :: before) outer next more)
      have hmore := ih (v :: before) next fun w hw => h w (List.mem_cons_of_mem v hw)
      rw [List.reverse_cons, List.append_assoc] at hmore
      rw [itemTokens, hv, hcomma, hmore]
      exact ite_ite_depth

theorem fill_field {before more : List (String × Json)} {key : String} {v : Json}
    (hkeys : ((before ++ (key, v) :: more).map Prod.fst).Pairwise (· < ·)) (outer : Context) :
    (Context.field before key outer).fill v = .fieldEnd (before ++ [(key, v)]) outer := by
  have hlast : insertField key v before = before ++ [(key, v)] := by
    apply insertField_of_lt
    intro field hfield
    rw [List.map_append, List.pairwise_append] at hkeys
    exact hkeys.2.2 field.1 (List.mem_map_of_mem hfield) key (by simp)
  rw [Context.fill, hlast]

theorem outcome_key (before : List (String × Json)) (outer : Context) (key : String)
    (rest : List Token) :
    (Expecting.nextKey before outer).outcome limit (.str key :: .colon :: rest) =
      (Expecting.value (.field before key outer)).outcome limit rest := by
  rw [Expecting.outcome_cons]
  exact Expecting.outcome_cons _ _

theorem outcome_firstKey (outer : Context) (key : String) (v : Json)
    (more : List (String × Json)) :
    (Expecting.firstKey outer).outcome limit (fieldTokens ((key, v) :: more) ts) =
      (Expecting.nextKey [] outer).outcome limit (fieldTokens ((key, v) :: more) ts) := by
  obtain ⟨rest, hrest⟩ : ∃ rest, fieldTokens ((key, v) :: more) ts = .str key :: rest := by
    cases more <;> exact ⟨_, rfl⟩
  rw [hrest, Expecting.outcome_cons, Expecting.outcome_cons]
  rfl

/-- The fields of an object behind those that have been read. -/
theorem outcome_fields {outer : Context} (houter : outer.depth < limit)
    (before : List (String × Json)) (key : String) (v : Json) (more : List (String × Json))
    (hkeys : ((before ++ (key, v) :: more).map Prod.fst).Pairwise (· < ·))
    (h : ∀ field ∈ (key, v) :: more, ReadsBack limit field.2) (ts : List Token) :
    (Expecting.nextKey before outer).outcome limit (fieldTokens ((key, v) :: more) ts) =
      if outer.depth + 1 + depthOfFields ((key, v) :: more) ≤ limit then
        (outer.fill (.obj (before ++ (key, v) :: more))).outcome limit ts
      else .error .tooDeep := by
  -- As for items, but a field goes to its place in the order of keys, which is the last.
  induction more generalizing before key v with
  | nil =>
      have hv := h (key, v) List.mem_cons_self (.field before key outer) (.closeObject :: ts) houter
      have hend : (Expecting.fieldEnd (before ++ [(key, v)]) outer).outcome limit
            (.closeObject :: ts) =
          (outer.fill (.obj (before ++ [(key, v)]))).outcome limit ts :=
        Expecting.outcome_cons _ _
      rw [fieldTokens, outcome_key, hv, fill_field hkeys, hend, depthOfFields, depthOfFields,
        Nat.max_zero]
      rfl
  | cons next more ih =>
      obtain ⟨nextKey, w⟩ := next
      have hv := h (key, v) List.mem_cons_self (.field before key outer)
        (.comma :: fieldTokens ((nextKey, w) :: more) ts) houter
      have hcomma : (Expecting.fieldEnd (before ++ [(key, v)]) outer).outcome limit
            (.comma :: fieldTokens ((nextKey, w) :: more) ts) =
          (Expecting.nextKey (before ++ [(key, v)]) outer).outcome limit
            (fieldTokens ((nextKey, w) :: more) ts) :=
        Expecting.outcome_cons _ _
      have happend : before ++ [(key, v)] ++ (nextKey, w) :: more =
          before ++ (key, v) :: (nextKey, w) :: more := by simp
      have hkeys' := happend ▸ hkeys
      have hmore := ih (before ++ [(key, v)]) nextKey w hkeys'
        fun field hfield => h field (List.mem_cons_of_mem _ hfield)
      rw [happend] at hmore
      rw [fieldTokens, outcome_key, hv, fill_field hkeys, hcomma, hmore]
      exact ite_ite_depth

theorem outcome_array {outer : Context} (houter : outer.depth < limit) {items : List Json}
    (h : ∀ v ∈ items, ReadsBack limit v) (ts : List Token) :
    (Expecting.firstItem outer).outcome limit (itemTokens items ts) =
      if outer.depth + 1 + depthOfItems items ≤ limit then
        (outer.fill (.arr items)).outcome limit ts
      else .error .tooDeep := by
  cases items with
  | nil => exact (Expecting.outcome_cons _ _).trans (if_pos houter).symm
  | cons v more =>
      rw [outcome_firstItem]
      exact outcome_items houter [] v more h ts

theorem outcome_object {outer : Context} (houter : outer.depth < limit)
    {fields : List (String × Json)} (hkeys : (fields.map Prod.fst).Pairwise (· < ·))
    (h : ∀ field ∈ fields, ReadsBack limit field.2) (ts : List Token) :
    (Expecting.firstKey outer).outcome limit (fieldTokens fields ts) =
      if outer.depth + 1 + depthOfFields fields ≤ limit then
        (outer.fill (.obj fields)).outcome limit ts
      else .error .tooDeep := by
  cases fields with
  | nil => exact (Expecting.outcome_cons _ _).trans (if_pos houter).symm
  | cons field more =>
      obtain ⟨key, v⟩ := field
      rw [outcome_firstKey]
      exact outcome_fields houter [] key v more hkeys h ts

/-- A bracket is read if there is room for one more level. -/
theorem ite_open_depth {α : Type} {base rest : Nat} {x y : α} :
    (if base < limit then if base + 1 + rest ≤ limit then x else y else y) =
      if base + (rest + 1) ≤ limit then x else y := by
  by_cases hbase : base < limit
  · rw [if_pos hbase]
    exact if_congr (by omega) rfl rfl
  · rw [if_neg hbase, if_neg (by omega)]

theorem Exact.readsBack {v : Json} (hv : Exact v) : ReadsBack limit v := by
  induction hv with
  | null | bool _ | str _ | int _ _ =>
      intro context ts hcontext
      exact (Expecting.outcome_cons _ _).trans (if_pos hcontext).symm
  | @arr items _ ih =>
      intro context ts _
      have hopen : (Expecting.value context).outcome limit (.openArray :: itemTokens items ts) =
          if context.depth < limit then
            (Expecting.firstItem context).outcome limit (itemTokens items ts)
          else .error .tooDeep := by
        rw [Expecting.outcome_cons, Expecting.step, readValue]
        split <;> rfl
      rw [tokensThen, hopen, depth, ← ite_open_depth]
      split
      · rename_i hlt
        exact outcome_array hlt ih ts
      · rfl
  | @obj fields hkeys _ ih =>
      intro context ts _
      have hopen : (Expecting.value context).outcome limit (.openObject :: fieldTokens fields ts) =
          if context.depth < limit then
            (Expecting.firstKey context).outcome limit (fieldTokens fields ts)
          else .error .tooDeep := by
        rw [Expecting.outcome_cons, Expecting.step, readValue]
        split <;> rfl
      rw [tokensThen, hopen, depth, ← ite_open_depth]
      split
      · rename_i hlt
        exact outcome_object hlt hkeys ih ts
      · rfl

/-- The text of an exact value is read as that value, if it does not nest too deep. -/
theorem Exact.parse_text {v : Json} (hv : Exact v) (limit : Nat) :
    parse limit v.text = if v.depth ≤ limit then .ok v else .error .tooDeep := by
  have hread := hv.readsBack .top [] (Nat.zero_le limit)
  rw [parse, hv.scan_text]
  refine hread.trans ?_
  rw [Context.depth, Nat.zero_add]
  rfl

end AnswerSet.Json
