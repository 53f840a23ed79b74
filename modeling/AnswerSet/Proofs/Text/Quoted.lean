import AnswerSet.Text.Quoted
import Mathlib.Data.List.Forall2

/-!
# Where a quoted string ends

Between quotes a text is a sequence of units: a backslash together with the letter behind it,
or any other character by itself. A quote can stand inside of a unit only. So the first quote
that belongs to no unit closes the string, and whoever reads a text from the left finds one
such quote at most, whatever follows it.

What is written for a string is a sequence of units, one for each character. It ends at the
quote that is put behind it, it is read back as the string, and it stays on one line.
-/

namespace AnswerSet.Quoted

/-! ## Units -/

/-- The text is a unit, and the character is what it stands for. -/
inductive StandsFor : List Char → Char → Prop
  | escaped {letter c : Char} (h : unescape? letter = some c) : StandsFor ['\\', letter] c
  | plain {c : Char} (hquote : c ≠ '"') (hbackslash : c ≠ '\\') : StandsFor [c] c

/-- From the left, the text consists of units that stand for the string, a quote that belongs
to none of them, and the text behind this quote. -/
def Reads (text : List Char) (units : List (List Char)) (s after : List Char) : Prop :=
  List.Forall₂ StandsFor units s ∧ text = units.flatten ++ '"' :: after

variable {text unit s after : List Char} {units : List (List Char)} {c : Char}

/-- No unit begins with a quote. -/
theorem StandsFor.head_ne (h : StandsFor unit c) (rest after : List Char) :
    unit ++ rest ≠ '"' :: after := by
  intro heq
  cases h with
  | escaped => cases heq
  | plain hquote => exact hquote (List.cons.inj heq).1

/-- The unit at the beginning of a text is determined. -/
theorem StandsFor.unique {unit' : List Char} {c' : Char} {rest rest' : List Char}
    (h : StandsFor unit c) (h' : StandsFor unit' c') (heq : unit ++ rest = unit' ++ rest') :
    unit = unit' ∧ c = c' ∧ rest = rest' := by
  cases h with
  | escaped h =>
      cases h' with
      | escaped h' =>
          simp only [List.cons_append, List.nil_append, List.cons.injEq, true_and] at heq
          obtain ⟨rfl, rfl⟩ := heq
          exact ⟨rfl, Option.some.inj (h.symm.trans h'), rfl⟩
      | plain _ hbackslash => exact absurd (List.cons.inj heq).1.symm hbackslash
  | plain _ hbackslash =>
      cases h' with
      | escaped _ => exact absurd (List.cons.inj heq).1 hbackslash
      | plain _ _ =>
          obtain ⟨rfl, rfl⟩ := List.cons.inj heq
          exact ⟨rfl, rfl, rfl⟩

/-- A text is read in one way at most: up to the first quote outside of a unit. -/
theorem Reads.unique {units' : List (List Char)} {s' after' : List Char}
    (h : Reads text units s after) (h' : Reads text units' s' after') :
    units = units' ∧ s = s' ∧ after = after' := by
  obtain ⟨hunits, rfl⟩ := h
  obtain ⟨hunits', heq⟩ := h'
  induction hunits generalizing units' s' with
  | nil =>
      cases hunits' with
      | nil => exact ⟨rfl, rfl, (List.cons.inj heq).2⟩
      | cons hunit' _ =>
          rw [List.flatten_cons, List.append_assoc] at heq
          exact absurd heq.symm (hunit'.head_ne _ after)
  | cons hunit _ ih =>
      rw [List.flatten_cons, List.append_assoc] at heq
      cases hunits' with
      | nil => exact absurd heq (hunit.head_ne _ after')
      | cons hunit' hrest' =>
          rw [List.flatten_cons, List.append_assoc] at heq
          obtain ⟨rfl, rfl, heq⟩ := hunit.unique hunit' heq
          obtain ⟨rfl, rfl, rfl⟩ := ih hrest' heq
          exact ⟨rfl, rfl, rfl⟩

/-! ## The scanner -/

/-- The scanner takes a unit as a whole. -/
theorem StandsFor.scan_append (h : StandsFor unit c) (rest : List Char) :
    scan (unit ++ rest) = (scan rest).map fun read => (c :: read.1, read.2) := by
  cases h with
  | escaped h =>
      rw [List.cons_append, List.cons_append, List.nil_append, scan, if_neg (by decide),
        if_pos rfl, h]
      cases scan rest <;> rfl
  | plain hquote hbackslash =>
      cases rest with
      | nil => simp [scan, hquote]
      | cons d rest =>
          rw [List.cons_append, List.nil_append, scan, if_neg hquote, if_neg hbackslash]
          cases scan (d :: rest) <;> rfl

theorem scan_quote (after : List Char) : scan ('"' :: after) = some ([], after) := by
  cases after <;> simp [scan]

theorem Reads.scan_eq (h : Reads text units s after) : scan text = some (s, after) := by
  obtain ⟨hunits, rfl⟩ := h
  induction hunits with
  | nil => exact scan_quote after
  | cons hunit _ ih => rw [List.flatten_cons, List.append_assoc, hunit.scan_append, ih]; rfl

theorem Reads.cons (hunit : StandsFor unit c) (h : Reads text units s after) :
    Reads (unit ++ text) (unit :: units) (c :: s) after := by
  obtain ⟨hunits, rfl⟩ := h
  exact ⟨.cons hunit hunits, by rw [List.flatten_cons, List.append_assoc]⟩

/-- The scanner finds the string in a text exactly if the text reads so. -/
theorem scan_eq_some_iff : scan text = some (s, after) ↔ ∃ units, Reads text units s after := by
  constructor
  · intro h
    fun_induction scan text generalizing s with
    | case1 => cases h
    | case2 =>
        cases h
        exact ⟨[], .nil, rfl⟩
    | case3 => cases h
    | case4 d rest =>
        cases h
        exact ⟨[], .nil, rfl⟩
    | case5 d rest _ ih =>
        simp only [Option.bind_eq_bind, Option.bind_eq_some_iff] at h
        obtain ⟨unit, hunit, ⟨body, after⟩, hread, heq⟩ := h
        cases heq
        obtain ⟨units, hunits⟩ := ih hread
        exact ⟨_, hunits.cons (.escaped hunit)⟩
    | case6 c d rest hquote hbackslash ih =>
        simp only [Option.bind_eq_bind, Option.bind_eq_some_iff] at h
        obtain ⟨⟨body, after⟩, hread, heq⟩ := h
        cases heq
        obtain ⟨units, hunits⟩ := ih hread
        exact ⟨_, hunits.cons (.plain hquote hbackslash)⟩
  · rintro ⟨units, h⟩
    exact h.scan_eq

/-! ## What is written -/

/-- Every character is written as a unit. -/
theorem standsFor_escapeChar (c : Char) : StandsFor (escapeChar c) c := by
  unfold escapeChar
  split_ifs with hbackslash hquote hbreak
  · exact .escaped (by rw [hbackslash]; rfl)
  · exact .escaped (by rw [hquote]; rfl)
  · exact .escaped (by rw [hbreak]; rfl)
  · exact .plain hquote hbackslash

theorem reads_escape (s after : List Char) :
    Reads (escape s ++ '"' :: after) (s.map escapeChar) s after := by
  refine ⟨?_, rfl⟩
  rw [List.forall₂_map_left_iff, List.forall₂_same]
  exact fun c _ => standsFor_escapeChar c

/-- The text between quotes is determined by what is written, and so is its end. -/
theorem escape_append_inj {s' after' : List Char}
    (h : escape s ++ '"' :: after = escape s' ++ '"' :: after') : s = s' ∧ after = after' := by
  have hread := reads_escape s after
  rw [h] at hread
  exact (hread.unique (reads_escape s' after')).2

theorem escape_injective : Function.Injective escape := by
  intro s s' h
  have hclosed : escape s ++ ['"'] = escape s' ++ ['"'] := by rw [h]
  exact (escape_append_inj hclosed).1

theorem newline_not_mem_escapeChar (c : Char) : '\n' ∉ escapeChar c := by
  unfold escapeChar
  split_ifs with hbackslash hquote hbreak
  · decide
  · decide
  · decide
  · simpa using Ne.symm hbreak

/-- Between quotes a string stays on one line. -/
theorem newline_not_mem_escape (s : List Char) : '\n' ∉ escape s := by
  intro h
  obtain ⟨c, -, hc⟩ := List.mem_flatMap.1 h
  exact newline_not_mem_escapeChar c hc

theorem toList_quote (s : String) : (quote s).toList = '"' :: (escape s.toList ++ ['"']) := by
  simp [quote]

end AnswerSet.Quoted

namespace AnswerSet

open Quoted

/-- What is written for a string, followed by a quote and any text, is read in exactly one way:
a unit for each character of the string up to this quote, which is therefore the first one
outside of a unit. The scanner reads it so. Nothing of what is written breaks the line, and
different strings are written differently. -/
theorem escaping_is_self_delimiting (s : String) (after : List Char) :
    (∀ units read rest, Reads (escape s.toList ++ '"' :: after) units read rest ↔
      units = s.toList.map escapeChar ∧ read = s.toList ∧ rest = after) ∧
    scan (escape s.toList ++ '"' :: after) = some (s.toList, after) ∧
    '\n' ∉ escape s.toList ∧
    ∀ s' : String, escape s'.toList = escape s.toList ↔ s' = s := by
  have hread := reads_escape s.toList after
  refine ⟨fun units read rest => ⟨fun h => h.unique hread, ?_⟩,
    scan_eq_some_iff.2 ⟨_, hread⟩, newline_not_mem_escape s.toList, fun s' => ?_⟩
  · rintro ⟨rfl, rfl, rfl⟩
    exact hread
  · rw [escape_injective.eq_iff, String.toList_inj]

end AnswerSet
