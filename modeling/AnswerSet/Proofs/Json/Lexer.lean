import AnswerSet.Json.Lexer
import Mathlib.Data.List.Basic

/-!
# Cutting written text into tokens

Every token that is written is read again from its text, whatever text follows it. Only
numbers need care: more digits, a point or an exponent behind a number would be read as
part of it, so a number is read again where nothing of that kind follows.

Strings are the longest way. A character is written as itself, as a short escape, or by
its code in hexadecimal digits, and each of the three is read as the same character.
-/

namespace AnswerSet.Json

variable {rest : List Char}

/-! ## Strings -/

/-- The characters of an escape that has been read add nothing but their number. -/
theorem readString_skip (read : List Char) {body : List Char} {count : Nat}
    (h : readString 0 rest = .ok (body, count)) :
    readString read.length (read ++ rest) = .ok (body, count + read.length) := by
  induction read with
  | nil => exact h
  | cons c read ih =>
      rw [List.length_cons, List.cons_append, readString, ih]
      rfl

theorem readString_of_readEscape {c : Char} {escape body : List Char} {count : Nat}
    (hescape : readEscape (escape ++ rest) = .ok (c, escape.length))
    (h : readString 0 rest = .ok (body, count)) :
    readString 0 ('\\' :: escape ++ rest) = .ok (c :: body, count + ('\\' :: escape).length) := by
  rw [List.cons_append, readString, if_neg (by decide), if_pos rfl, hescape]
  have hskip := readString_skip escape h
  simp only [bind, Except.bind, hskip]
  rfl

theorem readEscape_of_unescape? {c unit : Char} (hc : unescape? c = some unit) (hu : c ≠ 'u') :
    readEscape ([c] ++ rest) = .ok (unit, [c].length) := by
  simp [readEscape, hu, hc]

theorem readHex_control {n : Nat} (hn : n < 32) :
    readHex ('0' :: '0' :: (n / 16).digitChar :: (n % 16).digitChar :: rest) = .ok n := by
  unfold readHex
  rw [List.take_succ_cons, List.take_succ_cons, List.take_succ_cons, List.take_succ_cons,
    List.take_zero]
  -- What is left depends on the code only, and there are 32 of them.
  revert n
  decide

theorem readEscape_control {c : Char} (hc : c.toNat < 32) :
    readEscape ('u' :: '0' :: '0' :: (c.toNat / 16).digitChar :: (c.toNat % 16).digitChar :: rest) =
      .ok (c, 5) := by
  rw [readEscape, if_pos rfl, readUnicode, readHex_control hc]
  simp only [bind, Except.bind]
  rw [if_neg (by omega), if_neg (by omega), Char.ofNat_toNat]
  rfl

/-- The three ways to write a character: a short escape, its code, or the character itself. -/
theorem escapeChar_cases (c : Char) :
    (∃ letter, letter ≠ 'u' ∧ unescape? letter = some c ∧ escapeChar c = ['\\', letter]) ∨
      (c.toNat < 32 ∧ escapeChar c =
        ['\\', 'u', '0', '0', (c.toNat / 16).digitChar, (c.toNat % 16).digitChar]) ∨
      (c ≠ '"' ∧ c ≠ '\\' ∧ ¬c.toNat < 32 ∧ escapeChar c = [c]) := by
  by_cases hquote : c = '"'
  · subst hquote
    exact .inl ⟨'"', by decide, rfl, rfl⟩
  by_cases hbackslash : c = '\\'
  · subst hbackslash
    exact .inl ⟨'\\', by decide, rfl, rfl⟩
  by_cases hb : c = '\x08'
  · subst hb
    exact .inl ⟨'b', by decide, rfl, rfl⟩
  by_cases hf : c = '\x0c'
  · subst hf
    exact .inl ⟨'f', by decide, rfl, rfl⟩
  by_cases hn : c = '\n'
  · subst hn
    exact .inl ⟨'n', by decide, rfl, rfl⟩
  by_cases hr : c = '\r'
  · subst hr
    exact .inl ⟨'r', by decide, rfl, rfl⟩
  by_cases ht : c = '\t'
  · subst ht
    exact .inl ⟨'t', by decide, rfl, rfl⟩
  rw [escapeChar, if_neg hquote, if_neg hbackslash, if_neg hb, if_neg hf, if_neg hn, if_neg hr,
    if_neg ht]
  by_cases hcontrol : c.toNat < 32
  · exact .inr (.inl ⟨hcontrol, if_pos hcontrol⟩)
  · exact .inr (.inr ⟨hquote, hbackslash, hcontrol, if_neg hcontrol⟩)

/-- What is written for a character is read as that character. -/
theorem readString_escapeChar (c : Char) {body : List Char} {count : Nat}
    (h : readString 0 rest = .ok (body, count)) :
    readString 0 (escapeChar c ++ rest) = .ok (c :: body, count + (escapeChar c).length) := by
  rcases escapeChar_cases c with ⟨letter, hu, hletter, hc⟩ | ⟨hcontrol, hc⟩ |
    ⟨hquote, hbackslash, hcontrol, hc⟩
  · rw [hc]
    exact readString_of_readEscape (readEscape_of_unescape? hletter hu) h
  · rw [hc]
    exact readString_of_readEscape (readEscape_control hcontrol) h
  · rw [hc, List.cons_append, List.nil_append, readString, if_neg hquote, if_neg hbackslash,
      if_neg hcontrol, h]
    rfl

/-- A string is read back up to and with its closing quote. -/
theorem readString_flatMap_escapeChar (cs : List Char) :
    readString 0 (cs.flatMap escapeChar ++ '"' :: rest) =
      .ok (cs, (cs.flatMap escapeChar).length + 1) := by
  induction cs with
  | nil => rfl
  | cons c cs ih =>
      rw [List.flatMap_cons, List.append_assoc, readString_escapeChar c ih, List.length_append]
      congr 2
      omega

/-! ## Numerals -/

/-- Nothing at the beginning of the text could be read as part of a numeral. -/
def EndsNumeral (rest : List Char) : Prop :=
  ∀ c ∈ rest.head?, c.isDigit = false ∧ c ≠ '.' ∧ c ≠ 'e' ∧ c ≠ 'E'

theorem EndsNumeral.readFraction (h : EndsNumeral rest) : readFraction rest = .ok none := by
  cases rest with
  | nil => rfl
  | cons c rest =>
      obtain ⟨-, hpoint, -⟩ := h c rfl
      rw [Json.readFraction, if_neg hpoint]

theorem EndsNumeral.readExponent (h : EndsNumeral rest) : readExponent rest = .ok (none, 0) := by
  cases rest with
  | nil => rfl
  | cons c rest =>
      obtain ⟨-, -, hlower, hupper⟩ := h c rfl
      simp [Json.readExponent, hlower, hupper]

theorem EndsNumeral.leadingDigits_append (h : EndsNumeral rest) {digits : List Char}
    (hdigits : ∀ c ∈ digits, c.isDigit = true) :
    leadingDigits (digits ++ rest) = digits.map digitValue := by
  have hrest : rest.takeWhile Char.isDigit = [] := by
    cases rest with
    | nil => rfl
    | cons c rest => simp [(h c rfl).1]
  rw [leadingDigits, List.takeWhile_append_of_pos hdigits, hrest, List.append_nil]

theorem isDigit_of_mem_toDigits {n : Nat} {c : Char} (h : c ∈ Nat.toDigits 10 n) :
    c.isDigit = true :=
  Nat.isDigit_of_mem_toDigits (by decide) (by decide) h

theorem exists_toDigits_eq_cons (n : Nat) :
    ∃ c cs, Nat.toDigits 10 n = c :: cs ∧ c.isDigit = true := by
  obtain ⟨c, cs, hdigits⟩ := List.exists_cons_of_ne_nil (Nat.toDigits_ne_nil (b := 10) (n := n))
  refine ⟨c, cs, hdigits, ?_⟩
  apply isDigit_of_mem_toDigits (n := n)
  rw [hdigits]
  exact List.mem_cons_self

/-- Only zero is written with a leading zero. -/
theorem head?_toDigits_ne_zero {n : Nat} (hn : n ≠ 0) : (Nat.toDigits 10 n).head? ≠ some '0' := by
  induction n using Nat.strongRecOn with
  | ind n ih =>
      rw [Nat.toDigits_eq_if (by decide)]
      split
      · simpa using hn
      · have hfirst := ih (n / 10) (by omega) (by omega)
        rw [List.head?_append_of_ne_nil _ Nat.toDigits_ne_nil]
        exact hfirst

theorem EndsNumeral.readWhole (h : EndsNumeral rest) (n : Nat) :
    readWhole (Nat.toDigits 10 n ++ rest) = .ok ((Nat.toDigits 10 n).map digitValue) := by
  by_cases hn : n = 0
  · subst hn
    have hnone : ∀ c ∈ ([] : List Char), c.isDigit = true := by simp
    have hrest : leadingDigits rest = [] := h.leadingDigits_append hnone
    rw [Nat.toDigits_zero, List.cons_append, List.nil_append, Json.readWhole, if_pos rfl, hrest]
    rfl
  · have hzero := head?_toDigits_ne_zero hn
    have hall := h.leadingDigits_append fun c => isDigit_of_mem_toDigits (n := n) (c := c)
    obtain ⟨c, cs, hdigits, hc⟩ := exists_toDigits_eq_cons n
    rw [hdigits] at hall hzero ⊢
    rw [List.cons_append] at hall ⊢
    rw [Json.readWhole, if_neg (by simpa using hzero), if_pos hc, hall]

namespace Numeral

theorem le_foldl_digits (n : Nat) (digits : List Nat) :
    n ≤ digits.foldl (fun n d => n * 10 + d) n := by
  induction digits generalizing n with
  | nil => exact Nat.le_refl n
  | cons d digits ih =>
      have hrest := ih (n * 10 + d)
      rw [List.foldl_cons]
      omega

/-- If all digits together fit 64 bits, none of them is left over. -/
theorem absorb_eq {n : Nat} {digits : List Nat}
    (h : digits.foldl (fun n d => n * 10 + d) n ≤ 18446744073709551615) :
    absorb n digits = (digits.foldl (fun n d => n * 10 + d) n, 0) := by
  induction digits generalizing n with
  | nil => rfl
  | cons d digits ih =>
      rw [List.foldl_cons] at h ⊢
      have hfirst := le_foldl_digits (n * 10 + d) digits
      rw [absorb, if_pos (by omega), ih h]

theorem foldl_toDigits (n : Nat) :
    ((Nat.toDigits 10 n).map digitValue).foldl (fun n d => n * 10 + d) 0 = n := by
  conv_rhs => rw [← Nat.ofDigitChars_ten_toDigits (n := n)]
  rw [List.foldl_map, Nat.ofDigitChars_eq_foldl]
  simp only [digitValue, Nat.mul_comm]

theorem absorb_toDigits {n : Nat} (hn : n ≤ 18446744073709551615) :
    absorb 0 ((Nat.toDigits 10 n).map digitValue) = (n, 0) := by
  have hfit := absorb_eq (n := 0) ((foldl_toDigits n).symm ▸ hn)
  rw [hfit, foldl_toDigits]

/-- The sign of a numeral. -/
def signText (negative : Bool) : List Char := if negative then ['-'] else []

theorem eq_of_mem_signText {negative : Bool} {c : Char} (h : c ∈ signText negative) : c = '-' := by
  cases negative with
  | true => simpa [signText] using h
  | false => cases h

/-- A sign and the digits of a number are read as a numeral without fraction and exponent. -/
theorem read_append (h : EndsNumeral rest) (negative : Bool) (n : Nat) :
    read (signText negative ++ Nat.toDigits 10 n ++ rest) =
      .ok (⟨negative, (Nat.toDigits 10 n).map digitValue, none, none⟩,
        (signText negative ++ Nat.toDigits 10 n).length) := by
  have hsign : (signText negative ++ Nat.toDigits 10 n ++ rest).head? = some '-' ↔
      negative = true := by
    cases negative with
    | true => simp [signText]
    | false =>
        obtain ⟨c, cs, hdigits, hc⟩ := exists_toDigits_eq_cons n
        have hne : c ≠ '-' := by
          rintro rfl
          cases hc
        simp [signText, hdigits, hne]
  have hwidth : (if negative = true then 1 else 0) = (signText negative).length := by
    cases negative <;> rfl
  unfold read
  simp only [hsign, hwidth, Bool.decide_eq_true]
  rw [List.append_assoc, List.drop_left, h.readWhole]
  simp only [bind, Except.bind, List.length_map]
  rw [← List.append_assoc, ← List.length_append, List.drop_left, h.readFraction]
  simp only [Option.elim_none, Nat.add_zero, List.drop_left, h.readExponent]
  rfl

/-- Digits without a sign are an integer if they fit 64 bits. -/
theorem value_digits {n : Nat} (hn : n ≤ 18446744073709551615) :
    value ⟨false, (Nat.toDigits 10 n).map digitValue, none, none⟩ = .ok (.int n) := by
  rw [value, absorb_toDigits hn]
  rfl

/-- Behind a sign they are one if they fit the signed range; a negative zero is a float. -/
theorem value_minus {n : Nat} (hpos : 0 < n) (hn : n ≤ 9223372036854775808) :
    value ⟨true, (Nat.toDigits 10 n).map digitValue, none, none⟩ = .ok (.int (-n)) := by
  have hfit : n ≤ 18446744073709551615 := by omega
  have hkept : ¬(decide (n = 0) || decide (9223372036854775808 < n)) = true := by
    simp only [Bool.or_eq_true, decide_eq_true_eq]
    omega
  rw [value, absorb_toDigits hfit]
  exact if_neg hkept

end Numeral

/-- The text of an integer is its sign and the digits of its absolute value. -/
theorem toList_text_int (n : Int) :
    (Number.int n).text.toList = Numeral.signText (n < 0) ++ Nat.toDigits 10 n.natAbs := by
  rw [Number.text, Int.toString_eq_repr, Int.repr_eq_if]
  split
  · rename_i h
    have habs : n.natAbs = n.toNat := by omega
    have hsign : decide (n < 0) = false := by simpa using h
    rw [hsign, habs, Nat.repr_eq_ofList_toDigits, String.toList_ofList]
    rfl
  · rename_i h
    have habs : n.natAbs = (-n).toNat := by omega
    have hsign : decide (n < 0) = true := by simpa using h
    rw [hsign, habs, Nat.repr_eq_ofList_toDigits, String.toList_append]
    simp [Numeral.signText]

theorem readToken_of_numeral {c : Char} {cs : List Char} {numeral : Numeral} {n : Number}
    {count : Nat} (hc : c = '-' ∨ c.isDigit = true)
    (hread : Numeral.read (c :: cs) = .ok (numeral, count)) (hvalue : numeral.value = .ok n) :
    readToken c cs = (.num n, count) := by
  have hne (d : Char) (hminus : d ≠ '-') (hd : d.isDigit = false) : c ≠ d := by
    rintro rfl
    rcases hc with hc | hc
    · exact hminus hc
    · rw [hd] at hc
      cases hc
  -- So the first character begins none of the other tokens.
  unfold readToken
  simp [hne, hc, hread, hvalue]

/-! ## Tokens -/

/-- Scanning goes on after the characters that have been read. -/
theorem scanFrom_append (read rest : List Char) :
    scanFrom read.length (read ++ rest) = scan rest := by
  induction read with
  | nil => rfl
  | cons c read ih => rw [List.length_cons, List.cons_append, scanFrom, ih]

theorem scan_of_readToken {c : Char} (cs : List Char) {t : Token} (hblank : isBlank c = false)
    (h : readToken c (cs ++ rest) = (t, cs.length + 1)) :
    scan (c :: cs ++ rest) = t :: scan rest := by
  rw [List.cons_append, scan, scanFrom, hblank, if_neg Bool.false_ne_true, h]
  exact congrArg (t :: ·) (scanFrom_append cs rest)

/-- The token ends where its text ends, whatever comes next. -/
def Token.isClosed : Token → Bool
  | .num _ | .badString _ | .bad _ => false
  | _ => true

theorem readToken_quote (cs : List Char) :
    readToken '"' (cs.flatMap escapeChar ++ ['"'] ++ rest) =
      (.str (String.ofList cs), (cs.flatMap escapeChar ++ ['"']).length + 1) := by
  have hread : readString 0 (cs.flatMap escapeChar ++ ['"'] ++ rest) =
      .ok (cs, (cs.flatMap escapeChar ++ ['"']).length) := by
    rw [List.append_assoc, List.length_append]
    exact readString_flatMap_escapeChar cs
  simp only [readToken, hread]
  rfl

/-- A closed token is read from its text. -/
theorem scan_of_isClosed {t : Token} (ht : t.isClosed = true) (rest : List Char) :
    scan (t.text.toList ++ rest) = t :: scan rest := by
  cases t with
  | openArray => exact scan_of_readToken [] rfl rfl
  | closeArray => exact scan_of_readToken [] rfl rfl
  | openObject => exact scan_of_readToken [] rfl rfl
  | closeObject => exact scan_of_readToken [] rfl rfl
  | comma => exact scan_of_readToken [] rfl rfl
  | colon => exact scan_of_readToken [] rfl rfl
  | null => exact scan_of_readToken ['u', 'l', 'l'] rfl rfl
  | bool b =>
      cases b with
      | true => exact scan_of_readToken ['r', 'u', 'e'] rfl rfl
      | false => exact scan_of_readToken ['a', 'l', 's', 'e'] rfl rfl
  | str s =>
      have htext : (Token.str s).text.toList =
          '"' :: (s.toList.flatMap escapeChar ++ ['"']) := by
        simp [Token.text, quote]
      rw [htext]
      refine (scan_of_readToken _ rfl (readToken_quote s.toList)).trans ?_
      rw [String.ofList_toList]
  | num n => cases ht
  | badString e => cases ht
  | bad e => cases ht

/-- An integer of 64 bits is read from its text, if no more of a numeral follows. -/
theorem scan_int {n : Int} (hlow : -9223372036854775808 ≤ n) (hhigh : n ≤ 18446744073709551615)
    (h : EndsNumeral rest) :
    scan ((Number.int n).text.toList ++ rest) = .num (.int n) :: scan rest := by
  have hread := Numeral.read_append h (n < 0) n.natAbs
  have hvalue : Numeral.value ⟨n < 0, (Nat.toDigits 10 n.natAbs).map digitValue, none, none⟩ =
      .ok (.int n) := by
    by_cases hn : n < 0
    · have habs : -(n.natAbs : Int) = n := by omega
      rw [decide_eq_true hn, Numeral.value_minus (by omega) (by omega), habs]
    · have habs : (n.natAbs : Int) = n := by omega
      rw [decide_eq_false hn, Numeral.value_digits (by omega), habs]
  rw [toList_text_int]
  obtain ⟨c, cs, htext⟩ : ∃ c cs, Numeral.signText (n < 0) ++ Nat.toDigits 10 n.natAbs = c :: cs :=
    List.exists_cons_of_ne_nil (by simp [Nat.toDigits_ne_nil])
  have hc : c = '-' ∨ c.isDigit = true := by
    have hmem : c ∈ Numeral.signText (n < 0) ++ Nat.toDigits 10 n.natAbs := by simp [htext]
    rcases List.mem_append.1 hmem with hmem | hmem
    · exact .inl (Numeral.eq_of_mem_signText hmem)
    · exact .inr (isDigit_of_mem_toDigits hmem)
  have hblank : isBlank c = false := by
    rcases hc with rfl | hc
    · rfl
    · simp only [isBlank, Bool.or_eq_false_iff, decide_eq_false_iff_not]
      refine ⟨⟨⟨?_, ?_⟩, ?_⟩, ?_⟩ <;> rintro rfl <;> cases hc
  rw [htext] at hread ⊢
  exact scan_of_readToken cs hblank (readToken_of_numeral hc hread hvalue)

end AnswerSet.Json
