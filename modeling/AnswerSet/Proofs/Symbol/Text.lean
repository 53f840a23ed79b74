import AnswerSet.Proofs.Json.Lexer
import AnswerSet.Proofs.Text.Quoted
import AnswerSet.Symbol.Basic

/-!
# The text of a ground symbol

If all functions of a symbol are tuples or have identifiers for names, then its text shows
where it ends: within a list of arguments a comma or a parenthesis follows, and neither can
continue a number, a name or the arguments of a function. So the text of a symbol, with
whatever may follow it, is the text of no other symbol.

The first character behind the sign tells numbers, strings, named functions, tuples and the
two bounds apart. A minus sign stands in front of a number or of a function; the character
behind it shows which. Strings end at their closing quote, whatever they hold. The comma behind
the only member of a tuple cannot be taken for one between members, because no symbol begins
with a parenthesis that closes.
-/

namespace AnswerSet

open Json (isDigit_of_mem_toDigits exists_toDigits_eq_cons)
open Json.Numeral (signText)

/-! ## Texts -/

theorem toList_joinWith_cons (separator text : String) (rest : List String) :
    (joinWith separator (text :: rest)).toList =
      text.toList ++ rest.flatMap fun next => separator.toList ++ next.toList := by
  induction rest generalizing text with
  | nil => rw [joinWith_singleton, List.flatMap_nil, List.append_nil]
  | cons next rest ih =>
      rw [joinWith_cons_cons, String.toList_append, String.toList_append, ih, List.flatMap_cons,
        List.append_assoc, List.append_assoc]

/-- A longest stretch of characters of one class is determined by the text. -/
theorem append_inj_of_class {p : Char → Bool} {cs ds rest rest' : List Char}
    (hcs : ∀ c ∈ cs, p c = true) (hds : ∀ d ∈ ds, p d = true)
    (hrest : ∀ c ∈ rest.head?, p c = false) (hrest' : ∀ c ∈ rest'.head?, p c = false)
    (h : cs ++ rest = ds ++ rest') : cs = ds ∧ rest = rest' := by
  have hstretch {cs rest : List Char} (hcs : ∀ c ∈ cs, p c = true)
      (hrest : ∀ c ∈ rest.head?, p c = false) : (cs ++ rest).takeWhile p = cs := by
    rw [List.takeWhile_append_of_pos hcs]
    cases rest with
    | nil => rw [List.takeWhile_nil, List.append_nil]
    | cons c rest => rw [List.takeWhile_cons_of_neg (by simp [hrest c rfl]), List.append_nil]
  have heq : cs = ds := by rw [← hstretch hcs hrest, h, hstretch hds hrest']
  subst heq
  exact ⟨rfl, List.append_cancel_left h⟩

namespace Symbol

variable {a b : Symbol} {rest rest' : List Char}

/-! ## Names -/

/-- Induction over a symbol: a property of all arguments of a function carries over to the
function. -/
theorem induct {motive : Symbol → Prop} (infimum : motive .infimum)
    (number : ∀ n, motive (.number n)) (string : ∀ s, motive (.string s))
    (function : ∀ name arguments positive, (∀ a ∈ arguments, motive a) →
      motive (.function name arguments positive))
    (supremum : motive .supremum) (a : Symbol) : motive a := by
  apply @Symbol.rec motive (fun as => ∀ a ∈ as, motive a) infimum number string function supremum
  · intro a ha
    cases ha
  · intro a as ha has
    exact List.forall_mem_cons.2 ⟨ha, has⟩

mutual

/-- The names of all functions in a symbol. -/
def names : Symbol → List String
  | .function name arguments _ => name :: namesAll arguments
  | _ => []

/-- The names of all functions in some symbols. -/
def namesAll : List Symbol → List String
  | [] => []
  | a :: as => names a ++ namesAll as

end

theorem namesAll_eq_flatMap (as : List Symbol) : namesAll as = as.flatMap names := by
  induction as with
  | nil => rfl
  | cons a as ih => rw [namesAll, ih, List.flatMap_cons]

/-- A property of all names in a function is one of its name and of all names in its
arguments. -/
theorem forall_names_function {p : String → Prop} {name : String} {arguments : List Symbol}
    {positive : Bool} : (∀ n ∈ (function name arguments positive).names, p n) ↔
      p name ∧ ∀ a ∈ arguments, ∀ n ∈ a.names, p n := by
  rw [names, namesAll_eq_flatMap, List.forall_mem_cons, List.forall_mem_flatMap]

/-- A letter, a digit or an underscore. -/
def isNameChar (c : Char) : Bool := c.isAlphanum || c = '_'

/-- A small letter followed by letters, digits and underscores. -/
def isIdentifier (name : String) : Bool :=
  match name.toList with
  | [] => false
  | c :: cs => c.isLower && cs.all isNameChar

/-- All functions in the symbol are tuples or have identifiers for names. -/
def Named (a : Symbol) : Prop := ∀ name ∈ a.names, name = "" ∨ isIdentifier name = true

instance (a : Symbol) : Decidable a.Named :=
  inferInstanceAs (Decidable (∀ name ∈ a.names, _))

theorem exists_of_isIdentifier {name : String} (h : isIdentifier name = true) :
    ∃ c cs, name.toList = c :: cs ∧ c.isLower = true ∧ ∀ d ∈ cs, isNameChar d = true := by
  unfold isIdentifier at h
  split at h
  · cases h
  · rename_i c cs hname
    rw [Bool.and_eq_true, List.all_eq_true] at h
    exact ⟨c, cs, hname, h⟩

theorem isNameChar_of_isLower {c : Char} (h : c.isLower = true) : isNameChar c = true := by
  show (c.isUpper || c.isLower || c.isDigit || c = '_') = true
  rw [h, Bool.or_true, Bool.true_or, Bool.true_or]

theorem isNameChar_of_mem {name : String} (h : name = "" ∨ isIdentifier name = true) :
    ∀ c ∈ name.toList, isNameChar c = true := by
  rcases h with rfl | h
  · intro c hc
    cases hc
  · obtain ⟨c, cs, hname, hc, hcs⟩ := exists_of_isIdentifier h
    rw [hname]
    exact List.forall_mem_cons.2 ⟨isNameChar_of_isLower hc, hcs⟩

/-! ## The parts of a text -/

theorem toList_text_number (n : Int32) : (number n).text.toList =
    signText (n.toInt < 0) ++ Nat.toDigits 10 n.toInt.natAbs :=
  Json.toList_text_int n.toInt

theorem toList_text_string (s : String) : (string s).text.toList =
    '"' :: (Quoted.escape s.toList ++ ['"']) :=
  Quoted.toList_quote s

theorem toList_text_function (name : String) (arguments : List Symbol) (positive : Bool) :
    (function name arguments positive).text.toList = signText (!positive) ++
      (name.toList ++ (argumentText name (arguments.map text)).toList) := by
  rw [text, texts_eq_map, String.toList_append, String.toList_append, List.append_assoc]
  cases positive <;> rfl

/-- Symbols with commas between them. -/
def listed (as : List Symbol) : List Char := (joinWith "," (as.map text)).toList

theorem listed_cons (a : Symbol) (as : List Symbol) :
    listed (a :: as) = a.text.toList ++ as.flatMap fun b => ',' :: b.text.toList := by
  rw [listed, List.map_cons, toList_joinWith_cons, List.flatMap_map]
  rfl

/-- What stands behind the arguments of a function. -/
def closing (name : String) (arguments : List Symbol) : List Char :=
  if name.isEmpty && arguments.length == 1 then [',', ')'] else [')']

/-- Constants have no argument list, tuples always do. -/
theorem toList_argumentText (name : String) (arguments : List Symbol) :
    (argumentText name (arguments.map text)).toList =
      if arguments.isEmpty && !name.isEmpty then []
      else '(' :: (listed arguments ++ closing name arguments) := by
  rw [argumentText, List.isEmpty_map, List.length_map]
  split
  · rfl
  · rw [String.toList_append, String.toList_append, String.toList_append, listed, closing]
    split <;> simp

/-! ## The beginning of a text -/

/-- What can stand at the beginning of a symbol, behind its sign. -/
inductive Lead where
  | hash
  | digit
  | quote
  | letterOrParenthesis

/-- What the character is as the beginning of a symbol. -/
def Lead.ofChar? (c : Char) : Option Lead :=
  if c = '#' then some .hash
  else if c = '"' then some .quote
  else if c.isDigit then some .digit
  else if c.isLower || c = '(' then some .letterOrParenthesis
  else none

theorem Lead.ofChar?_digit {c : Char} (h : c.isDigit = true) : ofChar? c = some .digit := by
  have hhash : c ≠ '#' := by
    rintro rfl
    cases h
  have hquote : c ≠ '"' := by
    rintro rfl
    cases h
  rw [ofChar?, if_neg hhash, if_neg hquote, if_pos h]

theorem Lead.ofChar?_letter {c : Char} (h : c.isLower = true) :
    ofChar? c = some .letterOrParenthesis := by
  have hhash : c ≠ '#' := by
    rintro rfl
    cases h
  have hquote : c ≠ '"' := by
    rintro rfl
    cases h
  have hdigit : ¬c.isDigit = true := by
    intro hdigit
    have hge : 'a'.val ≤ c.val := of_decide_eq_true (Bool.and_eq_true_iff.1 h).1
    have hle : c.val ≤ '9'.val := of_decide_eq_true (Bool.and_eq_true_iff.1 hdigit).2
    exact absurd (UInt32.le_trans hge hle) (by decide)
  rw [ofChar?, if_neg hhash, if_neg hquote, if_neg hdigit, if_pos (by rw [h]; rfl)]

/-- The symbol has a minus sign. -/
def isNegative : Symbol → Bool
  | .number n => n.toInt < 0
  | .function _ _ positive => !positive
  | _ => false

/-- What the symbol begins with behind its sign. -/
def lead : Symbol → Lead
  | .infimum | .supremum => .hash
  | .number _ => .digit
  | .string _ => .quote
  | .function _ _ _ => .letterOrParenthesis

theorem exists_text_eq (ha : a.Named) : ∃ c cs,
    a.text.toList = signText a.isNegative ++ c :: cs ∧ Lead.ofChar? c = some a.lead := by
  cases a with
  | infimum => exact ⟨'#', ['i', 'n', 'f'], rfl, rfl⟩
  | supremum => exact ⟨'#', ['s', 'u', 'p'], rfl, rfl⟩
  | string s => exact ⟨'"', _, toList_text_string s, rfl⟩
  | number n =>
      obtain ⟨c, cs, hdigits, hc⟩ := exists_toDigits_eq_cons n.toInt.natAbs
      refine ⟨c, cs, ?_, Lead.ofChar?_digit hc⟩
      rw [toList_text_number, hdigits]
      rfl
  | function name arguments positive =>
      rw [toList_text_function]
      rcases (forall_names_function.1 ha).1 with rfl | hname
      · rw [toList_argumentText, if_neg (by simp)]
        exact ⟨'(', _, rfl, rfl⟩
      · obtain ⟨c, cs, hcs, hc, -⟩ := exists_of_isIdentifier hname
        rw [hcs, List.cons_append]
        exact ⟨c, _, rfl, Lead.ofChar?_letter hc⟩

/-- Texts that begin alike have the same sign and the same character behind it. -/
theorem lead_eq_of_append_eq (ha : a.Named) (hb : b.Named)
    (h : a.text.toList ++ rest = b.text.toList ++ rest') :
    a.isNegative = b.isNegative ∧ a.lead = b.lead := by
  obtain ⟨c, cs, hac, hc⟩ := exists_text_eq ha
  obtain ⟨d, ds, hbd, hd⟩ := exists_text_eq hb
  have hne {c : Char} {l : Lead} (hc : Lead.ofChar? c = some l) : c ≠ '-' := by
    rintro rfl
    cases hc
  have hsame (hcd : c = d) : a.lead = b.lead := by
    rw [hcd] at hc
    exact Option.some.inj (hc.symm.trans hd)
  rw [hac, hbd] at h
  cases hsa : a.isNegative <;> cases hsb : b.isNegative <;> rw [hsa, hsb] at h
  · exact ⟨rfl, hsame (List.cons.inj h).1⟩
  · exact absurd (List.cons.inj h).1 (hne hc)
  · exact absurd (List.cons.inj h).1.symm (hne hd)
  · exact ⟨rfl, hsame (List.cons.inj (List.cons.inj h).2).1⟩

/-- No symbol begins with a parenthesis that closes. -/
theorem text_append_ne (ha : a.Named) (rest rest' : List Char) :
    a.text.toList ++ rest ≠ ')' :: rest' := by
  intro h
  obtain ⟨c, cs, hac, hc⟩ := exists_text_eq ha
  rw [hac] at h
  cases hs : a.isNegative <;> rw [hs] at h
  · obtain rfl := (List.cons.inj h).1
    cases hc
  · cases (List.cons.inj h).1

/-! ## The end of a text -/

/-- Nothing follows, or what follows an argument. -/
def Delimited (rest : List Char) : Prop := ∀ c ∈ rest.head?, c = ',' ∨ c = ')'

theorem delimited_nil : Delimited [] := by
  intro c hc
  cases hc

theorem Delimited.of_class {p : Char → Bool} (h : Delimited rest) (hcomma : p ',' = false)
    (hclose : p ')' = false) : ∀ c ∈ rest.head?, p c = false := by
  intro c hc
  rcases h c hc with rfl | rfl
  · exact hcomma
  · exact hclose

theorem Delimited.ne_open (h : Delimited rest) (rest' : List Char) : rest ≠ '(' :: rest' := by
  rintro rfl
  rcases h '(' rfl with h | h <;> cases h

/-- The text of the symbol, with anything behind it that may follow an argument, is the text
of this symbol only. -/
def SelfDelimiting (a : Symbol) : Prop :=
  ∀ ⦃b : Symbol⦄, b.Named → ∀ ⦃rest rest' : List Char⦄, Delimited rest → Delimited rest' →
    a.text.toList ++ rest = b.text.toList ++ rest' → a = b ∧ rest = rest'

/-- The two bounds differ in the character behind the first. -/
theorem selfDelimiting_bound (ha : a = .infimum ∨ a = .supremum) : SelfDelimiting a := by
  intro b hb rest rest' _ _ h
  have hnamed : a.Named := by
    rcases ha with rfl | rfl <;> decide
  have hlead := (lead_eq_of_append_eq hnamed hb h).2
  rcases ha with rfl | rfl
  · cases b with
    | infimum => exact ⟨rfl, List.append_cancel_left h⟩
    | supremum => cases (List.cons.inj (List.cons.inj h).2).1
    | _ => cases hlead
  · cases b with
    | infimum => cases (List.cons.inj (List.cons.inj h).2).1
    | supremum => exact ⟨rfl, List.append_cancel_left h⟩
    | _ => cases hlead

theorem selfDelimiting_string (s : String) : SelfDelimiting (.string s) := by
  intro b hb rest rest' _ _ h
  have hlead := (lead_eq_of_append_eq (a := .string s) (by simp [Named, names]) hb h).2
  cases b with
  | string t =>
      rw [toList_text_string, toList_text_string, List.cons_append, List.cons_append,
        List.append_assoc, List.append_assoc] at h
      obtain ⟨hs, hrest⟩ := Quoted.escape_append_inj (List.cons.inj h).2
      exact ⟨by rw [String.toList_inj.1 hs], hrest⟩
  | _ => cases hlead

theorem selfDelimiting_number (n : Int32) : SelfDelimiting (.number n) := by
  intro b hb rest rest' hrest hrest' h
  obtain ⟨hsign, hlead⟩ := lead_eq_of_append_eq (a := .number n) (by simp [Named, names]) hb h
  cases b with
  | number m =>
      rw [isNegative, isNegative] at hsign
      rw [toList_text_number, toList_text_number, hsign, List.append_assoc, List.append_assoc] at h
      obtain ⟨hdigits, hrest⟩ := append_inj_of_class (fun _ => isDigit_of_mem_toDigits)
        (fun _ => isDigit_of_mem_toDigits) (hrest.of_class rfl rfl) (hrest'.of_class rfl rfl)
        (List.append_cancel_left h)
      have habs : n.toInt.natAbs = m.toInt.natAbs := by
        rw [← Nat.ofDigitChars_ten_toDigits (n := n.toInt.natAbs), hdigits,
          Nat.ofDigitChars_ten_toDigits]
      have hint : n.toInt = m.toInt := by
        rw [decide_eq_decide] at hsign
        omega
      exact ⟨by rw [Int32.toInt_inj.1 hint], hrest⟩
  | _ => cases hlead

/-! ### Functions -/

/-- The text ends a list of arguments. -/
def Closes (e : List Char) : Prop := e = [')'] ∨ e = [',', ')']

theorem closes_closing (name : String) (arguments : List Symbol) :
    Closes (closing name arguments) := by
  unfold closing
  split
  · exact .inr rfl
  · exact .inl rfl

section Arguments

variable {e e' : List Char} {as bs : List Symbol}

/-- Where a list of arguments ends, no other argument is read. -/
theorem Closes.append_ne (he : Closes e) (hb : b.Named) (rest rest' : List Char) :
    e ++ rest ≠ ',' :: b.text.toList ++ rest' := by
  intro h
  rcases he with rfl | rfl
  · cases (List.cons.inj h).1
  · exact text_append_ne hb rest' rest (List.cons.inj h).2.symm

theorem Closes.append_inj (he : Closes e) (he' : Closes e') (h : e ++ rest = e' ++ rest') :
    rest = rest' := by
  rcases he with rfl | rfl <;> rcases he' with rfl | rfl
  · exact List.append_cancel_left h
  · cases (List.cons.inj h).1
  · cases (List.cons.inj h).1
  · exact List.append_cancel_left h

theorem Closes.delimited (he : Closes e) (as : List Symbol) (rest : List Char) :
    Delimited ((as.flatMap fun a => ',' :: a.text.toList) ++ (e ++ rest)) := by
  intro c hc
  cases as with
  | cons a as =>
      cases hc
      exact .inl rfl
  | nil =>
      rcases he with rfl | rfl <;> cases hc
      · exact .inr rfl
      · exact .inl rfl

/-- Further arguments are determined by their text. -/
theorem furtherArguments_inj (hself : ∀ a ∈ as, a.SelfDelimiting) (has : ∀ a ∈ as, a.Named)
    (hbs : ∀ b ∈ bs, b.Named) (he : Closes e) (he' : Closes e')
    (h : (as.flatMap fun a => ',' :: a.text.toList) ++ (e ++ rest) =
      (bs.flatMap fun b => ',' :: b.text.toList) ++ (e' ++ rest')) : as = bs ∧ rest = rest' := by
  induction as generalizing bs with
  | nil =>
      cases bs with
      | nil => exact ⟨rfl, he.append_inj he' h⟩
      | cons b bs =>
          rw [List.flatMap_cons, List.append_assoc] at h
          exact absurd h (he.append_ne (hbs b List.mem_cons_self) rest _)
  | cons a as ih =>
      rw [List.flatMap_cons, List.append_assoc] at h
      cases bs with
      | nil => exact absurd h.symm (he'.append_ne (has a List.mem_cons_self) rest' _)
      | cons b bs =>
          rw [List.flatMap_cons, List.append_assoc] at h
          obtain ⟨hab, hnext⟩ := hself a List.mem_cons_self (hbs b List.mem_cons_self)
            (he.delimited as rest) (he'.delimited bs rest') (List.cons.inj h).2
          obtain ⟨hasbs, hrest⟩ := ih (fun c hc => hself c (List.mem_cons_of_mem a hc))
            (fun c hc => has c (List.mem_cons_of_mem a hc))
            (fun c hc => hbs c (List.mem_cons_of_mem b hc)) hnext
          exact ⟨by rw [hab, hasbs], hrest⟩

/-- The arguments between parentheses are determined by their text. -/
theorem listed_append_inj (hself : ∀ a ∈ as, a.SelfDelimiting) (has : ∀ a ∈ as, a.Named)
    (hbs : ∀ b ∈ bs, b.Named) {name name' : String}
    (h : listed as ++ (closing name as ++ rest) = listed bs ++ (closing name' bs ++ rest')) :
    as = bs ∧ rest = rest' := by
  have he : Closes (closing name as) := closes_closing name as
  have he' : Closes (closing name' bs) := closes_closing name' bs
  have hnil {name : String} : closing name [] = [')'] := by simp [closing]
  cases as with
  | nil =>
      cases bs with
      | nil => exact ⟨rfl, he.append_inj he' h⟩
      | cons b bs =>
          rw [hnil, listed_cons, List.append_assoc] at h
          exact absurd h.symm (text_append_ne (hbs b List.mem_cons_self) _ rest)
  | cons a as =>
      rw [listed_cons, List.append_assoc] at h
      cases bs with
      | nil =>
          rw [hnil] at h
          exact absurd h (text_append_ne (has a List.mem_cons_self) _ rest')
      | cons b bs =>
          rw [listed_cons, List.append_assoc] at h
          obtain ⟨hab, hnext⟩ := hself a List.mem_cons_self (hbs b List.mem_cons_self)
            (he.delimited as rest) (he'.delimited bs rest') h
          obtain ⟨hasbs, hrest⟩ := furtherArguments_inj
            (fun c hc => hself c (List.mem_cons_of_mem a hc))
            (fun c hc => has c (List.mem_cons_of_mem a hc))
            (fun c hc => hbs c (List.mem_cons_of_mem b hc)) he he' hnext
          exact ⟨by rw [hab, hasbs], hrest⟩

theorem argumentText_append_inj (hself : ∀ a ∈ as, a.SelfDelimiting) (has : ∀ a ∈ as, a.Named)
    (hbs : ∀ b ∈ bs, b.Named) (hrest : Delimited rest) (hrest' : Delimited rest') {name : String}
    (h : (argumentText name (as.map text)).toList ++ rest =
      (argumentText name (bs.map text)).toList ++ rest') : as = bs ∧ rest = rest' := by
  rw [toList_argumentText, toList_argumentText] at h
  split_ifs at h with hnone hnone' hnone'
  · rw [Bool.and_eq_true, List.isEmpty_iff] at hnone hnone'
    exact ⟨hnone.1.trans hnone'.1.symm, h⟩
  · exact absurd h (hrest.ne_open _)
  · exact absurd h.symm (hrest'.ne_open _)
  · rw [List.cons_append, List.cons_append, List.append_assoc, List.append_assoc] at h
    exact listed_append_inj hself has hbs (List.cons.inj h).2

/-- What follows a name cannot continue it. -/
theorem argumentText_ends_name (name : String) (arguments : List Symbol) (hrest : Delimited rest) :
    ∀ c ∈ ((argumentText name (arguments.map text)).toList ++ rest).head?,
      isNameChar c = false := by
  rw [toList_argumentText]
  split
  · exact hrest.of_class rfl rfl
  · intro c hc
    cases hc
    rfl

end Arguments

theorem selfDelimiting_function {name : String} {arguments : List Symbol} {positive : Bool}
    (hself : ∀ a ∈ arguments, a.SelfDelimiting)
    (hnamed : (function name arguments positive).Named) :
    SelfDelimiting (.function name arguments positive) := by
  intro b hb rest rest' hrest hrest' h
  obtain ⟨hsign, hlead⟩ := lead_eq_of_append_eq hnamed hb h
  cases b with
  | function name' arguments' positive' =>
      obtain ⟨hname, harguments⟩ := forall_names_function.1 hnamed
      obtain ⟨hname', harguments'⟩ := forall_names_function.1 hb
      rw [isNegative, isNegative] at hsign
      rw [toList_text_function, toList_text_function, hsign, List.append_assoc, List.append_assoc,
        List.append_assoc, List.append_assoc] at h
      obtain ⟨hnames, htexts⟩ := append_inj_of_class (isNameChar_of_mem hname)
        (isNameChar_of_mem hname') (argumentText_ends_name name arguments hrest)
        (argumentText_ends_name name' arguments' hrest') (List.append_cancel_left h)
      obtain rfl := String.toList_inj.1 hnames
      obtain ⟨rfl, rfl⟩ := argumentText_append_inj hself harguments harguments' hrest hrest' htexts
      exact ⟨by rw [Bool.not_inj hsign], rfl⟩
  | _ => cases hlead

/-- Symbols whose functions are tuples or have identifiers for names delimit themselves. -/
theorem Named.selfDelimiting (ha : a.Named) : SelfDelimiting a := by
  induction a using induct with
  | infimum => exact selfDelimiting_bound (.inl rfl)
  | number n => exact selfDelimiting_number n
  | string s => exact selfDelimiting_string s
  | function name arguments positive ih =>
      have harguments := (forall_names_function.1 ha).2
      exact selfDelimiting_function (fun a hmem => ih a hmem (harguments a hmem)) ha
  | supremum => exact selfDelimiting_bound (.inr rfl)

end Symbol

/-- Symbols with proper names print alike only if they are the same. -/
theorem symbol_text_is_unambiguous {a b : Symbol} (ha : a.Named) (hb : b.Named) :
    a.text = b.text ↔ a.same b = true := by
  rw [Symbol.same_iff_eq]
  constructor
  · intro h
    exact (ha.selfDelimiting hb Symbol.delimited_nil Symbol.delimited_nil
      (by rw [h])).1
  · intro h
    rw [h]

theorem symbol_text_is_unambiguous_tuples :
    let a := Symbol.function "f" [.tuple [.string "\",\""], .number (-1)] false
    let b := Symbol.function "f" [.tuple [.string "", .string ""], .number (-1)] false
    a.Named ∧ b.Named ∧ a.text ≠ b.text := by
  intro a b
  have ha : a.Named := by decide
  have hb : b.Named := by decide
  refine ⟨ha, hb, ?_⟩
  intro h
  exact absurd ((symbol_text_is_unambiguous ha hb).1 h) (by decide)

end AnswerSet
