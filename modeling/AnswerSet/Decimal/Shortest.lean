/-!
# The fewest digits that read back

A finite binary number is `mantissa * 2 ^ exponent`. The decimals that round to
it form an interval around it. Among the decimals of one digit, of two digits
and so on, the first grid that meets the interval gives the written digits, and
of two grid points inside the interval the nearer one. All arithmetic is exact.
-/

namespace AnswerSet.Decimal

/-- A positive decimal `digits * 10 ^ exponent`. -/
structure Scientific where
  digits : Nat
  exponent : Int
  deriving DecidableEq, Repr

/-- A positive binary number with the interval of numbers that round to it, over
one denominator. The ends belong to the interval iff `closed`. -/
structure Interval where
  low : Nat
  value : Nat
  high : Nat
  denominator : Nat
  closed : Bool
  deriving DecidableEq, Repr

/-- The interval of a binary64 number given by its bits without the sign. -/
def Interval.ofBits (bits : UInt64) : Interval :=
  let fraction := (bits &&& 0xFFFFFFFFFFFFF).toNat
  let biased := ((bits >>> 52) &&& 0x7FF).toNat
  let mantissa := if biased = 0 then fraction else fraction + 4503599627370496
  let exponent : Int := (if biased = 0 then 1 else biased : Nat) - 1077
  let below := if fraction = 0 && 1 < biased then 1 else 2
  let up := Nat.pow 2 exponent.toNat
  { low := (4 * mantissa - below) * up
    value := 4 * mantissa * up
    high := (4 * mantissa + 2) * up
    denominator := Nat.pow 2 (-exponent).toNat
    closed := mantissa % 2 = 0 }

/-- The exponent of the leading decimal digit of `n / d`. -/
def leadingExponent (n d : Nat) : Int :=
  if d ≤ n then (((n / d).repr.length - 1 : Nat) : Int)
  else
    match (List.range 400).find? fun j => d ≤ n * Nat.pow 10 j with
    | some j => -(j : Int)
    | none => 0

namespace Interval

/-- The point `digits * 10 ^ exponent` rounds to the number of the interval. -/
def contains (i : Interval) (digits : Nat) (exponent : Int) : Bool :=
  let point := digits * i.denominator * Nat.pow 10 exponent.toNat
  let scale := Nat.pow 10 (-exponent).toNat
  if i.closed then i.low * scale ≤ point && point ≤ i.high * scale
  else i.low * scale < point && point < i.high * scale

/-- The grid point of `count` digits that rounds to the number, if there is
one. Of two such points the nearer is taken, and the even one if both are
equally near. A point past the last one of `count` digits is a power of ten. -/
def onGrid (i : Interval) (lead : Int) (count : Nat) : Option Scientific :=
  let exponent := lead - (count : Int) + 1
  let numerator := i.value * Nat.pow 10 (-exponent).toNat
  let denominator := i.denominator * Nat.pow 10 exponent.toNat
  let below := numerator / denominator
  let rest := numerator % denominator
  let lowHit := 0 < below && i.contains below exponent
  let highHit := i.contains (below + 1) exponent
  let above : Scientific :=
    if below + 1 = Nat.pow 10 count then ⟨Nat.pow 10 (count - 1), exponent + 1⟩
    else ⟨below + 1, exponent⟩
  let nearer := denominator < 2 * rest || (denominator = 2 * rest && below % 2 = 1)
  if highHit && (nearer || !lowHit) then some above
  else if lowHit then some ⟨below, exponent⟩
  else none

/-- The shortest decimal of the interval; seventeen digits always suffice. -/
def shortest (i : Interval) : Scientific :=
  let lead := leadingExponent i.value i.denominator
  match (List.range 17).findSome? fun n => i.onGrid lead (n + 1) with
  | some s => s
  | none => ⟨i.value, 0⟩

end Interval

/-- How digits and exponent become text. -/
structure Style where
  /-- Least exponent of the leading digit that is written positionally. -/
  leastPositional : Int
  /-- Greatest exponent of the leading digit that is written positionally. -/
  greatestPositional : Int

/-- Positional text for numbers of everyday size, a marked exponent otherwise.
Positional text always has a fraction, and an exponent always has a sign and no
leading zeros. -/
def Style.render (style : Style) (s : Scientific) : String :=
  let digits := s.digits.repr
  let count := digits.length
  let lead : Int := s.exponent + ((count - 1 : Nat) : Int)
  if style.leastPositional ≤ lead && lead ≤ style.greatestPositional then
    if 0 ≤ s.exponent then digits ++ String.ofList (List.replicate s.exponent.toNat '0') ++ ".0"
    else if 0 ≤ lead then
      let whole := lead.toNat + 1
      String.ofList (digits.toList.take whole) ++ "." ++ String.ofList (digits.toList.drop whole)
    else "0." ++ String.ofList (List.replicate ((-lead).toNat - 1) '0') ++ digits
  else
    let mantissa :=
      if count = 1 then digits
      else String.ofList (digits.toList.take 1) ++ "." ++ String.ofList (digits.toList.drop 1)
    let sign := if 0 ≤ lead then "+" else "-"
    mantissa ++ "e" ++ sign ++ lead.natAbs.repr

/-- Numbers between a hundred-thousandth and ten to the sixteenth are written
positionally. -/
def standard : Style := ⟨-5, 15⟩

/-- The shortest text of a finite number; both zeros keep their sign. -/
def text (x : Float) : String :=
  let bits := x.toBits
  let magnitude := bits &&& 0x7FFFFFFFFFFFFFFF
  let sign := if bits = magnitude then "" else "-"
  if magnitude = 0 then sign ++ "0.0"
  else sign ++ standard.render (Interval.ofBits magnitude).shortest

end AnswerSet.Decimal
