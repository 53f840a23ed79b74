import AnswerSet.Json.Basic
import AnswerSet.Json.Error

/-!
# Numerals

A numeral is read digit by digit into its parts and then given a value. Digits
fill a 64-bit significand for as long as it holds them; the digits after that
count only as powers of ten. A numeral without fraction and exponent that fits
64 bits is an integer, except that minus zero and integers below the signed
64-bit range are floating point numbers. The value of a fractional numeral is its
significand scaled by one power of ten.
-/

namespace AnswerSet.Json

/-- The parts of a numeral; a digit is given by its value. -/
structure Numeral where
  negative : Bool
  whole : List Nat
  fraction : Option (List Nat)
  /-- Whether the exponent is negative, and its digits. -/
  exponent : Option (Bool × List Nat)
  deriving DecidableEq, Repr

/-- The value of an ASCII digit. -/
def digitValue (c : Char) : Nat := c.toNat - '0'.toNat

/-- The digits at the beginning of a text. -/
def leadingDigits (cs : List Char) : List Nat :=
  (cs.takeWhile Char.isDigit).map digitValue

/-- The digits before the point. A zero stands alone. -/
def readWhole : List Char → Except ReadError (List Nat)
  | [] => .error .endInValue
  | c :: rest =>
      if c = '0' then
        if (leadingDigits rest).isEmpty then .ok [0] else .error .invalidNumber
      else if c.isDigit then .ok (leadingDigits (c :: rest))
      else .error .invalidNumber

/-- The digits after the point, if there is a point. -/
def readFraction : List Char → Except ReadError (Option (List Nat))
  | [] => .ok none
  | c :: rest =>
      if c = '.' then
        let digits := leadingDigits rest
        if !digits.isEmpty then .ok (some digits)
        else if rest.isEmpty then .error .endInValue
        else .error .invalidNumber
      else .ok none

/-- The sign of an exponent and the number of characters it takes. -/
def readExponentSign : List Char → Bool × Nat
  | [] => (false, 0)
  | c :: _ => if c = '-' then (true, 1) else if c = '+' then (false, 1) else (false, 0)

/-- The exponent and the number of characters it takes, if there is one. -/
def readExponent : List Char → Except ReadError (Option (Bool × List Nat) × Nat)
  | [] => .ok (none, 0)
  | c :: rest =>
      if c = 'e' || c = 'E' then
        let (negative, width) := readExponentSign rest
        let digits := leadingDigits (rest.drop width)
        if !digits.isEmpty then .ok (some (negative, digits), 1 + width + digits.length)
        else if (rest.drop width).isEmpty then .error .endInValue
        else .error .invalidNumber
      else .ok (none, 0)

namespace Numeral

/-- Reads the numeral at the beginning of a text and counts its characters. -/
def read (cs : List Char) : Except ReadError (Numeral × Nat) := do
  let negative := cs.head? = some '-'
  let signWidth := if negative then 1 else 0
  let whole ← readWhole (cs.drop signWidth)
  let afterWhole := signWidth + whole.length
  let fraction ← readFraction (cs.drop afterWhole)
  let afterFraction := afterWhole + fraction.elim 0 fun digits => digits.length + 1
  let (exponent, width) ← readExponent (cs.drop afterFraction)
  return ({ negative, whole, fraction, exponent }, afterFraction + width)

/-- Appends digits to a significand while it fits 64 bits. The result is the
significand and the number of digits left over. -/
def absorb (significand : Nat) : List Nat → Nat × Nat
  | [] => (significand, 0)
  | d :: ds =>
      if significand * 10 + d ≤ 18446744073709551615 then absorb (significand * 10 + d) ds
      else (significand, ds.length + 1)

/-- The binary64 number nearest to a power of ten. -/
def powerOfTen (n : Nat) : Float := Float.ofScientific 1 false n

/-- Divides by ten to the `n`, in steps of the greatest power of ten there is. -/
def scaleDown (x : Float) (n : Nat) : Float :=
  if n ≤ 308 then x / powerOfTen n
  else if x == 0 then x
  else scaleDown (x / powerOfTen 308) (n - 308)
termination_by n

/-- Multiplies a significand by a power of ten. -/
def scale (significand : Nat) (exponent : Int) : Except ReadError Float :=
  let x := significand.toUInt64.toFloat
  if exponent < 0 then .ok (scaleDown x exponent.natAbs)
  else if 308 < exponent then
    if x == 0 then .ok x else .error .numberOutOfRange
  else
    let scaled := x * powerOfTen exponent.natAbs
    if scaled.isInf then .error .numberOutOfRange else .ok scaled

/-- The number that digits denote. -/
def ofDigits (digits : List Nat) : Nat :=
  digits.foldl (fun n d => n * 10 + d) 0

/-- The value of a significand under the written exponent. An exponent beyond 31
bits has no scale: it makes a positive power too large and a negative one zero. -/
def applyExponent (significand : Nat) (exponent : Int) (written : Option (Bool × List Nat)) :
    Except ReadError Float :=
  match written with
  | none => scale significand exponent
  | some (negative, digits) =>
      let power := ofDigits digits
      if 2147483647 < power then
        if significand = 0 || negative then .ok 0 else .error .numberOutOfRange
      else scale significand (if negative then exponent - power else exponent + power)

/-- The number a numeral stands for. -/
def value (numeral : Numeral) : Except ReadError Number := do
  let (whole, extra) := absorb 0 numeral.whole
  let signed (x : Float) : Number := .float (if numeral.negative then -x else x)
  if numeral.fraction.isNone && numeral.exponent.isNone && extra = 0 then
    if !numeral.negative then return .int whole
    else if whole = 0 || 9223372036854775808 < whole then return signed whole.toUInt64.toFloat
    else return .int (-whole)
  else
    let digits := numeral.fraction.getD []
    let (significand, dropped) := absorb whole digits
    let exponent : Int := extra - ((digits.length - dropped : Nat) : Int)
    return signed (← applyExponent significand exponent numeral.exponent)

end Numeral

end AnswerSet.Json
