/-!
# Binary floating-point numbers

A finite number of 64-bit binary floating point is a sign, a mantissa below `2 ^ 53` and a power
of two; `ofDecimal` rounds a decimal to the nearest one, halves to the even mantissa.
-/

namespace Scaffold.Decimal
set_option autoImplicit false

/-- A number of 64-bit binary floating point. -/
inductive Binary64 where
  | finite (negative : Bool) (mantissa : Nat) (exponent : Int)
  | infinite (negative : Bool)
  | nan
  deriving DecidableEq, Repr

/-- The quotient nearest to `num / den`, the even one when two are equally near. -/
def roundDiv (num den : Nat) : Nat :=
  let quotient := num / den
  let twice := 2 * (num % den)
  if twice > den || (twice == den && quotient % 2 == 1) then quotient + 1 else quotient

/-- `base ^ exponent` as numerator and denominator. -/
def ratio (base : Nat) (exponent : Int) : Nat × Nat :=
  (base.pow exponent.toNat, base.pow (-exponent).toNat)

namespace Binary64

/-- All mantissas are below this one, `2 ^ 53`. -/
def mantissaEnd : Nat := Nat.pow 2 53

/-- The least exponent of a finite number. -/
def minExponent : Int := -1074

/-- The greatest exponent of a finite number. -/
def maxExponent : Int := 971

def zero (negative : Bool) : Binary64 := .finite negative 0 minExponent

/-- The number nearest to `num / den`. -/
def ofRatio (negative : Bool) (num den : Nat) : Binary64 :=
  let rough := max ((Nat.log2 num : Int) - Nat.log2 den - 53) minExponent
  let fits := let (up, down) := ratio 2 rough; decide (num * down < mantissaEnd * den * up)
  let exponent := if fits then rough else rough + 1
  let (up, down) := ratio 2 exponent
  let rounded := roundDiv (num * down) (den * up)
  let (mantissa, exponent) :=
    if rounded = mantissaEnd then (mantissaEnd / 2, exponent + 1) else (rounded, exponent)
  if exponent > maxExponent then .infinite negative else .finite negative mantissa exponent

/-- The number nearest to `digits * 10 ^ power`; beyond the powers that a finite number reaches,
infinity or zero. -/
def ofDecimal (negative : Bool) (digits : Nat) (power : Int) : Binary64 :=
  let top := power + (toString digits).length
  if digits = 0 || top < -330 then zero negative
  else if top > 310 then .infinite negative
  else
    let (up, down) := ratio 10 power
    ofRatio negative (digits * up) down

def isFinite : Binary64 → Bool
  | .finite .. => true
  | _ => false

def isZero : Binary64 → Bool
  | .finite _ mantissa _ => mantissa == 0
  | _ => false

/-- The integer part of a finite number. -/
def truncate? : Binary64 → Option Int
  | .finite negative mantissa exponent =>
    let (up, down) := ratio 2 exponent
    let whole : Int := mantissa * up / down
    some (if negative then -whole else whole)
  | _ => none

/-- Whether a number is finite and has no fraction. -/
def isIntegral : Binary64 → Bool
  | .finite _ mantissa exponent => mantissa * (ratio 2 exponent).1 % (ratio 2 exponent).2 == 0
  | _ => false

end Binary64
end Scaffold.Decimal
