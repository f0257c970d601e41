import Scaffold.Decimal.Binary64

/-!
# The shortest decimal that reads back

Among the decimals that round to a given number, `shortest` takes one with the fewest digits, and
of those the nearest to the number. On the grid of decimals with `n` digits only the two
neighbours of the number matter: if any point of the grid rounds to the number, one of them does.
`written` lays the digits out: positional from `0.0001` up to below `10 ^ 16`, else with a power
of ten.
-/

namespace Scaffold.Decimal
set_option autoImplicit false

/-- A decimal: `digits * 10 ^ power`. -/
structure Scientific where
  digits : Nat
  power : Int
  deriving DecidableEq, Repr

/-- The least `k` with `num / den < 10 ^ k`, for a positive number. -/
def magnitude (num den : Nat) : Int :=
  if den ≤ num then (toString (num / den)).length else descend 400 num
where
  /-- Counts the factors of ten that lift the number to one or above. -/
  descend : Nat → Nat → Int
    | 0, _ => 0
    | fuel + 1, num => if den ≤ 10 * num then 0 else descend fuel (10 * num) - 1

/-- The numbers, in quarters of the unit of the mantissa, between which everything rounds to
`mantissa * 2 ^ exponent`. -/
def roundingEnds (mantissa : Nat) (exponent : Int) : Nat × Nat :=
  let below :=
    if mantissa = Binary64.mantissaEnd / 2 && exponent > Binary64.minExponent then 1 else 2
  (4 * mantissa - below, 4 * mantissa + 2)

/-- The decimal of `n` digits nearest to the number among those that round to it. -/
def onGrid? (mantissa : Nat) (exponent : Int) (n : Nat) : Option Scientific :=
  let (up, down) := ratio 2 (exponent - 2)
  let num := 4 * mantissa * up
  let power := magnitude num down - n
  let (tens, parts) := ratio 10 power
  let (low, high) := roundingEnds mantissa exponent
  let rounds (digits : Nat) : Bool :=
    let point := digits * tens * down
    let least := low * up * parts
    let greatest := high * up * parts
    if mantissa % 2 = 0 then least ≤ point && point ≤ greatest
    else least < point && point < greatest
  let floor := num * parts / (down * tens)
  let rest := 2 * (num * parts - floor * (down * tens))
  let upper := rest > down * tens || (rest == down * tens && floor % 2 == 1)
  match rounds floor, rounds (floor + 1) with
  | true, true => some ⟨if upper then floor + 1 else floor, power⟩
  | true, false => some ⟨floor, power⟩
  | false, true => some ⟨floor + 1, power⟩
  | false, false => none

/-- The shortest decimal that rounds to `mantissa * 2 ^ exponent`, for a positive mantissa. -/
def shortest (mantissa : Nat) (exponent : Int) : Scientific :=
  ((List.range 17).findSome? fun n => onGrid? mantissa exponent (n + 1)).getD ⟨0, 0⟩

/-- Digits without their closing zeros. -/
def withoutZeros (digits : List Char) : List Char := (digits.reverse.dropWhile (· = '0')).reverse

/-- A decimal laid out: positional where its point falls between the fourth place after the first
digit's left and the sixteenth digit, else one digit before the point and a power of ten. -/
def Scientific.layout (d : Scientific) : List Char :=
  let all := (toString d.digits).toList
  let point : Int := d.power + all.length
  let digits := withoutZeros all
  let zeros (n : Nat) := List.replicate n '0'
  if -4 < point && point ≤ 16 then
    if point ≤ 0 then ['0', '.'] ++ zeros (-point).toNat ++ digits
    else
      let whole := point.toNat
      if digits.length ≤ whole then digits ++ zeros (whole - digits.length) ++ ['.', '0']
      else digits.take whole ++ ['.'] ++ digits.drop whole
  else
    let exponent := point - 1
    let figures := (toString exponent.natAbs).toList
    let fraction := if digits.length ≤ 1 then [] else '.' :: digits.drop 1
    digits.take 1 ++ fraction ++ ['e', if exponent < 0 then '-' else '+'] ++
      zeros (2 - figures.length) ++ figures

/-- The text of a number. -/
def Binary64.written : Binary64 → String
  | .nan => "nan"
  | .infinite negative => if negative then "-inf" else "inf"
  | .finite negative mantissa exponent =>
    let body := if mantissa = 0 then ['0', '.', '0'] else (shortest mantissa exponent).layout
    String.ofList (if negative then '-' :: body else body)

end Scaffold.Decimal
