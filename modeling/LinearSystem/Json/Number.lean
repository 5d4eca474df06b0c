import LinearSystem.Json.Lexeme

namespace LinearSystem.Json

/-- Append digits as long as the number fits in sixty-four bits; the rest is handed back. -/
def appendDigits (value : Nat) : List Nat → Nat × List Nat
  | [] => (value, [])
  | d :: ds => if value * 10 + d < 1 <<< 64 then appendDigits (value * 10 + d) ds else (value, d :: ds)

/-- Divide by `10 ^ 308` a number of times, or until nothing is left. -/
def divideDown : Nat → Float → Float
  | 0, x => x
  | k + 1, x => if x == 0 then x else divideDown k (x / 1e308)

def powerOfTen (k : Nat) : Float := Float.ofScientific 1 false k

/-- Scale by a power of ten with one rounded multiplication or division, or several
divisions when the power is too small for one. There is no value beyond the largest float. -/
def scaleByTen? (x : Float) (e : Int) : Option Float :=
  if 0 ≤ e then
    if e ≤ 308 then
      let y := x * powerOfTen e.toNat
      if y.isInf then none else some y
    else if x == 0 then some x
    else none
  else
    let k := ((-e).toNat - 1) / 308
    some (divideDown k x / powerOfTen ((-e).toNat - 308 * k))

/-- The largest exponent that may be written; further out only zero has a value, or what
vanishes against the exponent. -/
def exponentLimit : Nat := 2147483647

/-- The float that a number is read as. Its first digits are kept as an integer that fits
in sixty-four bits: further digits before the point only count, those after it are dropped.
The integer is rounded to a float and then scaled, so the result is not always the nearest. -/
def Numeral.value? (n : Numeral) : Option Float :=
  let (kept, dropped) := appendDigits 0 n.whole
  let (kept, lost) := appendDigits kept n.fraction
  let point : Int := dropped.length - (n.fraction.length - lost.length : Nat)
  let signed (x : Float) : Float := if n.negative then -x else x
  if exponentLimit < n.exponent then
    if n.exponentNegative || kept = 0 then some (signed 0) else none
  else
    let written : Int := if n.exponentNegative then -n.exponent else n.exponent
    (scaleByTen? (Float.ofNat kept) (point + written)).map signed

end LinearSystem.Json
