namespace LinearSystem

/-- The positive decimal `digits * 10 ^ exponent`. -/
structure Decimal where
  digits : Nat
  exponent : Int
  deriving DecidableEq, Repr

namespace Decimal

/-- Where a decimal halfway between two candidates goes. -/
inductive Tie where
  | up
  | even

/-- Is `d * 10 ^ g` at most `m * 2 ^ q`? -/
def atMostBinary (d : Nat) (g : Int) (m : Nat) (q : Int) : Bool :=
  decide (d * Nat.pow 10 g.toNat * 1 <<< (-q).toNat ≤ m * 1 <<< q.toNat * Nat.pow 10 (-g).toNat)

/-- Is `d * 10 ^ g` at least `m * 2 ^ q`? -/
def atLeastBinary (d : Nat) (g : Int) (m : Nat) (q : Int) : Bool :=
  decide (m * 1 <<< q.toNat * Nat.pow 10 (-g).toNat ≤ d * Nat.pow 10 g.toNat * 1 <<< (-q).toNat)

/-- The integer part of `m * 2 ^ q / 10 ^ g`. -/
def floorOnGrid (m : Nat) (q g : Int) : Nat :=
  m * 1 <<< q.toNat * Nat.pow 10 (-g).toNat / (Nat.pow 10 g.toNat * 1 <<< (-q).toNat)

/-- The reals nearer to `m * 2 ^ q` than to its neighbours, in double precision, and the
two halfway points when `m` is even. Below a power of two the gap is half as wide, unless
the power is the least one. -/
def readsBack (m : Nat) (q : Int) (d : Nat) (g : Int) : Bool :=
  let low := if m = 1 <<< 52 ∧ -1074 < q then 4 * m - 1 else 4 * m - 2
  let high := 4 * m + 2
  if m % 2 = 0 then atLeastBinary d g low (q - 2) && atMostBinary d g high (q - 2)
  else !atMostBinary d g low (q - 2) && !atLeastBinary d g high (q - 2)

/-- The nearest multiple of `10 ^ g` that reads back as `m * 2 ^ q`. -/
def onGrid? (tie : Tie) (m : Nat) (q g : Int) : Option Nat :=
  let low := floorOnGrid m q g
  match readsBack m q low g, readsBack m q (low + 1) g with
  | true, false => some low
  | false, true => some (low + 1)
  | false, false => none
  | true, true =>
    let middle := 2 * low + 1
    if !atMostBinary middle g m (q + 1) then some low
    else if !atLeastBinary middle g m (q + 1) then some (low + 1)
    else match tie with
      | .up => some (low + 1)
      | .even => some (low + low % 2)

/-- The least `k` with `m * 2 ^ q < 10 ^ k`, for positive `m`. The binary logarithm gives
it up to two. -/
def scale (m : Nat) (q : Int) : Int :=
  let k := ((q + m.log2) * 30103).fdiv 100000
  if !atMostBinary 1 k m q then k
  else if !atMostBinary 1 (k + 1) m q then k + 1
  else k + 2

/-- The same value with no zero at the end of its digits. -/
def strip : Nat → Decimal → Decimal
  | 0, d => d
  | fuel + 1, d =>
    if d.digits % 10 = 0 then strip fuel ⟨d.digits / 10, d.exponent + 1⟩ else d

/-- The shortest decimal that reads back as `m * 2 ^ q` in double precision, and of those
the nearest. Seventeen digits are enough. -/
def shortest (tie : Tie) (m : Nat) (q : Int) : Decimal :=
  let k := scale m q
  let found := (List.range 17).findSome? fun (n : Nat) =>
    let g := k - (n + 1 : Nat)
    (onGrid? tie m q g).map fun d => Decimal.mk d g
  strip 20 (found.getD ⟨floorOnGrid m q (k - 17), k - 17⟩)

/-- The quotient rounded to nearest, a half to the even neighbour. -/
def roundQuotient (num den : Nat) : Nat :=
  let q := num / den
  let r := 2 * (num % den)
  if r < den then q else if den < r then q + 1 else q + q % 2

/-- The multiple of `10 ^ g` nearest to `m * 2 ^ q`, in units of `10 ^ g`. -/
def roundToGrid (m : Nat) (q g : Int) : Nat :=
  roundQuotient (m * 1 <<< q.toNat * Nat.pow 10 (-g).toNat)
    (Nat.pow 10 g.toNat * 1 <<< (-q).toNat)

end Decimal

end LinearSystem
