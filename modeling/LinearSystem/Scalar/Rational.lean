import LinearSystem.Scalar
import LinearSystem.Binary

namespace LinearSystem

namespace Binary

/-- The rational that a finite float stands for; NaN and the infinities have none and give zero. -/
def toRat (x : Float) : Rat :=
  match view x with
  | .finite negative m q =>
    let signed : Int := if negative then -m else m
    mkRat (signed * (1 <<< q.toNat : Nat)) (1 <<< (-q).toNat)
  | _ => mkRat 0 1

end Binary

/-- Exact rational arithmetic: every value is finite and nothing is rounded. -/
instance : Scalar Rat where
  zero := mkRat 0 1
  add := Rat.add
  sub := Rat.sub
  mul := Rat.mul
  div := Rat.div
  magnitude := Rat.abs
  atMost x y := !Rat.blt y x
  finite _ := true
  widen x := Float.ofInt x.num / Float.ofNat x.den
  ofFloat := Binary.toRat
  defaultTolerance := mkRat 1 10000000000

end LinearSystem
