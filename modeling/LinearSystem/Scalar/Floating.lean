import LinearSystem.Scalar
import LinearSystem.Binary

namespace LinearSystem

namespace Binary

/-- The single-precision number nearest to a float. -/
def narrow (x : Float) : Float32 :=
  match view x with
  | .nan => Float32.ofBits 0x7fc00000
  | .infinite negative =>
    Float32.ofBits (UInt32.ofNat (binary32.signBit negative + binary32.infinityBits))
  | .finite negative m q =>
    Float32.ofBits (UInt32.ofNat (binary32.nearestBits negative m q))

/-- The float of the same value as a single-precision number. -/
def widen (x : Float32) : Float :=
  match view32 x with
  | .nan => Float.ofBits 0x7ff8000000000000
  | .infinite negative =>
    Float.ofBits (UInt64.ofNat (binary64.signBit negative + binary64.infinityBits))
  | .finite negative m q =>
    Float.ofBits (UInt64.ofNat (binary64.nearestBits negative m q))

end Binary

/-- Double precision, each operation rounded once. -/
instance : Scalar Float where
  zero := 0
  magnitude := Float.abs
  atMost x y := decide (x ≤ y)
  finite := Float.isFinite
  widen x := x
  ofFloat x := x
  defaultTolerance := 1e-10

/-- Single precision, each operation rounded once. -/
instance : Scalar Float32 where
  zero := 0
  magnitude := Float32.abs
  atMost x y := decide (x ≤ y)
  finite := Float32.isFinite
  widen := Binary.widen
  ofFloat := Binary.narrow
  defaultTolerance := 1e-5

end LinearSystem
