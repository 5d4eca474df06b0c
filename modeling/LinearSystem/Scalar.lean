namespace LinearSystem

/-- The arithmetic that elimination asks for. No law is required, so exact rationals and
rounded binary numbers with infinities and NaN are instances alike. -/
class Scalar (α : Type) extends Zero α, Add α, Sub α, Mul α, Div α where
  magnitude : α → α
  /-- The test `x ≤ y`; it fails as soon as one side is a NaN. -/
  atMost : α → α → Bool
  finite : α → Bool
  widen : α → Float
  /-- The value of a float, rounded where this type is narrower. -/
  ofFloat : Float → α
  /-- The zero tolerance in force when none is configured. -/
  defaultTolerance : α

-- A concrete type is written with its own arithmetic, not with the one found through this class.
attribute [instance (low)] Scalar.toZero Scalar.toAdd Scalar.toSub Scalar.toMul Scalar.toDiv

namespace Scalar

variable {α : Type} [Scalar α]

/-- An entry counts as zero when its magnitude does not exceed the tolerance. -/
def negligible (tol x : α) : Bool := atMost (magnitude x) tol

/-- A usable pivot. A NaN is significant, for it is not negligible. -/
def significant (tol x : α) : Bool := !negligible tol x

/-- Exact zero of either sign. -/
def isZero (x : α) : Bool := atMost x 0 && atMost 0 x

/-- The larger of two values; a NaN gives way to the other one. -/
def larger (x y : α) : α :=
  if atMost x y then y else if atMost x x then x else y

theorem significant_eq_not_negligible (tol x : α) :
    significant tol x = !negligible tol x := rfl

end Scalar

end LinearSystem
