namespace LinearSystem.Binary

/-- What the bits of a binary float stand for. A finite value is
`significand * 2 ^ exponent`, with its sign. -/
inductive View where
  | nan
  | infinite (negative : Bool)
  | finite (negative : Bool) (significand : Nat) (exponent : Int)
  deriving DecidableEq, Repr

/-- A binary format: the width of the stored significand and of the exponent field. -/
structure Format where
  significandBits : Nat
  exponentBits : Nat

def binary64 : Format := ⟨52, 11⟩

def binary32 : Format := ⟨23, 8⟩

namespace Format

/-- The exponent of the least positive value of the format. -/
def leastExponent (f : Format) : Int :=
  2 - ((1 <<< (f.exponentBits - 1) + f.significandBits : Nat) : Int)

/-- The bits of positive infinity: an exponent field of ones over an empty significand. -/
def infinityBits (f : Format) : Nat :=
  (1 <<< f.exponentBits - 1) <<< f.significandBits

def signBit (f : Format) (negative : Bool) : Nat :=
  if negative then 1 <<< (f.exponentBits + f.significandBits) else 0

def viewBits (f : Format) (bits : Nat) : View :=
  let negative := bits.testBit (f.exponentBits + f.significandBits)
  let field := (bits >>> f.significandBits) % (1 <<< f.exponentBits)
  let fraction := bits % (1 <<< f.significandBits)
  if field = 1 <<< f.exponentBits - 1 then
    if fraction = 0 then .infinite negative else .nan
  else if field = 0 then .finite negative fraction f.leastExponent
  else .finite negative (1 <<< f.significandBits + fraction) (f.leastExponent + (field - 1))

/-- The quotient by `2 ^ k` rounded to nearest, a half to the even neighbour. -/
def roundShift (m k : Nat) : Nat :=
  let q := m >>> k
  let r := m % (1 <<< k)
  if 2 * r < 1 <<< k then q
  else if 1 <<< k < 2 * r then q + 1
  else q + q % 2

/-- The bits of the value of this format nearest to `m * 2 ^ q`. The significand keeps
its full width or, below the normal range, ends at the least exponent; a carry out of the
significand moves the exponent field up by itself, at the top into infinity. -/
def nearestBits (f : Format) (negative : Bool) (m : Nat) (q : Int) : Nat :=
  if m = 0 then f.signBit negative
  else
    let full := q + m.log2 - f.significandBits
    let t := if full < f.leastExponent then f.leastExponent else full
    let r := if t ≤ q then m <<< (q - t).toNat else roundShift m (t - q).toNat
    let bits := r + (t - f.leastExponent).toNat <<< f.significandBits
    f.signBit negative + if bits < f.infinityBits then bits else f.infinityBits

end Format

def view (x : Float) : View := binary64.viewBits x.toBits.toNat

def view32 (x : Float32) : View := binary32.viewBits x.toBits.toNat

end LinearSystem.Binary
