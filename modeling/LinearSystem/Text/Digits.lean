namespace LinearSystem.Text

/-- The value of a digit in a base up to sixteen; letters may have either case. -/
def digit? (base : Nat) (c : Char) : Option Nat :=
  let value :=
    if '0' ≤ c ∧ c ≤ '9' then c.toNat - 48
    else if 'a' ≤ c ∧ c ≤ 'f' then c.toNat - 87
    else if 'A' ≤ c ∧ c ≤ 'F' then c.toNat - 55
    else base
  if value < base then some value else none

def isDigit (c : Char) : Bool := (digit? 10 c).isSome

/-- The number written by digits, most significant first. -/
def ofDigits (base : Nat) (ds : List Nat) : Nat := ds.foldl (fun v d => v * base + d) 0

/-- The decimal digits a text starts with, and what follows them. -/
def spanDigits : List Char → List Nat × List Char
  | [] => ([], [])
  | c :: s =>
    match digit? 10 c with
    | some d => let r := spanDigits s; (d :: r.1, r.2)
    | none => ([], c :: s)

/-- The number written by hexadecimal digits alone. -/
def hexadecimal? (s : List Char) : Option Nat := (s.mapM (digit? 16)).map (ofDigits 16)

/-- The character with this code, unless it is a surrogate or too large. -/
def character? (code : Nat) : Option Char :=
  if code < 0xD800 ∨ 0xDFFF < code ∧ code < 0x110000 then some (Char.ofNat code) else none

/-- The rest of a text that starts with a given word. -/
def afterWord? : List Char → List Char → Option (List Char)
  | [], s => some s
  | _ :: _, [] => none
  | w :: ws, c :: s => if w = c then afterWord? ws s else none

/-- The float nearest to a decimal; zero keeps its sign. -/
def decimalFloat (negative : Bool) (digits : Nat) (exponent : Int) : Float :=
  let size := Float.ofScientific digits (decide (exponent < 0)) exponent.natAbs
  if negative then -size else size

end LinearSystem.Text
