import LinearSystem.Text.Digits

namespace LinearSystem.Json

open Text

def isBlank (c : Char) : Bool := c = ' ' || c = '\t' || c = '\n' || c = '\r'

/-- What a one-letter escape stands for. -/
def escape? : Char → Option Char
  | '"' => some '"'
  | '\\' => some '\\'
  | '/' => some '/'
  | 'b' => some '\x08'
  | 'f' => some '\x0c'
  | 'n' => some '\n'
  | 'r' => some '\r'
  | 't' => some '\t'
  | _ => none

/-- The character of two sixteen-bit units, a high surrogate and a low one. -/
def joinSurrogates? (high low : Nat) : Option Char :=
  if 0xDC00 ≤ low ∧ low < 0xE000 then
    character? (0x10000 + (high - 0xD800) * 0x400 + (low - 0xDC00))
  else none

def isHighSurrogate (u : Nat) : Bool := decide (0xD800 ≤ u) && decide (u < 0xDC00)

/-- The text of a string up to its closing quote, and what follows. Control characters must
be escaped and surrogates come in pairs. -/
def stringBody? : List Char → Option (String × List Char) :=
  go []
where
  go (done : List Char) : List Char → Option (String × List Char)
    | [] => none
    | c :: s =>
      if c = '"' then some (String.ofList done.reverse, s)
      else if c = '\\' then
        match s with
        | 'u' :: c1 :: c2 :: c3 :: c4 :: s =>
          match hexadecimal? [c1, c2, c3, c4] with
          | none => none
          | some u =>
            if isHighSurrogate u then
              match s with
              | '\\' :: 'u' :: d1 :: d2 :: d3 :: d4 :: s =>
                match (hexadecimal? [d1, d2, d3, d4]).bind (joinSurrogates? u) with
                | some x => go (x :: done) s
                | none => none
              | _ => none
            else
              match character? u with
              | some x => go (x :: done) s
              | none => none
        | l :: s =>
          match escape? l with
          | some x => go (x :: done) s
          | none => none
        | [] => none
      else if c.toNat < 0x20 then none
      else go (c :: done) s

/-- What follows the closing quote of a string whose text is not needed. Escapes are
checked for their form only. -/
def skipString? : List Char → Option (List Char)
  | [] => none
  | c :: s =>
    if c = '"' then some s
    else if c = '\\' then
      match s with
      | 'u' :: c1 :: c2 :: c3 :: c4 :: s =>
        if (hexadecimal? [c1, c2, c3, c4]).isSome then skipString? s else none
      | l :: s => if (escape? l).isSome then skipString? s else none
      | [] => none
    else if c.toNat < 0x20 then none
    else skipString? s

/-- A written number: its digits before and after the point, and its exponent. -/
structure Numeral where
  negative : Bool
  whole : List Nat
  fraction : List Nat
  exponentNegative : Bool
  exponent : Nat

/-- The fraction at the start of a text, empty if there is none. -/
def fractionPart? : List Char → Option (List Nat × List Char)
  | '.' :: s =>
    let r := spanDigits s
    if r.1.isEmpty then none else some r
  | s => some ([], s)

/-- The exponent at the start of a text, zero if there is none. -/
def exponentPart? : List Char → Option (Bool × Nat × List Char)
  | [] => some (false, 0, [])
  | c :: s =>
    if c = 'e' ∨ c = 'E' then
      let (negative, s) := match s with
        | '-' :: s => (true, s)
        | '+' :: s => (false, s)
        | s => (false, s)
      let r := spanDigits s
      if r.1.isEmpty then none else some (negative, ofDigits 10 r.1, r.2)
    else some (false, 0, c :: s)

/-- The number at the start of a text. A zero stands alone before the point. -/
def numeral? (s : List Char) : Option (Numeral × List Char) := do
  let (negative, s) := match s with
    | '-' :: s => (true, s)
    | s => (false, s)
  let (whole, s) := spanDigits s
  match whole with
  | [] => none
  | 0 :: _ :: _ => none
  | _ =>
    let (fraction, s) ← fractionPart? s
    let (exponentNegative, exponent, s) ← exponentPart? s
    some (⟨negative, whole, fraction, exponentNegative, exponent⟩, s)

end LinearSystem.Json
