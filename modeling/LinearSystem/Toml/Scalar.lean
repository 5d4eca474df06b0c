import LinearSystem.Toml.Lexeme
import LinearSystem.Toml.Node

namespace LinearSystem.Toml

open Text

/-- Digits with single underscores between them. -/
def groupedDigits? (base : Nat) (due : Bool) : List Char → Option (List Nat)
  | [] => if due then none else some []
  | c :: s =>
    if c = '_' then if due then none else groupedDigits? base true s
    else do
      let d ← digit? base c
      let ds ← groupedDigits? base false s
      some (d :: ds)

def splitSign : List Char → Bool × List Char
  | '-' :: s => (true, s)
  | '+' :: s => (false, s)
  | s => (false, s)

/-- Decimal digits without a zero in front of others. -/
def wholeDigits? (s : List Char) : Option (List Nat) := do
  let ds ← groupedDigits? 10 true s
  match ds with
  | 0 :: _ :: _ => none
  | _ => some ds

def inRange (n : Int) : Bool :=
  decide (-9223372036854775808 ≤ n) && decide (n ≤ 9223372036854775807)

/-- An integer of sixty-four bits; only decimal ones have a sign. -/
def integer? (s : List Char) : Option Int := do
  let n : Int ← match s with
    | '0' :: 'x' :: r => (groupedDigits? 16 true r).map fun ds => (ofDigits 16 ds : Int)
    | '0' :: 'o' :: r => (groupedDigits? 8 true r).map fun ds => (ofDigits 8 ds : Int)
    | '0' :: 'b' :: r => (groupedDigits? 2 true r).map fun ds => (ofDigits 2 ds : Int)
    | _ =>
      let (negative, r) := splitSign s
      (wholeDigits? r).map fun ds =>
        if negative then -(ofDigits 10 ds : Int) else (ofDigits 10 ds : Int)
  if inRange n then some n else none

def isExponentMark (c : Char) : Bool := c = 'e' || c = 'E'

/-- The exponent from its mark to the end of the text; an empty text is zero. -/
def exponent? : List Char → Option Int
  | [] => some 0
  | c :: s =>
    if isExponentMark c then
      let (negative, s) := splitSign s
      (groupedDigits? 10 true s).map fun ds =>
        if negative then -(ofDigits 10 ds : Int) else (ofDigits 10 ds : Int)
    else none

/-- A number with a fraction or an exponent, rounded to nearest, or a named one. What
rounds to positive infinity is refused. -/
def float? (s : List Char) : Option Float :=
  let (negative, r) := splitSign s
  let signed (x : Float) : Float := if negative then -x else x
  if r = ['i', 'n', 'f'] then some (signed (Float.ofBits 0x7ff0000000000000))
  else if r = ['n', 'a', 'n'] then some (Float.ofBits 0x7ff8000000000000)
  else do
    let whole := r.takeWhile fun c => !isExponentMark c && c ≠ '.'
    let ds ← wholeDigits? whole
    let r := r.drop whole.length
    let (fraction, r) ← match r with
      | '.' :: r =>
        let digits := r.takeWhile fun c => !isExponentMark c
        (groupedDigits? 10 true digits).map fun ds => (ds, r.drop digits.length)
      | [] => none
      | r => some ([], r)
    let e ← exponent? r
    let x := decimalFloat negative (ofDigits 10 (ds ++ fraction)) (e - fraction.length)
    if x.isInf && !negative then none else some x

/-- A number of exactly `width` digits. -/
def fixedDigits? (width : Nat) (s : List Char) : Option (Nat × List Char) := do
  let ds ← (s.take width).mapM (digit? 10)
  if ds.length = width then some (ofDigits 10 ds, s.drop width) else none

def isLeapYear (y : Nat) : Bool := y % 4 = 0 && (y % 100 ≠ 0 || y % 400 = 0)

def daysInMonth (y m : Nat) : Nat :=
  if m = 2 then if isLeapYear y then 29 else 28
  else if m = 4 || m = 6 || m = 9 || m = 11 then 30
  else 31

/-- What follows a date at the start of the text. -/
def afterDate? (s : List Char) : Option (List Char) := do
  let (year, s) ← fixedDigits? 4 s
  let s ← afterWord? ['-'] s
  let (month, s) ← fixedDigits? 2 s
  let s ← afterWord? ['-'] s
  let (day, s) ← fixedDigits? 2 s
  if 1 ≤ month ∧ month ≤ 12 ∧ 1 ≤ day ∧ day ≤ daysInMonth year month then some s else none

/-- What follows hours and minutes. -/
def afterMinutes? (s : List Char) : Option (List Char) := do
  let (hour, s) ← fixedDigits? 2 s
  let s ← afterWord? [':'] s
  let (minute, s) ← fixedDigits? 2 s
  if hour ≤ 23 ∧ minute ≤ 59 then some s else none

/-- What follows a time of day; a leap second counts sixty. -/
def afterTime? (s : List Char) : Option (List Char) := do
  let s ← afterMinutes? s
  let s ← afterWord? [':'] s
  let (second, s) ← fixedDigits? 2 s
  if 60 < second then none
  else
    match s with
    | '.' :: s =>
      let (ds, s) := spanDigits s
      if ds.isEmpty then none else some s
    | s => some s

/-- What follows an offset from universal time; none may be given. -/
def afterOffset? (s : List Char) : Option (List Char) :=
  match s with
  | 'Z' :: s => some s
  | 'z' :: s => some s
  | '+' :: s => afterMinutes? s
  | '-' :: s => afterMinutes? s
  | s => some s

def isTime (s : List Char) : Bool := afterTime? s = some []

def isTimeWithOffset (s : List Char) : Bool := ((afterTime? s).bind afterOffset?) = some []

def isDate (s : List Char) : Bool := afterDate? s = some []

def isDateTime (s : List Char) : Bool :=
  match afterDate? s with
  | some (c :: s) => (c = 'T' || c = 't') && isTimeWithOffset s
  | _ => false

/-- A character that can end a number, a date or a word. -/
def isDelimiter (c : Char) : Bool :=
  isBlank c || c = '\n' || c = '\r' || c = ',' || c = ']' || c = '\x7d' || c = '#'

def splitToken (s : List Char) : List Char × List Char :=
  let token := s.takeWhile fun c => !isDelimiter c
  (token, s.drop token.length)

/-- A value that is neither a string nor a container. A date and its time may be parted by
a blank. -/
def scalar? (s : List Char) : Option (Node × List Char) :=
  let (token, rest) := splitToken s
  if token = ['t', 'r', 'u', 'e'] then some (.boolean true, rest)
  else if token = ['f', 'a', 'l', 's', 'e'] then some (.boolean false, rest)
  else if isDate token then
    match rest with
    | ' ' :: r =>
      let (time, r) := splitToken r
      if isTimeWithOffset time then some (.moment, r) else some (.moment, rest)
    | _ => some (.moment, rest)
  else if isTime token || isDateTime token then some (.moment, rest)
  else
    match integer? token with
    | some n => some (.integer n, rest)
    | none => (float? token).map fun x => (.float x, rest)

end LinearSystem.Toml
