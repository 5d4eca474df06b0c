import LinearSystem.Binary
import LinearSystem.Decimal.Shortest

namespace LinearSystem.Decimal

/-- How the shortest digits of a float are laid out. -/
structure Style where
  /-- Is a number with this exponent of its leading digit written without an exponent? -/
  positional : Int → Bool
  /-- Does a whole number keep a point and a zero? -/
  pointZero : Bool
  tie : Tie
  nan : String
  infinity : String
  negativeInfinity : String

def zeros (k : Nat) : String := String.ofList (List.replicate k '0')

/-- The digits of `n`, with zeros in front up to `width` of them. -/
def padded (width n : Nat) : String :=
  let s := toString n
  zeros (width - s.length) ++ s

/-- Digits with the point before the last `places` of them. -/
def withPoint (places n : Nat) : String :=
  let s := (padded (places + 1) n).toList
  String.ofList (s.take (s.length - places)) ++ "." ++ String.ofList (s.drop (s.length - places))

/-- The decimal written out in full. -/
def positionalText (pointZero : Bool) (d : Decimal) : String :=
  if 0 ≤ d.exponent then
    toString d.digits ++ zeros d.exponent.toNat ++ if pointZero then ".0" else ""
  else withPoint (-d.exponent).toNat d.digits

/-- One digit, the others behind a point, and a signed exponent. -/
def exponentText (d : Decimal) : String :=
  let s := (toString d.digits).toList
  let e := d.exponent + (s.length - 1 : Nat)
  let fraction := if s.length ≤ 1 then "" else "." ++ String.ofList (s.drop 1)
  let sign := if e < 0 then "-" else "+"
  String.ofList (s.take 1) ++ fraction ++ "e" ++ sign ++ toString e.natAbs

def signed (negative : Bool) (s : String) : String := if negative then "-" ++ s else s

def Style.render (style : Style) (x : Float) : String :=
  match Binary.view x with
  | .nan => style.nan
  | .infinite negative => if negative then style.negativeInfinity else style.infinity
  | .finite negative m q =>
    signed negative <|
      if m = 0 then if style.pointZero then "0.0" else "0"
      else
        let d := shortest style.tie m q
        let e := d.exponent + ((toString d.digits).length - 1 : Nat)
        if style.positional e then positionalText style.pointZero d else exponentText d

/-- Numbers inside messages: all digits written out, no point after a whole number. -/
def messageStyle : Style where
  positional _ := true
  pointZero := false
  tie := .up
  nan := "NaN"
  infinity := "inf"
  negativeInfinity := "-inf"

/-- Numbers inside reports: written out from the fifth decimal place to sixteen digits,
otherwise with an exponent. What is not a number is null. -/
def reportStyle : Style where
  positional e := decide (-5 ≤ e) && decide (e < 16)
  pointZero := true
  tie := .even
  nan := "null"
  infinity := "null"
  negativeInfinity := "null"

def plain (x : Float) : String := messageStyle.render x

def report (x : Float) : String := reportStyle.render x

/-- The value rounded to a number of decimal places, a half to the even neighbour. -/
def fixed (places : Nat) (x : Float) : String :=
  match Binary.view x with
  | .nan => "NaN"
  | .infinite negative => signed negative "inf"
  | .finite negative m q => signed negative (withPoint places (roundToGrid m q (-places)))

/-- The value rounded to `places + 1` significant digits, with an exponent. -/
def scientific (places : Nat) (x : Float) : String :=
  match Binary.view x with
  | .nan => "NaN"
  | .infinite negative => signed negative "inf"
  | .finite negative m q =>
    signed negative <|
      if m = 0 then withPoint places 0 ++ "e0"
      else
        let e := scale m q - 1
        let d := roundToGrid m q (e - places)
        if d < Nat.pow 10 (places + 1) then withPoint places d ++ "e" ++ toString e
        else withPoint places (d / 10) ++ "e" ++ toString (e + 1)

/-- The text with blanks in front up to a width. -/
def rightAligned (width : Nat) (s : String) : String :=
  String.ofList (List.replicate (width - s.length) ' ') ++ s

end LinearSystem.Decimal
