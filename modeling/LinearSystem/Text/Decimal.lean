import LinearSystem.Text.Digits

namespace LinearSystem.Text

/-- The exponent at the start of a text, empty if there is none. Its digits must follow. -/
def exponentPart? (s : List Char) : Option (Int × List Char) :=
  match s with
  | c :: r =>
    if c = 'e' ∨ c = 'E' then
      let (negative, r) := match r with
        | '-' :: r => (true, r)
        | '+' :: r => (false, r)
        | r => (false, r)
      let (ds, r) := spanDigits r
      if ds.isEmpty then none
      else
        let e : Int := ofDigits 10 ds
        some (if negative then -e else e, r)
    else some (0, s)
  | [] => some (0, [])

/-- A number in the form that users type: a sign, digits with at most one point among or
around them, an exponent; or a name of infinity or NaN in any case. -/
def typedFloat? (text : String) : Option Float := do
  let (negative, s) := match text.toList with
    | '-' :: s => (true, s)
    | '+' :: s => (false, s)
    | s => (false, s)
  let signed (x : Float) : Float := if negative then -x else x
  match String.ofList (s.map Char.toLower) with
  | "inf" => some (signed (Float.ofBits 0x7ff0000000000000))
  | "infinity" => some (signed (Float.ofBits 0x7ff0000000000000))
  | "nan" => some (Float.ofBits 0x7ff8000000000000)
  | _ =>
    let (whole, s) := spanDigits s
    let (fraction, s) := match s with
      | '.' :: s => spanDigits s
      | s => ([], s)
    if whole.isEmpty && fraction.isEmpty then none
    else
      let (e, s) ← exponentPart? s
      if s.isEmpty then
        some (decimalFloat negative (ofDigits 10 (whole ++ fraction)) (e - fraction.length))
      else none

end LinearSystem.Text
