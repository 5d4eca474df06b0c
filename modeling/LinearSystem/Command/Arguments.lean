import LinearSystem.Settings
import LinearSystem.Text.Decimal

namespace LinearSystem.Command

inductive ReportFormat where
  | text
  | json
  deriving DecidableEq, Repr

structure Arguments where
  input : String
  tolerance : Option Float
  pivoting : Option PivotRule
  symmetricZeroRow : Bool
  format : ReportFormat
  rankOnly : Bool

/-- The arguments seen so far; each may be given once. -/
structure Draft where
  input : Option String
  tolerance : Option Float
  pivoting : Option PivotRule
  symmetricZeroRow : Bool
  format : Option ReportFormat
  rankOnly : Bool

namespace Draft

def empty : Draft := ⟨none, none, none, false, none, false⟩

/-- Only the input must be given. -/
def finish (d : Draft) : Option Arguments := do
  some ⟨← d.input, d.tolerance, d.pivoting, d.symmetricZeroRow, d.format.getD .text, d.rankOnly⟩

def setInput (d : Draft) (value : String) : Option Draft :=
  if d.input.isSome || value.isEmpty then none else some { d with input := some value }

def setTolerance (d : Draft) (value : String) : Option Draft := do
  if d.tolerance.isSome then none
  else some { d with tolerance := some (← Text.typedFloat? value) }

def setPivoting (d : Draft) (value : String) : Option Draft :=
  if d.pivoting.isSome then none
  else
    match value with
    | "first-non-zero" => some { d with pivoting := some .firstNonZero }
    | "largest-magnitude" => some { d with pivoting := some .largestMagnitude }
    | _ => none

def setFormat (d : Draft) (value : String) : Option Draft :=
  if d.format.isSome then none
  else
    match value with
    | "text" => some { d with format := some .text }
    | "json" => some { d with format := some .json }
    | _ => none

def setSymmetricZeroRow (d : Draft) : Option Draft :=
  if d.symmetricZeroRow then none else some { d with symmetricZeroRow := true }

def setRankOnly (d : Draft) : Option Draft :=
  if d.rankOnly then none else some { d with rankOnly := true }

end Draft

/-- What an option does: alone, or with its value. -/
inductive Action where
  | flag (set : Draft → Option Draft)
  | valued (set : Draft → String → Option Draft)

def longOption? : String → Option Action
  | "input" => some (.valued Draft.setInput)
  | "tolerance" => some (.valued Draft.setTolerance)
  | "pivoting" => some (.valued Draft.setPivoting)
  | "format" => some (.valued Draft.setFormat)
  | "symmetric-zero-row" => some (.flag Draft.setSymmetricZeroRow)
  | "rank-only" => some (.flag Draft.setRankOnly)
  | _ => none

/-- An option as it is written: what it does, and the value attached to it. -/
def option? (arg : List Char) : Option (Action × Option String) :=
  match arg with
  | '-' :: '-' :: s =>
    let name := s.takeWhile (· ≠ '=')
    let value := match s.drop name.length with
      | '=' :: v => some (String.ofList v)
      | _ => none
    (longOption? (String.ofList name)).map fun action => (action, value)
  | '-' :: 'i' :: s =>
    let value := match s with
      | [] => none
      | '=' :: v => some (String.ofList v)
      | v => some (String.ofList v)
    some (.valued Draft.setInput, value)
  | _ => none

/-- An argument of its own is a value unless it looks like an option. -/
def isValue (arg : String) : Bool := arg = "-" || !arg.startsWith "-"

def readArguments : Draft → List String → Option Draft
  | d, [] => some d
  | d, arg :: rest =>
    if arg = "--" then if rest.isEmpty then some d else none
    else
      match option? arg.toList with
      | none => none
      | some (.flag set, none) =>
        match set d with
        | some d => readArguments d rest
        | none => none
      | some (.flag _, some _) => none
      | some (.valued set, some value) =>
        match set d value with
        | some d => readArguments d rest
        | none => none
      | some (.valued set, none) =>
        match rest with
        | [] => none
        | value :: rest =>
          if isValue value then
            match set d value with
            | some d => readArguments d rest
            | none => none
          else none

/-- The arguments of a command line; none for a usage error. -/
def Arguments.ofList? (args : List String) : Option Arguments := do
  (← readArguments Draft.empty args).finish

end LinearSystem.Command
