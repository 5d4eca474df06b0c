import LinearSystem.Json.Reader
import LinearSystem.Stored.System

namespace LinearSystem

open Json (Reader)
open Json.Reader

namespace Settings

def jsonMember (d : Draft) (key : String) : Reader Draft :=
  match key with
  | "tolerance" => do
    let t ← once key d.tolerance (optional number)
    pure { d with tolerance := t }
  | "pivoting" => do
    let p ← once key d.pivoting (choice PivotRule.names)
    pure { d with pivoting := p }
  | "zero_row_check" => do
    let z ← once key d.zeroRows (choice ZeroRowRule.names)
    pure { d with zeroRows := z }
  | _ => do
    memberValue skip
    pure d

/-- Settings as an array of their members; those at the end may be missing. -/
def jsonArray : Reader Settings := do
  expect '['
  let t ← nextElement? true (optional number)
  let p ← if t.isSome then nextElement? false (choice PivotRule.names) else pure none
  let z ← if p.isSome then nextElement? false (choice ZeroRowRule.names) else pure none
  expect ']'
  pure (Draft.finish ⟨t, p, z⟩)

/-- Settings as an object, whose other members are ignored, or as an array. -/
def json : Reader Settings := do
  if (← peek) = '[' then jsonArray
  else object jsonMember Draft.empty fun d => pure d.finish

def ofJson (text : String) : Except FormatError Settings := runText json text

end Settings

namespace StoredSystem

def jsonMember (d : Draft) (key : String) : Reader Draft :=
  match key with
  | "description" => do
    let t ← once key d.description string
    pure { d with description := t }
  | "matrix" => do
    let rows ← once key d.matrix (array (array number))
    pure { d with matrix := rows }
  | "rhs" => do
    let b ← once key d.rhs (array number)
    pure { d with rhs := b }
  | "solver" => do
    let s ← once key d.settings Settings.json
    pure { d with settings := s }
  | _ => do
    memberValue skip
    pure d

/-- A system as an array of its members; only the settings may be missing at the end. -/
def jsonArray : Reader StoredSystem := do
  expect '['
  let some description ← nextElement? true string | fail
  let some matrix ← nextElement? false (array (array number)) | fail
  let some rhs ← nextElement? false (array number) | fail
  let settings ← nextElement? false Settings.json
  expect ']'
  pure ⟨description, matrix, rhs, settings.getD Settings.default⟩

/-- A system as an object, whose other members are ignored, or as an array. -/
def json : Reader StoredSystem := do
  if (← peek) = '[' then jsonArray
  else object jsonMember Draft.empty Draft.finish

def ofJson (text : String) : Except FormatError StoredSystem := runText json text

end StoredSystem

end LinearSystem
