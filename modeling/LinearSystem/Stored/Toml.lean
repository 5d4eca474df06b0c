import LinearSystem.Stored.Error
import LinearSystem.Stored.System
import LinearSystem.Toml.Document

namespace LinearSystem

namespace Toml.Node

def number : Node → Except FormatError Float
  | integer n => pure (Float.ofInt n)
  | float x => pure x
  | _ => throw .malformed

def string : Node → Except FormatError String
  | text s => pure s
  | _ => throw .malformed

def list {α : Type} (item : Node → Except FormatError α) : Node → Except FormatError (List α)
  | array items => items.mapM item
  | _ => throw .malformed

def isEmptyContainer : Node → Bool
  | array [] | inline [] | table _ [] => true
  | _ => false

def entries? : Node → Option Entries
  | inline es | table _ es => some es
  | _ => none

/-- One of several names, as a string or as the only key of a table, with nothing in it. -/
def choice {α : Type} (names : List (String × α)) (node : Node) : Except FormatError α :=
  match node with
  | text s => pick s
  | node =>
    match node.entries? with
    | some [(key, value)] => do
      let a ← pick key
      if value.isEmptyContainer then pure a else throw .malformed
    | _ => throw .malformed
where
  pick (name : String) : Except FormatError α :=
    match names.lookup name with
    | some a => pure a
    | none => throw (.unknownVariant name (names.map (·.1)))

end Toml.Node

open Toml (Node Entries)

namespace Settings

def tomlEntry (d : Draft) (e : String × Node) : Except FormatError Draft :=
  match e.1 with
  | "tolerance" => do
    let t ← e.2.number
    pure { d with tolerance := some (some t) }
  | "pivoting" => do
    let p ← e.2.choice PivotRule.names
    pure { d with pivoting := some p }
  | "zero_row_check" => do
    let z ← e.2.choice ZeroRowRule.names
    pure { d with zeroRows := some z }
  | _ => pure d

def tomlEntries (es : Entries) : Except FormatError Settings := do
  let d ← es.foldlM tomlEntry Draft.empty
  pure d.finish

/-- Settings as a table, or as an array of their members that may end early. A date counts
as a table that sets nothing. -/
def ofNode : Node → Except FormatError Settings
  | .array items => do
    let t ← items[0]?.mapM Node.number
    let p ← items[1]?.mapM (Node.choice PivotRule.names)
    let z ← items[2]?.mapM (Node.choice ZeroRowRule.names)
    pure (Draft.finish ⟨t.map some, p, z⟩)
  | .moment => pure default
  | node =>
    match node.entries? with
    | some es => tomlEntries es
    | none => throw .malformed

def ofToml (text : String) : Except FormatError Settings :=
  match Toml.document? text with
  | some es => tomlEntries es
  | none => throw .malformed

end Settings

namespace StoredSystem

def tomlEntry (d : Draft) (e : String × Node) : Except FormatError Draft :=
  match e.1 with
  | "description" => do
    let t ← e.2.string
    pure { d with description := some t }
  | "matrix" => do
    let rows ← e.2.list (Node.list Node.number)
    pure { d with matrix := some rows }
  | "rhs" => do
    let b ← e.2.list Node.number
    pure { d with rhs := some b }
  | "solver" => do
    let s ← Settings.ofNode e.2
    pure { d with settings := some s }
  | _ => pure d

/-- The whole document is read before its entries are looked at, in their order. -/
def ofToml (text : String) : Except FormatError StoredSystem :=
  match Toml.document? text with
  | some es => do (← es.foldlM tomlEntry Draft.empty).finish
  | none => throw .malformed

end StoredSystem

end LinearSystem
