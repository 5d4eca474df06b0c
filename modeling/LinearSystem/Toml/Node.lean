namespace LinearSystem.Toml

/-- How a table came to be. -/
inductive Origin where
  /-- It has a header of its own. -/
  | header
  /-- A longer header runs through it. -/
  | implied
  /-- A dotted key runs through it. -/
  | dotted
  deriving DecidableEq, Repr

/-- A value or a table of a document. Entries keep the order of the text. -/
inductive Node where
  | text (s : String)
  | integer (n : Int)
  | float (x : Float)
  | boolean (b : Bool)
  /-- A date, a time, or both. -/
  | moment
  | array (items : List Node)
  | inline (entries : List (String × Node))
  | table (origin : Origin) (entries : List (String × Node))
  /-- The tables of one repeated header. -/
  | tables (items : List (List (String × Node)))

abbrev Entries := List (String × Node)

namespace Entries

def replace (es : Entries) (key : String) (node : Node) : Entries :=
  es.map fun e => if e.1 = key then (key, node) else e

/-- Apply `f` to the table at the end of a path, which sees how that table came to be.
Missing tables are made on the way, with origin `made`. A path runs into the last of
several tables, but through no other value; a dotted key does not run into a table that
has a header. -/
def descend {β : Type} (made : Origin) (f : Origin → Entries → Option (Entries × β)) :
    List String → Origin → Entries → Option (Entries × β)
  | [], origin, es => f origin es
  | key :: path, _, es =>
    match es.lookup key with
    | none => do
      let (inner, b) ← descend made f path made []
      some (es ++ [(key, .table made inner)], b)
    | some (.table origin inner) =>
      if made = .dotted ∧ origin = .header then none
      else do
        let (inner, b) ← descend made f path origin inner
        some (es.replace key (.table origin inner), b)
    | some (.tables items) =>
      match items.getLast? with
      | none => none
      | some last => do
        let (inner, b) ← descend made f path .header last
        some (es.replace key (.tables (items.dropLast ++ [inner])), b)
    | some _ => none

/-- Assign a value to a key, dotted if `path` is not empty. No key is assigned twice, and
only tables made by dotted keys are extended by them. -/
def assign (es : Entries) (path : List String) (key : String) (value : Node) : Option Entries :=
  (descend .dotted (fun origin inner =>
    if (origin = .dotted) ↔ path = [] then none
    else if (inner.lookup key).isSome then none
    else some (inner ++ [(key, value)], ())) path .header es).map (·.1)

end Entries

end LinearSystem.Toml
