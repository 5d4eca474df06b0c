import LinearSystem.Toml.Scalar

namespace LinearSystem.Toml

/-- The items of an array from behind its bracket. They are parted by commas, the last one
may have one too, and comments and line breaks may stand between them. -/
def arrayItems? (item : List Char → Option (Node × List Char)) :
    Nat → List Char → Option (List Node × List Char)
  | 0, _ => none
  | fuel + 1, s =>
    match skipTrivia s.length s with
    | ']' :: s => some ([], s)
    | s => do
      let (node, s) ← item s
      match skipTrivia s.length s with
      | ',' :: s =>
        let (nodes, s) ← arrayItems? item fuel s
        some (node :: nodes, s)
      | ']' :: s => some ([node], s)
      | _ => none

/-- A key, an equals sign and a value. -/
def keyValue? (item : List Char → Option (Node × List Char)) (s : List Char) :
    Option (List String × String × Node × List Char) := do
  let (path, key, s) ← key? s
  match s with
  | '=' :: s =>
    let (node, s) ← item (skipBlanks s)
    some (path, key, node, s)
  | _ => none

/-- The entries of an inline table, one at least, with commas between them. -/
def inlineEntries? (item : List Char → Option (Node × List Char)) :
    Nat → Entries → List Char → Option (Entries × List Char)
  | 0, _, _ => none
  | fuel + 1, es, s => do
    let (path, key, node, s) ← keyValue? item s
    let es ← es.assign path key node
    match skipBlanks s with
    | ',' :: s => inlineEntries? item fuel es s
    | '\x7d' :: s => some (es, s)
    | _ => none

/-- A value in which containers nest at most `depth` deep. -/
def value? : Nat → List Char → Option (Node × List Char)
  | depth, s =>
    match s with
    | '[' :: r =>
      match depth with
      | 0 => none
      | depth + 1 => (arrayItems? (value? depth) (r.length + 1) r).map fun p => (.array p.1, p.2)
    | '\x7b' :: r =>
      match depth with
      | 0 => none
      | depth + 1 =>
        match skipBlanks r with
        | '\x7d' :: r => some (.inline [], r)
        | r => (inlineEntries? (value? depth) (r.length + 1) [] r).map fun p => (.inline p.1, p.2)
    | '"' :: _ => (string? s).map fun p => (.text p.1, p.2)
    | '\'' :: _ => (string? s).map fun p => (.text p.1, p.2)
    | _ => scalar? s

/-- A line of a document that says something. -/
inductive Statement where
  | assign (path : List String) (key : String) (value : Node)
  | header (path : List String) (key : String)
  | repeatedHeader (path : List String) (key : String)

/-- One statement and the end of its line. -/
def statement? (s : List Char) : Option (Statement × List Char) :=
  match s with
  | '[' :: '[' :: s => do
    let (path, key, s) ← key? s
    let s ← Text.afterWord? [']', ']'] s
    let s ← endOfLine? s
    some (.repeatedHeader path key, s)
  | '[' :: s => do
    let (path, key, s) ← key? s
    let s ← Text.afterWord? [']'] s
    let s ← endOfLine? s
    some (.header path key, s)
  | s => do
    let (path, key, node, s) ← keyValue? (value? (nestingLimit - 1)) s
    let s ← endOfLine? s
    some (.assign path key node, s)

def statements? : Nat → List Char → Option (List Statement)
  | 0, _ => none
  | fuel + 1, s =>
    match skipTrivia s.length s with
    | [] => some []
    | s => do
      let (first, s) ← statement? s
      let others ← statements? fuel s
      some (first :: others)

/-- A document under construction. The table under the last header is kept apart until
the next header. -/
structure Builder where
  root : Entries
  current : Entries
  /-- The last header: its path, its key, and whether it may be repeated. -/
  header : Option (List String × String × Bool)

namespace Builder

def start : Builder := ⟨[], [], none⟩

/-- The entries of the document with the current table put into its place. -/
def close (b : Builder) : Option Entries :=
  match b.header with
  | none => some b.current
  | some (path, key, false) =>
    (Entries.descend .implied (fun _ es =>
      if (es.lookup key).isSome then none
      else some (es ++ [(key, .table .header b.current)], ())) path .header b.root).map (·.1)
  | some (path, key, true) =>
    (Entries.descend .implied (fun _ es =>
      match es.lookup key with
      | none => some (es ++ [(key, .tables [b.current])], ())
      | some (.tables items) => some (es.replace key (.tables (items ++ [b.current])), ())
      | some _ => none) path .header b.root).map (·.1)

/-- Open the table of a header. One that longer headers ran through is taken out and goes
on; any other value under that key is in the way. -/
def openTable (root : Entries) (path : List String) (key : String) : Option Builder := do
  let (root, current) ← Entries.descend .implied (fun _ es =>
    match es.lookup key with
    | none => some (es, [])
    | some (.table .implied inner) => some (es.filter fun e => e.1 ≠ key, inner)
    | some _ => none) path .header root
  some ⟨root, current, some (path, key, false)⟩

def add (b : Builder) : Statement → Option Builder
  | .assign path key value => do
    let current ← b.current.assign path key value
    some { b with current := current }
  | .header path key => do openTable (← b.close) path key
  | .repeatedHeader path key => do some ⟨← b.close, [], some (path, key, true)⟩

end Builder

/-- The entries of a document, unless its text breaks the grammar or it defines something
twice. -/
def document? (text : String) : Option Entries := do
  let s := match text.toList with
    | '\ufeff' :: s => s
    | s => s
  let statements ← statements? (s.length + 1) s
  let b ← statements.foldlM Builder.add Builder.start
  b.close

end LinearSystem.Toml
