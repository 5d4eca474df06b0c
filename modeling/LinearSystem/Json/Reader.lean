import LinearSystem.Json.Number
import LinearSystem.Stored.Error

namespace LinearSystem.Json

/-- Reads from the front of a text; the first thing wrong ends it. -/
abbrev Reader := StateT (List Char) (Except FormatError)

namespace Reader

variable {α σ : Type}

def fail : Reader α := throw .malformed

/-- Run a lexeme on the rest of the text. -/
def lexeme (f : List Char → Option (α × List Char)) : Reader α := do
  match f (← get) with
  | some (a, rest) =>
    set rest
    pure a
  | none => fail

/-- The next character after blanks, left in place. -/
def peek : Reader Char := do
  let s := (← get).dropWhile isBlank
  set s
  match s with
  | c :: _ => pure c
  | [] => fail

/-- The next character after blanks, which must be `c`. -/
def expect (c : Char) : Reader Unit := do
  if (← peek) = c then modify List.tail else fail

def word (w : String) : Reader Unit :=
  lexeme fun s => (Text.afterWord? w.toList s).map fun rest => ((), rest)

def string : Reader String := do
  expect '"'
  lexeme stringBody?

def number : Reader Float := do
  let c ← peek
  if c = '-' || Text.isDigit c then
    let n ← lexeme numeral?
    match n.value? with
    | some x => pure x
    | none => fail
  else fail

/-- Null, or a value. -/
def optional (r : Reader α) : Reader (Option α) := do
  if (← peek) = 'n' then
    word "null"
    pure none
  else some <$> r

/-- The next element of an array, unless it ends here. -/
def nextElement? (first : Bool) (r : Reader α) : Reader (Option α) := do
  if (← peek) = ']' then pure none
  else if first then some <$> r
  else
    expect ','
    if (← peek) = ']' then fail else some <$> r

/-- The next key of an object, unless it ends here. -/
def nextKey? (first : Bool) : Reader (Option String) := do
  if (← peek) = '}' then pure none
  else if first then some <$> string
  else
    expect ','
    some <$> string

def elements (r : Reader α) : Nat → Bool → Reader (List α)
  | 0, _ => fail
  | fuel + 1, first => do
    match ← nextElement? first r with
    | none => pure []
    | some a => return a :: (← elements r fuel false)

def array (r : Reader α) : Reader (List α) := do
  expect '['
  let l ← elements r (← get).length true
  expect ']'
  pure l

def members (field : σ → String → Reader σ) : Nat → Bool → σ → Reader σ
  | 0, _, _ => fail
  | fuel + 1, first, s => do
    match ← nextKey? first with
    | none => pure s
    | some key => members field fuel false (← field s key)

/-- An object read member by member. `field` gets each key and reads on from the colon;
`finish` is asked as soon as there are no more members. -/
def object (field : σ → String → Reader σ) (init : σ) (finish : σ → Except FormatError α) :
    Reader α := do
  expect '{'
  let a ← finish (← members field (← get).length true init)
  expect '}'
  pure a

/-- What a value nested in a skipped one is part of. -/
inductive Frame where
  | array
  | object

/-- Skip a value without looking at more than its grammar, to any depth. The frames are
those still open; with `more` a value has just ended, otherwise one is due. -/
def skipFrom : Nat → Bool → List Frame → Reader Unit
  | 0, _, _ => fail
  | fuel + 1, false, frames => do
    match ← peek with
    | 'n' => word "null"; skipFrom fuel true frames
    | 't' => word "true"; skipFrom fuel true frames
    | 'f' => word "false"; skipFrom fuel true frames
    | '"' =>
      modify List.tail
      lexeme fun s => (skipString? s).map fun rest => ((), rest)
      skipFrom fuel true frames
    | '[' =>
      modify List.tail
      if (← peek) = ']' then
        modify List.tail
        skipFrom fuel true frames
      else skipFrom fuel false (.array :: frames)
    | '{' =>
      modify List.tail
      if (← peek) = '}' then
        modify List.tail
        skipFrom fuel true frames
      else
        skipKey
        skipFrom fuel false (.object :: frames)
    | c =>
      if c = '-' || Text.isDigit c then
        let _ ← lexeme numeral?
        skipFrom fuel true frames
      else fail
  | _ + 1, true, [] => pure ()
  | fuel + 1, true, .array :: frames => do
    match ← peek with
    | ',' => modify List.tail; skipFrom fuel false (.array :: frames)
    | ']' => modify List.tail; skipFrom fuel true frames
    | _ => fail
  | fuel + 1, true, .object :: frames => do
    match ← peek with
    | ',' =>
      modify List.tail
      skipKey
      skipFrom fuel false (.object :: frames)
    | '}' => modify List.tail; skipFrom fuel true frames
    | _ => fail
where
  skipKey : Reader Unit := do
    expect '"'
    lexeme fun s => (skipString? s).map fun rest => ((), rest)
    expect ':'

/-- Every step but the last one takes a character away. -/
def skip : Reader Unit := do skipFrom (2 * (← get).length + 2) false []

/-- The value of the member whose key was just read. -/
def memberValue (r : Reader α) : Reader α := do
  expect ':'
  r

/-- A member that may occur once. -/
def once (name : String) (old : Option α) (r : Reader α) : Reader (Option α) := do
  if old.isSome then throw (.duplicateField name)
  some <$> memberValue r

/-- One of several names, as a string or as the key of an object that maps it to null. -/
def choice (names : List (String × α)) : Reader α := do
  match ← peek with
  | '"' => pick
  | '{' =>
    modify List.tail
    let a ← pick
    expect ':'
    discard peek
    word "null"
    expect '}'
    pure a
  | _ => fail
where
  pick : Reader α := do
    let name ← string
    match names.lookup name with
    | some a => pure a
    | none => throw (.unknownVariant name (names.map (·.1)))

/-- The value of a whole text. -/
def runText (r : Reader α) (text : String) : Except FormatError α := do
  let (a, rest) ← r.run text.toList
  if rest.all isBlank then pure a else throw .malformed

end Reader

end LinearSystem.Json
