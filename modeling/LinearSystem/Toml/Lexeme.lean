import LinearSystem.Text.Digits

namespace LinearSystem.Toml

open Text

def isBlank (c : Char) : Bool := c = ' ' || c = '\t'

def skipBlanks (s : List Char) : List Char := s.dropWhile isBlank

/-- A character that may stand in a comment or, quotes and backslashes apart, in a string
on one line: no control character but the tab. -/
def isPrintable (c : Char) : Bool :=
  c = '\t' || (decide (0x20 ≤ c.toNat) && decide (c.toNat ≠ 0x7F))

/-- What follows a line break, if there is one. -/
def afterNewline? : List Char → Option (List Char)
  | '\n' :: s => some s
  | '\r' :: '\n' :: s => some s
  | _ => none

/-- What follows a comment at the start of the text; without one, the text. -/
def skipComment : List Char → List Char
  | '#' :: s => s.dropWhile isPrintable
  | s => s

/-- What follows blanks and line breaks. -/
def skipBlankLines : List Char → List Char
  | [] => []
  | c :: s =>
    if isBlank c || c = '\n' then skipBlankLines s
    else if c = '\r' then
      match s with
      | '\n' :: s => skipBlankLines s
      | _ => c :: s
    else c :: s

/-- What follows blanks, line breaks and comments. -/
def skipTrivia : Nat → List Char → List Char
  | 0, s => s
  | fuel + 1, s =>
    match skipBlankLines s with
    | '#' :: s => skipTrivia fuel (s.dropWhile isPrintable)
    | s => s

/-- The end of a line: blanks, a comment, and a line break or the end of the text. -/
def endOfLine? (s : List Char) : Option (List Char) :=
  match skipComment (skipBlanks s) with
  | [] => some []
  | s => afterNewline? s

/-- The character of a code in hexadecimal with a fixed number of digits. -/
def codeEscape? (width : Nat) (s : List Char) : Option (Char × List Char) := do
  let ds := s.take width
  if ds.length = width then
    let c ← (← hexadecimal? ds) |> character?
    some (c, s.drop width)
  else none

/-- What an escape stands for, from the character behind the backslash on. -/
def escape? : List Char → Option (Char × List Char)
  | '"' :: s => some ('"', s)
  | '\\' :: s => some ('\\', s)
  | 'b' :: s => some ('\x08', s)
  | 'f' :: s => some ('\x0c', s)
  | 'n' :: s => some ('\n', s)
  | 'r' :: s => some ('\r', s)
  | 't' :: s => some ('\t', s)
  | 'u' :: s => codeEscape? 4 s
  | 'U' :: s => codeEscape? 8 s
  | _ => none

/-- A string with escapes on one line, from behind its opening quote. -/
def basicBody? : Nat → List Char → List Char → Option (String × List Char)
  | 0, _, _ => none
  | _ + 1, _, [] => none
  | fuel + 1, done, c :: s =>
    if c = '"' then some (String.ofList done.reverse, s)
    else if c = '\\' then
      match escape? s with
      | some (x, s) => basicBody? fuel (x :: done) s
      | none => none
    else if isPrintable c then basicBody? fuel (c :: done) s
    else none

/-- A string without escapes on one line, from behind its opening quote. -/
def literalBody? (done : List Char) : List Char → Option (String × List Char)
  | [] => none
  | c :: s =>
    if c = '\'' then some (String.ofList done.reverse, s)
    else if isPrintable c then literalBody? (c :: done) s
    else none

/-- What follows three closing quotes: up to two more quotes belong to the string. -/
def closeQuotes (quote : Char) (done : List Char) (s : List Char) : String × List Char :=
  let extra := (s.take 2).takeWhile (· = quote)
  (String.ofList (done.reverse ++ extra), s.drop extra.length)

/-- A line break that a backslash joins, with the blanks around it and the blank lines
that follow. -/
def joinedLine? (s : List Char) : Option (List Char) :=
  (afterNewline? (skipBlanks s)).map skipBlankLines

/-- A string over several lines, from behind its opening quotes. Line breaks are read as
line feeds. -/
def multilineBody? (quote : Char) (escapes : Bool) :
    Nat → List Char → List Char → Option (String × List Char)
  | 0, _, _ => none
  | _ + 1, _, [] => none
  | fuel + 1, done, c :: s =>
    if (c :: s).take 3 = [quote, quote, quote] then some (closeQuotes quote done (s.drop 2))
    else if escapes && c = '\\' then
      match joinedLine? s with
      | some s => multilineBody? quote escapes fuel done s
      | none =>
        match escape? s with
        | some (x, s) => multilineBody? quote escapes fuel (x :: done) s
        | none => none
    else
      match afterNewline? (c :: s) with
      | some s => multilineBody? quote escapes fuel ('\n' :: done) s
      | none => if isPrintable c then multilineBody? quote escapes fuel (c :: done) s else none

/-- A string of any of the four forms, if the text starts with a quote. -/
def string? (s : List Char) : Option (String × List Char) :=
  let fuel := s.length + 1
  match s with
  | '"' :: '"' :: '"' :: r => multilineBody? '"' true fuel [] ((afterNewline? r).getD r)
  | '"' :: r => basicBody? fuel [] r
  | '\'' :: '\'' :: '\'' :: r => multilineBody? '\'' false fuel [] ((afterNewline? r).getD r)
  | '\'' :: r => literalBody? [] r
  | _ => none

def isBareKeyChar (c : Char) : Bool := c.isAlphanum || c = '_' || c = '-'

/-- One part of a key: bare, or a string on one line. -/
def keyPart? (s : List Char) : Option (String × List Char) :=
  match s with
  | '"' :: r => basicBody? s.length [] r
  | '\'' :: r => literalBody? [] r
  | _ =>
    let name := s.takeWhile isBareKeyChar
    if name.isEmpty then none else some (String.ofList name, s.drop name.length)

/-- The parts of a dotted key, with blanks around each. -/
def keyParts? : Nat → List Char → Option (List String × List Char)
  | 0, _ => none
  | fuel + 1, s => do
    let (part, s) ← keyPart? (skipBlanks s)
    match skipBlanks s with
    | '.' :: s =>
      let (parts, s) ← keyParts? fuel s
      some (part :: parts, s)
    | s => some ([part], s)

/-- Keys and values nest less deeply than this. -/
def nestingLimit : Nat := 80

/-- A key, all its parts but the last one apart. -/
def key? (s : List Char) : Option (List String × String × List Char) := do
  let (parts, s) ← keyParts? (s.length + 1) s
  if nestingLimit ≤ parts.length then none
  else
    let last ← parts.getLast?
    some (parts.dropLast, last, s)

end LinearSystem.Toml
