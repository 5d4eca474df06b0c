import LinearSystem.Decimal.Text

namespace LinearSystem.Json

/-- A value to be written. -/
inductive Value where
  | null
  | number (x : Float)
  | count (n : Nat)
  | text (s : String)
  | array (items : List Value)
  | object (members : List (String × Value))

def hexDigit (d : Nat) : Char := Char.ofNat (if d < 10 then 48 + d else 87 + d)

/-- The written form of a character inside a string. -/
def escapeChar (c : Char) : List Char :=
  match c with
  | '"' => ['\\', '"']
  | '\\' => ['\\', '\\']
  | '\x08' => ['\\', 'b']
  | '\x0c' => ['\\', 'f']
  | '\n' => ['\\', 'n']
  | '\r' => ['\\', 'r']
  | '\t' => ['\\', 't']
  | c =>
    if c.toNat < 0x20 then
      ['\\', 'u', '0', '0', hexDigit (c.toNat / 16), hexDigit (c.toNat % 16)]
    else [c]

def quoted (s : String) : String :=
  "\"" ++ String.ofList (s.toList.flatMap escapeChar) ++ "\""

namespace Value

mutual

/-- The value on one line without blanks. -/
def compact : Value → String
  | null => "null"
  | number x => Decimal.report x
  | count n => toString n
  | text s => quoted s
  | array items => "[" ++ ",".intercalate (compactItems items) ++ "]"
  | object members => "\x7b" ++ ",".intercalate (compactMembers members) ++ "\x7d"

def compactItems : List Value → List String
  | [] => []
  | v :: vs => v.compact :: compactItems vs

def compactMembers : List (String × Value) → List String
  | [] => []
  | (k, v) :: ms => (quoted k ++ ":" ++ v.compact) :: compactMembers ms

end

def newLine (depth : Nat) : String := "\n" ++ String.ofList (List.replicate (2 * depth) ' ')

/-- Items on lines of their own between brackets; brackets alone if there are none. -/
def block (depth : Nat) (opening closing : String) (items : List String) : String :=
  if items.isEmpty then opening ++ closing
  else
    opening ++ newLine (depth + 1) ++ ("," ++ newLine (depth + 1)).intercalate items ++
      newLine depth ++ closing

mutual

/-- The value with each item on a line of its own, two blanks deeper than its container. -/
def pretty (depth : Nat) : Value → String
  | null => "null"
  | number x => Decimal.report x
  | count n => toString n
  | text s => quoted s
  | array items => block depth "[" "]" (prettyItems (depth + 1) items)
  | object members => block depth "\x7b" "\x7d" (prettyMembers (depth + 1) members)

def prettyItems (depth : Nat) : List Value → List String
  | [] => []
  | v :: vs => v.pretty depth :: prettyItems depth vs

def prettyMembers (depth : Nat) : List (String × Value) → List String
  | [] => []
  | (k, v) :: ms => (quoted k ++ ": " ++ v.pretty depth) :: prettyMembers depth ms

end

end Value

end LinearSystem.Json
