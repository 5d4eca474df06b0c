namespace LinearSystem

inductive TextFormat where
  | json
  | toml
  deriving DecidableEq, Repr

namespace TextFormat

/-- The parts of a path between its slashes. -/
def splitPath : List Char → List (List Char)
  | [] => [[]]
  | c :: s =>
    if c = '/' then [] :: splitPath s
    else
      match splitPath s with
      | part :: parts => (c :: part) :: parts
      | [] => [[c]]

/-- The last part of a path. Slashes at its end do not count, nor do dots that stand for
the folder itself. -/
def fileName? (path : List Char) : Option (List Char) :=
  ((splitPath path).filter fun p => p ≠ [] && p ≠ ['.']).getLast?

/-- What follows the last dot of a file name, unless the name has no dot but one in front. -/
def extension? (name : List Char) : Option (List Char) :=
  if name = ['.', '.'] then none
  else
    let ext := (name.reverse.takeWhile (· ≠ '.')).reverse
    if name.length ≤ ext.length + 1 then none else some ext

/-- The format that the extension of a path names, in letters of either case. -/
def ofPath? (path : String) : Option TextFormat := do
  let ext ← extension? (← fileName? path.toList)
  match String.ofList (ext.map Char.toLower) with
  | "json" => some json
  | "toml" => some toml
  | _ => none

end TextFormat

end LinearSystem
