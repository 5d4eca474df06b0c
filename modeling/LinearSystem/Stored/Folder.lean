import LinearSystem.Stored.Error
import LinearSystem.Stored.Path

namespace LinearSystem

/-- A file, or a folder with its entries by name. -/
inductive Entry where
  | file (content : ByteArray)
  | folder (entries : List (String × Entry))

abbrev Folder := List (String × Entry)

namespace Folder

def parts (path : String) : List String :=
  (TextFormat.splitPath path.toList).map String.ofList

/-- The longest name that an entry may have, in bytes. -/
def nameLimit : Nat := 255

/-- The longest path that may be looked up, in bytes. -/
def pathLimit : Nat := 4095

/-- Follow a path. The folders passed through are kept to step back into; above the first
one nothing is found. -/
def walk (above : List Folder) (here : Entry) : List String → Except ReadFailure Entry
  | [] => .ok here
  | name :: path =>
    match here with
    | .file _ => .error .notDirectory
    | .folder es =>
      if name = "" || name = "." then walk above here path
      else if name = ".." then
        match above with
        | [] => walk [] (.folder []) path
        | up :: above => walk above (.folder up) path
      else if nameLimit < name.utf8ByteSize then .error .nameTooLong
      else
        match es.lookup name with
        | none => .error .notFound
        | some entry => walk (es :: above) entry path

/-- The content of the file at a path from this folder. A path that starts with a slash
leads elsewhere, where nothing is found. -/
def read (root : Folder) (path : String) : Except ReadFailure ByteArray :=
  if path.toList.contains '\x00' then .error .nulInName
  else if pathLimit < path.utf8ByteSize then .error .nameTooLong
  else
    let base := if path.startsWith "/" then [] else root
    match walk [] (.folder base) (parts path) with
    | .ok (.file content) => .ok content
    | .ok (.folder _) => .error .isDirectory
    | .error e => .error e

end Folder

end LinearSystem
