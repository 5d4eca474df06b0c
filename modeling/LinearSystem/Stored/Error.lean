import LinearSystem.Solver.Error

namespace LinearSystem

/-- What is wrong with a stored text. -/
inductive FormatError where
  | missingField (name : String)
  | duplicateField (name : String)
  | unknownVariant (name : String) (expected : List String)
  /-- The text breaks the grammar, or a value has the wrong type. -/
  | malformed

/-- The message that comes with an error, if it has one of its own. -/
def FormatError.message? : FormatError → Option String
  | missingField name => some s!"missing field `{name}`"
  | duplicateField name => some s!"duplicate field `{name}`"
  | unknownVariant name expected =>
    some (s!"unknown variant `{name}`, expected " ++
      " or ".intercalate (expected.map fun e => s!"`{e}`"))
  | malformed => none

/-- Why the bytes of a file were not read. -/
inductive ReadFailure where
  | notFound
  | notDirectory
  | isDirectory
  | nameTooLong
  | nulInName
  | notText
  | other (text : String)

def ReadFailure.message : ReadFailure → String
  | notFound => "No such file or directory (os error 2)"
  | notDirectory => "Not a directory (os error 20)"
  | isDirectory => "Is a directory (os error 21)"
  | nameTooLong => "File name too long (os error 36)"
  | nulInName => "file name contained an unexpected NUL byte"
  | notText => "stream did not contain valid UTF-8"
  | other text => text

/-- Why a stored system was not loaded. -/
inductive LoadError where
  | unreadable (failure : ReadFailure)
  | format (error : FormatError)
  | unsupportedFormat (path : String)
  | invalidSystem (error : SolveError)

/-- The message of an error, with what a parser says about the text that it rejects. -/
def LoadError.message (parser : FormatError → String) : LoadError → String
  | unreadable failure => s!"IO error: {failure.message}"
  | format error => s!"Parse error: {parser error}"
  | unsupportedFormat path => s!"Unsupported format: {path}"
  | invalidSystem error => s!"Invalid system: {error.message}"

end LinearSystem
