import LinearSystem.Json.Writer
import LinearSystem.Stored.System

namespace LinearSystem.Settings

/-- The settings as an object. An unset tolerance is left out. -/
def toJsonValue (s : Settings) : Json.Value :=
  .object <|
    (s.tolerance.toList.map fun t => ("tolerance", Json.Value.number t)) ++
      [("pivoting", .text s.pivoting.name), ("zero_row_check", .text s.zeroRows.name)]

def toJson (s : Settings) : String := s.toJsonValue.compact

end LinearSystem.Settings
