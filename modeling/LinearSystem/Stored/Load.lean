import LinearSystem.Stored.Json
import LinearSystem.Stored.Path
import LinearSystem.Stored.Toml

namespace LinearSystem

def TextFormat.readSystem : TextFormat → String → Except FormatError StoredSystem
  | json => StoredSystem.ofJson
  | toml => StoredSystem.ofToml

def TextFormat.readSettings : TextFormat → String → Except FormatError Settings
  | json => Settings.ofJson
  | toml => Settings.ofToml

def decodeText (content : ByteArray) : Except ReadFailure String :=
  match String.fromUTF8? content with
  | some text => .ok text
  | none => .error .notText

/-- The system at a path, whose extension is looked at before the file is. -/
def StoredSystem.load (read : String → Except ReadFailure ByteArray) (path : String) :
    Except LoadError StoredSystem :=
  match TextFormat.ofPath? path with
  | none => .error (.unsupportedFormat path)
  | some format =>
    match read path >>= decodeText with
    | .error e => .error (.unreadable e)
    | .ok text => (format.readSystem text).mapError .format

end LinearSystem
