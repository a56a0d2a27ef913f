import TurtleChain.Config.Document

/-! Loading configurations from files. -/

namespace TurtleChain

/-- The bytes of the file at a path, or the reason why they cannot be read. -/
abbrev Files := String → Except String ByteArray

namespace Config

def read (files : Files) (path : String) : Except ConfigError Config := do
  let bytes ← (files path).mapError .unreadable
  match String.fromUTF8? bytes with
  | some text => ofDocument text
  | none => .error (.unreadable "stream did not contain valid UTF-8")

/-- The configuration with its overrides, valid. -/
def checked (config : Config) (o : Overrides) : Except ConfigError Config := do
  let config := config.override o
  config.validate
  return config

/-- The configuration of a file, or the default one without a path, with overrides on top. -/
def load (files : Files) (path : Option String) (o : Overrides) : Except ConfigError Config := do
  let config ← match path with
    | some path => read files path
    | none => .ok {}
  config.checked o

end Config

end TurtleChain
