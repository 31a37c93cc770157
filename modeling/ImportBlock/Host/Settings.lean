import ImportBlock.Host.Basic
import ImportBlock.Settings.Reader

namespace ImportBlock.Host

variable {m : Type → Type} [Monad m]

def settingsName : String := ".align-imports.toml"

def findSettings? (host : Host m) : m (Option String) := do
  (Path.ancestors (← host.folder)).findSomeM? fun folder => do
    let path := Path.join folder settingsName
    return if ← host.isFile path then some path else none

def readLayer (host : Host m) (path : String) (reader : Reader) :
    m (Except SettingsFault reader.Layer) := do
  match ← host.readText path with
  | .error _ => return .error .load
  | .ok text =>
    match reader.file? text with
    | none => return .error .load
    | some layer => return .ok layer

/-- The environment goes before all that is there already. -/
def layered (host : Host m) (reader : Reader) (lower : reader.Layer) :
    m (Except SettingsFault Settings) := do
  let upper := reader.ofVariables Environment.variableStart (← host.environment)
  return reader.extract (reader.merge lower upper)

def settingsFrom (host : Host m) (path : String) (reader : Reader) :
    m (Except SettingsFault Settings) := do
  match ← host.readLayer path reader with
  | .error fault => return .error fault
  | .ok file => host.layered reader (reader.merge (reader.ofSettings {}) file)

/-- From the file that is named, or else from the nearest one if there is any. -/
def settings (host : Host m) (named : Option String) (reader : Reader := .standard) :
    m (Except SettingsFault Settings) := do
  match named with
  | some path =>
    if ← host.isFile path then host.settingsFrom path reader else return .error (.missing path)
  | none =>
    match ← host.findSettings? with
    | none => host.layered reader (reader.ofSettings {})
    | some path =>
      host.note ⟨.debug, s!"Using settings from {path}"⟩
      host.settingsFrom path reader

end ImportBlock.Host
