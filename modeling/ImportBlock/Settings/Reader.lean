import ImportBlock.Failure
import ImportBlock.Settings.Environment
import ImportBlock.Settings.Load
import ImportBlock.Toml.Document

namespace ImportBlock

/-- How the values of a settings file and of the environment are read, laid over one another, and
made into settings. -/
structure Reader where
  Value : Type
  Layer : Type
  get? : Layer → Text → Option Value
  /-- From the text of a settings file. -/
  file? : Text → Option Layer
  /-- From the variables whose names begin with the text. -/
  ofVariables : Text → List (String × String) → Layer
  /-- From the text of one variable. -/
  value : Text → Value
  ofSettings : Settings → Layer
  /-- The first layer with the second laid over it. -/
  merge : Layer → Layer → Layer
  bool? : Value → Option Bool
  size? : Value → Option Nat
  order? : Value → Option (List Category)
  sortBy? : Value → Option SortOrder
  trailing? : Value → Option TrailingComments
  settings? : Layer → Option Settings

def Settings.checked (settings : Settings) : Except SettingsFault Settings :=
  match settings.validate with
  | .ok () => .ok settings
  | .error fault => .error (.invalid fault)

namespace Reader

def extract (reader : Reader) (layer : reader.Layer) : Except SettingsFault Settings :=
  match reader.settings? layer with
  | none => .error .load
  | some settings => settings.checked

/-- What is laid over a layer has its values looked up first. -/
def standard : Reader where
  Value := ImportBlock.Value
  Layer := ImportBlock.Layer
  get? layer name := layer.lookup name
  file? := Toml.read?
  ofVariables := Environment.layer
  value := Environment.value
  ofSettings := Layer.ofSettings
  merge lower upper := upper ++ lower
  bool? := Value.bool?
  size? := Value.size?
  order? := Value.order?
  sortBy? := Value.choice? SortOrder.names
  trailing? := Value.choice? TrailingComments.names
  settings? := Layer.settings?

end Reader
end ImportBlock
