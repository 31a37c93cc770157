import ImportBlock.Json.Value
import ImportBlock.Text.Utf8

/-! Reports of unused symbols: a list of names, or an object that holds one under `unused`. -/

namespace ImportBlock.Report

inductive Fault where
  | notJson
  | wrongShape
  deriving DecidableEq, Repr

def Fault.message : Fault → String
  | .notJson => "Malformed unused-symbol report: syntax"
  | .wrongShape => "Malformed unused-symbol report: " ++
      "data did not match any variant of untagged enum Report"

def name? : Json → Option Text
  | .string name => some name
  | _ => none

def names? : Json → Option (List Text)
  | .array items => items.mapM name?
  | _ => none

def unusedKey : Text := "unused".toList

/-- Other fields do not matter, but `unused` stands there once. -/
def ofJson? : Json → Option (List Text)
  | .object fields =>
    match fields.filter (·.1 == unusedKey) with
    | [field] => names? field.2
    | _ => none
  | json => names? json

/-- The shape of the first value decides before anything behind it is looked at. -/
def read (bytes : List UInt8) : Except Fault (List Text) :=
  let (text, left) := Text.decodePart bytes
  let tokens := Json.tokens 0 text ++ if left.isEmpty then [] else [.bad]
  match Json.ofTokens? .start tokens with
  | none => .error .notJson
  | some (json, rest) =>
    match ofJson? json with
    | none => .error .wrongShape
    | some names => if rest.isEmpty then .ok names else .error .notJson

end ImportBlock.Report
