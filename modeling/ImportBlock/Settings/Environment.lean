import ImportBlock.Settings.Value
import ImportBlock.Toml.Scalar

namespace ImportBlock.Environment

open Text

def variableStart : Text := "ALIGN_IMPORTS_".toList

def lowerAscii (text : Text) : Text := text.map Char.toLower

/-- What the variable sets. Neither its name nor `start` is read with regard to case. -/
def settingName? (start name : Text) : Option Text :=
  (stripStart (lowerAscii start) (lowerAscii name)).map trim

def isSpace (c : Char) : Bool := c == ' ' || '\t' ≤ c && c ≤ '\r' && c != '\x0b'

def skipSpace (text : Text) : Text := text.dropWhile isSpace

def isSeparator (c : Char) : Bool :=
  c == ',' || c == '{' || c == '}' || c == '[' || c == ']'

def integer? (text : Text) : Option Int :=
  let (negative, digits) := splitSign text
  match digits, toNat? 10 digits with
  | _ :: _, some value =>
    if negative then if value ≤ Value.signBit then some (-value) else none
    else if value < Value.sizeBound then some value else none
  | _, _ => none

def plain (text : Text) : Value :=
  match integer? text with
  | some value => .integer value
  | none => .text text

def quoted? : Text → Option (Text × Text)
  | [] => none
  | '"' :: rest => some ([], rest)
  | '\\' :: c :: rest => (quoted? rest).map fun sides => ('\\' :: c :: sides.1, sides.2)
  | c :: rest => (quoted? rest).map fun sides => (c :: sides.1, sides.2)

def word? (text : Text) : Option (Value × Text) :=
  match skipSpace text with
  | '"' :: rest => do
    let (body, rest) ← quoted? rest
    some (.text (← Toml.unescape? false body), skipSpace rest)
  | text =>
    match stripStart "true".toList text, stripStart "false".toList text with
    | some rest, _ => some (.bool true, skipSpace rest)
    | none, some rest => some (.bool false, skipSpace rest)
    | none, none =>
      some (plain (trim (text.takeWhile (!isSeparator ·))),
        skipSpace (text.dropWhile (!isSeparator ·)))

/-- The rest of a list of words, at most as many as given. A comma may follow the last. -/
def words? : Nat → Text → Option (List Value × Text)
  | 0, _ => none
  | _ + 1, ']' :: rest => some ([], rest)
  | more + 1, text => do
    match ← word? text with
    | (value, ',' :: rest) => do
      let (values, rest) ← words? more rest
      some (value :: values, rest)
    | (value, ']' :: rest) => some ([value], rest)
    | _ => none

def read? (text : Text) : Option (Value × Text) :=
  match skipSpace text with
  | '[' :: rest =>
    (words? text.length rest).map fun (values, rest) => (.list values, skipSpace rest)
  | _ => word? text

/-- What cannot be read to its end is a text as it stands. -/
def value (text : Text) : Value :=
  match read? text with
  | some (value, []) => value
  | _ => .text text

/-- The setting of a variable. A name with dots makes a table of its first part. -/
def setting? (start : Text) (entry : String × String) : Option (Text × Value) := do
  let name ← settingName? start entry.1.toList
  let parts := splitOn '.' name
  if parts.any List.isEmpty then none
  else
    match parts with
    | [name] => some (name, value entry.2.toList)
    | name :: _ => some (name, .other)
    | [] => none

/-- The last of the variables for one setting counts. -/
def layer (start : Text) (environment : List (String × String)) : Layer :=
  (environment.filterMap (setting? start)).reverse

end ImportBlock.Environment
