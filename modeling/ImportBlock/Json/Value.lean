import ImportBlock.Json.Token

namespace ImportBlock

/-- Fields keep their order, and a name may come more than once. -/
inductive Json where
  | null
  | bool (value : Bool)
  | number (value : Json.Number)
  | string (value : Text)
  | array (items : List Json)
  | object (fields : List (Text × Json))

namespace Json

/-- A value that has been begun, what it holds so far in reverse. -/
inductive Frame where
  | items (done : List Json)
  | fields (done : List (Text × Json)) (name : Text)

inductive Expect where
  | value
  | valueOrClose
  | name (done : List (Text × Json))
  | nameOrClose
  | colon (done : List (Text × Json)) (name : Text)
  | separator
  | nothing (value : Json)

structure Reader where
  frames : List Frame
  expect : Expect

def maxDepth : Nat := 127

namespace Reader

def start : Reader := ⟨[], .value⟩

def give (value : Json) : List Frame → Reader
  | [] => ⟨[], .nothing value⟩
  | .items done :: frames => ⟨.items (value :: done) :: frames, .separator⟩
  | .fields done name :: frames => ⟨.fields ((name, value) :: done) name :: frames, .separator⟩

def begin? (frames : List Frame) : Token → Option Reader
  | .null => some (give .null frames)
  | .bool value => some (give (.bool value) frames)
  | .number value => some (give (.number value) frames)
  | .string value => some (give (.string value) frames)
  | .openArray =>
    if frames.length < maxDepth then some ⟨.items [] :: frames, .valueOrClose⟩ else none
  | .openObject => if frames.length < maxDepth then some ⟨frames, .nameOrClose⟩ else none
  | _ => none

def separate? : List Frame → Token → Option Reader
  | .items done :: frames, .comma => some ⟨.items done :: frames, .value⟩
  | .items done :: frames, .closeArray => some (give (.array done.reverse) frames)
  | .fields done _ :: frames, .comma => some ⟨frames, .name done⟩
  | .fields done _ :: frames, .closeObject => some (give (.object done.reverse) frames)
  | _, _ => none

def next? (reader : Reader) (token : Token) : Option Reader :=
  match reader.expect, token with
  | .value, token => begin? reader.frames token
  | .valueOrClose, .closeArray => separate? reader.frames .closeArray
  | .valueOrClose, token => begin? reader.frames token
  | .nameOrClose, .closeObject => some (give (.object []) reader.frames)
  | .nameOrClose, .string name => some ⟨reader.frames, .colon [] name⟩
  | .name done, .string name => some ⟨reader.frames, .colon done name⟩
  | .colon done name, .colon => some ⟨.fields done name :: reader.frames, .value⟩
  | .separator, token => separate? reader.frames token
  | _, _ => none

end Reader

def ofTokens? (reader : Reader) : List Token → Option (Json × List Token)
  | [] => match reader.expect with
    | .nothing value => some (value, [])
    | _ => none
  | token :: rest =>
    match reader.expect with
    | .nothing value => some (value, token :: rest)
    | _ => (reader.next? token).bind (ofTokens? · rest)

end Json
end ImportBlock
