import ImportBlock.CommandLine.Arguments

namespace ImportBlock.Arguments

open Text

/-- What has been read but not yet entered: an option with or without its value, or files. -/
inductive Pending where
  | nothing
  | choice (choice : Choice) (value : Option String)
  | files (values : List String)
  deriving DecidableEq, Repr

structure Reading where
  arguments : Arguments
  pending : Pending
  deriving DecidableEq, Repr

namespace Reading

def settle (reading : Reading) : Except UsageFault Arguments :=
  match reading.pending with
  | .nothing => .ok reading.arguments
  | .choice _ none => .error .invalidValue
  | .choice choice (some value) => reading.arguments.choose choice value
  | .files values => reading.arguments.addFiles values

def raise (reading : Reading) (flag : Flag) : Except UsageFault Reading := do
  return ⟨← (← reading.settle).raise flag, .nothing⟩

def value (reading : Reading) (word : String) : Except UsageFault Reading :=
  match reading.pending with
  | .choice choice none => .ok { reading with pending := .choice choice (some word) }
  | .files values => .ok { reading with pending := .files (values ++ [word]) }
  | .nothing | .choice _ (some _) => do return ⟨← reading.settle, .files [word]⟩

def shorts (reading : Reading) : Text → Except UsageFault Reading
  | [] => .ok reading
  | c :: rest =>
    match Flag.shortNames.lookup c with
    | none => .error .unknownArgument
    | some flag => do shorts (← reading.raise flag) rest

/-- A flag takes no value, an option takes it behind `=` or as the next word. -/
def long (reading : Reading) (word : Text) : Except UsageFault Reading :=
  let name := word.takeWhile (· != '=')
  let value := (word.drop name.length).tail?
  match Switch.longNames.lookup name, value with
  | none, _ => .error .unknownArgument
  | some (.flag _), some _ => .error .tooManyValues
  | some (.flag flag), none => reading.raise flag
  | some (.choice choice), some value => do
    return ⟨← (← reading.settle).choose choice (String.ofList value), .nothing⟩
  | some (.choice choice), none => do return ⟨← reading.settle, .choice choice none⟩

def word (reading : Reading) (word : String) : Except UsageFault Reading :=
  match word.toList with
  | '-' :: '-' :: name => reading.long name
  | '-' :: c :: flags => reading.shorts (c :: flags)
  | _ => reading.value word

/-- All words are files. An option that waits for its value has none. -/
def allFiles (reading : Reading) : List String → Except UsageFault Reading
  | [] => .ok reading
  | word :: rest =>
    match reading.pending with
    | .files values => allFiles { reading with pending := .files (values ++ [word]) } rest
    | _ => do allFiles ⟨← reading.settle, .files [word]⟩ rest

def words (reading : Reading) : List String → Except UsageFault Reading
  | [] => .ok reading
  | next :: rest =>
    if next = "--" then reading.allFiles rest
    else do words (← reading.word next) rest

end Reading

def parse (words : List String) : Except UsageFault Arguments := do
  let reading ← Reading.words ⟨{}, .nothing⟩ words
  (← reading.settle).checked

end ImportBlock.Arguments
