import ImportBlock.CommandLine.Parse
import ImportBlock.Host.FileDocument
import ImportBlock.Host.Settings

namespace ImportBlock

def SortOrder.label : SortOrder → String
  | .alphabetical => "Alphabetical"
  | .lengthAscending => "LengthAsc"
  | .lengthDescending => "LengthDesc"

def TrailingComments.label : TrailingComments → String
  | .keep => "Keep"
  | .discard => "Discard"

def Settings.label (settings : Settings) : String :=
  "Settings \x7b " ++ String.intercalate ", " [
    "import_order: " ++ Category.listLabel settings.importOrder,
    "sort_by: " ++ settings.sortBy.label,
    s!"remove_unused: {settings.removeUnused}",
    s!"empty_line_between_groups: {settings.emptyLineBetweenGroups}",
    s!"max_line_length: {settings.maxLineLength}",
    s!"group_by_scope: {settings.groupByScope}",
    s!"preserve_leading_comments: {settings.preserveLeadingComments}",
    s!"wrap_multiline_imports: {settings.wrapMultilineImports}",
    "trailing_comments: " ++ settings.trailingComments.label,
    s!"whole_document: {settings.wholeDocument}"] ++ " \x7d"

namespace Arguments

def threshold (arguments : Arguments) : Level :=
  if arguments.quiet then .error
  else if arguments.verbose = 0 then .warn
  else if arguments.verbose = 1 then .info
  else .debug

end Arguments

namespace Tool

variable {m : Type → Type} [Monad m]

abbrev Step (m : Type → Type) := ExceptT Failure m

def settings (host : Host m) (arguments : Arguments) (reader : Reader := .standard) :
    Step m Settings := do
  match ← host.settings arguments.config reader with
  | .error fault => throw (.settings fault)
  | .ok settings =>
    match (arguments.override settings).checked with
    | .error fault => throw (.settings fault)
    | .ok settings =>
      host.note ⟨.debug, s!"Effective settings: {settings.label}"⟩
      return settings

def decodeOutput (bytes : List UInt8) : Step m Text :=
  match Text.decode bytes with
  | .ok text => return text
  | .error fault => throw (.notUtf8 fault)

def repository? (host : Host m) : Step m (Option String) := do
  match ← host.run { program := "git", arguments := ["rev-parse", "--show-toplevel"] } with
  | .error fault => throw (.runGit fault)
  | .ok finished =>
    if finished.code = 0 then
      return some (String.ofList (Text.trim (← decodeOutput finished.output)))
    else return none

/-- The files that the last commit and the changes since then leave in place. -/
def changedFiles (host : Host m) (root : String) : Step m (List String) := do
  let arguments := ["diff", "--diff-filter=d", "--name-only", "HEAD~1"]
  match ← host.run { program := "git", arguments, folder := some root } with
  | .error fault => throw (.changedFiles (some fault))
  | .ok finished =>
    if finished.code = 0 then
      let names := ((Text.lines (← decodeOutput finished.output)).map Text.trim).filter
        (!·.isEmpty)
      return names.map fun name => Path.join root (String.ofList name)
    else throw (.changedFiles none)

def classify (host : Host m) (paths : List String) : Step m (List (String × Language)) := do
  (paths.filter fun path => (Language.ofPath? path).isNone).forM fun path =>
    host.note ⟨.debug, s!"Ignoring {path}: not a JS/TS source"⟩
  return Language.classify paths

/-- The files that changed last, unless there are none or no repository. -/
def filesOfRepository (host : Host m) : Step m (Option (List (String × Language))) := do
  match ← repository? host with
  | none => throw .notInRepository
  | some root =>
    host.print s!"Git root: {root}"
    let files ← classify host (← changedFiles host root)
    if files.isEmpty then
      host.print "No JS/TS files changed in current commit"
      return none
    else return some files

def provider? (host : Host m) (arguments : Arguments) :
    Option (String → m (Except ProviderFault (List Text))) :=
  match arguments.unusedReport with
  | some path => some fun _ => host.reportFile path
  | none => arguments.unusedCmd.map host.reportCommand

def aligner (host : Host m) (settings : Settings) (arguments : Arguments) :
    Aligner (StateT Unsaved m) where
  settings := settings
  provider := (provider? host arguments).map fun fetch id => fetch id
  note := fun note => host.note note

def alignFile (aligner : Aligner (StateT Unsaved m)) (document : Document (StateT Unsaved m))
    (onSave : Bool) : FileDocument.Step m Outcome :=
  if onSave then aligner.didSave document else aligner.alignAndSave document

/-- Tells whether the file is out of order and was left so. -/
def tell (host : Host m) (check : Bool) (path : String) (outcome : Outcome) : Step m Bool := do
  match outcome with
  | .edited =>
    if check then
      host.print s!"Imports out of order: {path}"
      return true
    else
      host.print s!"Aligned imports in {path}"
      return false
  | .cancelled =>
    host.print s!"Skipped {path}: file changed meanwhile"
    return false
  | .noImports | .unchanged | .skipped =>
    host.note ⟨.debug, s!"{path}: {outcome.name}"⟩
    return false

/-- Puts one file in order. What is in flight then is so for the next file. -/
def visit (host : Host m) (settings : Settings) (arguments : Arguments) (inFlight : InFlight)
    (file : String × Language) : Step m (Bool × InFlight) := do
  host.note ⟨.info, s!"Aligning {file.1} ({file.2.name})"⟩
  let document := fileDocument host file.1 arguments.check
  let step := alignFile (aligner host settings arguments) document arguments.onSave
  let ((result, inFlight), _) ← (step.run.run inFlight).run ⟨none⟩
  match result with
  | .error failure => throw failure
  | .ok outcome => return (← tell host arguments.check file.1 outcome, inFlight)

def visitAll (host : Host m) (settings : Settings) (arguments : Arguments) :
    InFlight → List (String × Language) → Step m Nat
  | _, [] => return 0
  | inFlight, file :: rest => do
    let (misaligned, inFlight) ← visit host settings arguments inFlight file
    let count ← visitAll host settings arguments inFlight rest
    return if misaligned then count + 1 else count

def runFiles (host : Host m) (settings : Settings) (arguments : Arguments)
    (files : List (String × Language)) : Step m Unit := do
  if files.isEmpty then host.print "No JS/TS files to align"
  else
    let count ← visitAll host settings arguments .none files
    if count = 0 then host.print "✓ All imports aligned!"
    else throw (.misaligned count)

def run (host : Host m) (arguments : Arguments) (reader : Reader := .standard) : Step m Unit := do
  let settings ← settings host arguments reader
  if arguments.files.isEmpty then
    match ← filesOfRepository host with
    | none => return
    | some files => runFiles host settings arguments files
  else runFiles host settings arguments (← classify host arguments.files)

def exitCode : Except Failure Unit → UInt32
  | .ok () => 0
  | .error _ => 1

end Tool
end ImportBlock
