import ImportBlock.Settings.Basic
import ImportBlock.Text.Utf8

namespace ImportBlock

inductive SystemFault where
  | notFound
  | notFolder
  | isFolder
  | nameTooLong
  | noPermission
  | nulInName
  | notUtf8
  deriving DecidableEq, Repr

def SystemFault.message : SystemFault → String
  | .notFound => "No such file or directory (os error 2)"
  | .notFolder => "Not a directory (os error 20)"
  | .isFolder => "Is a directory (os error 21)"
  | .nameTooLong => "File name too long (os error 36)"
  | .noPermission => "Permission denied (os error 13)"
  | .nulInName => "file name contained an unexpected NUL byte"
  | .notUtf8 => "stream did not contain valid UTF-8"

def Category.label : Category → String
  | .package => "Package"
  | .scoped => "Scoped"
  | .relative => "Relative"

def Category.listLabel (order : List Category) : String :=
  "[" ++ String.intercalate ", " (order.map label) ++ "]"

def InvalidSettings.message : InvalidSettings → String
  | .importOrder order =>
    "import_order must list package, scoped and relative exactly once, got " ++
      Category.listLabel order
  | .maxLineLength => "max_line_length must be greater than zero"

inductive SettingsFault where
  | load
  | missing (path : String)
  | invalid (fault : InvalidSettings)
  deriving DecidableEq, Repr

def SettingsFault.message : SettingsFault → String
  | .load => "Failed to load settings"
  | .missing path => s!"Settings file '{path}' does not exist"
  | .invalid fault => fault.message

inductive Failure where
  | unreadableDocument (id : String) (cause : Failure)
  | unreadableFile (path : String) (cause : SystemFault)
  | unwritableFile (path : String) (cause : SystemFault)
  | invalidRange (start stop : Nat) (path : String)
  | document (message : String)
  | tooDeeplyNested
  | settings (fault : SettingsFault)
  | changedFiles (cause : Option SystemFault)
  | runGit (cause : SystemFault)
  | notInRepository
  | notUtf8 (fault : Text.Utf8Fault)
  | misaligned (count : Nat)
  deriving DecidableEq, Repr

namespace Failure

def chain : Failure → List String × Option SystemFault
  | .unreadableDocument id cause =>
    let (messages, fault) := chain cause
    (s!"No active document: cannot read {id}" :: messages, fault)
  | .unreadableFile path cause => ([s!"Failed to read file: {path}"], some cause)
  | .unwritableFile path cause => ([s!"Failed to write file: {path}"], some cause)
  | .invalidRange start stop path => ([s!"Invalid range {start}..{stop} for {path}"], none)
  | .document message => ([message], none)
  | .tooDeeplyNested => (["Save events nest too deeply"], none)
  | .settings fault => ([fault.message], none)
  | .changedFiles cause => (["Failed to get changed files"], cause)
  | .runGit cause => (["Failed to run git"], some cause)
  | .notInRepository => (["No files given and not in a git repository"], none)
  | .notUtf8 fault => ([fault.message], none)
  | .misaligned count => ([s!"{count} file(s) need their imports aligned"], none)

def messages (failure : Failure) : List String := failure.chain.1

def allMessages (failure : Failure) : List String :=
  failure.chain.1 ++ (failure.chain.2.map SystemFault.message).toList

def indentLines (first rest : String) (message : String) : String :=
  first ++ String.intercalate ("\n" ++ rest) (message.splitOn "\n")

def numbered (messages : List String) : List String :=
  messages.zipIdx.map fun (message, index) =>
    let number := toString index
    let margin := String.ofList (List.replicate (5 - number.length) ' ')
    indentLines (margin ++ number ++ ": ") "       " message

/-- Causes are numbered where there is more than one. -/
def report (failure : Failure) : String :=
  match failure.allMessages with
  | [] => "Error: "
  | [message] => "Error: " ++ message
  | [message, cause] =>
    "Error: " ++ message ++ "\n\nCaused by:\n" ++ indentLines "    " "    " cause
  | message :: causes =>
    "Error: " ++ message ++ "\n\nCaused by:\n" ++ String.intercalate "\n" (numbered causes)

end Failure
end ImportBlock
