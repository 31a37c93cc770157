import ImportBlock.CommandLine.Run

open ImportBlock

namespace ImportBlock.Program

def usage : String :=
  "Group and sort the leading import block of JS/TS files\n\n" ++
    "Usage: align-imports [OPTIONS] [FILES]...\n\n" ++
    "Options:\n" ++
    "      --check\n      --on-save\n      --config <CONFIG>\n      --order <ORDER>\n" ++
    "      --sort-by <SORT_BY>\n      --max-line-length <MAX_LINE_LENGTH>\n" ++
    "      --no-group-spacing\n      --no-wrap\n      --no-scope-group\n" ++
    "      --trailing-comments <TRAILING_COMMENTS>\n      --whole-document\n" ++
    "      --remove-unused\n      --unused-report <UNUSED_REPORT>\n" ++
    "      --unused-cmd <UNUSED_CMD>\n  -v, --verbose...\n  -q, --quiet\n  -h, --help"

def faultOf : IO.Error → SystemFault
  | .permissionDenied .. => .noPermission
  | .inappropriateType .. => .isFolder
  | _ => .notFound

def attempt {α : Type} (action : IO α) : IO (Except SystemFault α) := do
  try return .ok (← action)
  catch error => return .error (faultOf error)

def readBytes (path : String) : IO (Except SystemFault (List UInt8)) := do
  return (← attempt (IO.FS.readBinFile path)).map fun bytes => bytes.toList

def writeBytes (path : String) (bytes : List UInt8) : IO (Except SystemFault Unit) :=
  attempt (IO.FS.writeBinFile path ⟨bytes.toArray⟩)

def settingNames : List String :=
  ["IMPORT_ORDER", "SORT_BY", "REMOVE_UNUSED", "EMPTY_LINE_BETWEEN_GROUPS", "MAX_LINE_LENGTH",
    "GROUP_BY_SCOPE", "PRESERVE_LEADING_COMMENTS", "WRAP_MULTILINE_IMPORTS", "TRAILING_COMMENTS",
    "WHOLE_DOCUMENT"]

def environment : IO (List (String × String)) := do
  let names := settingNames.map ("ALIGN_IMPORTS_" ++ ·)
  let values ← names.mapM fun name => return (← IO.getEnv name).map (name, ·)
  return values.filterMap id

/-- No other program is started from here. -/
def host (threshold : Level) : Host IO where
  folder := return (← IO.currentDir).toString
  environment := environment
  isFile path := return (← readBytes path) matches .ok _
  read := readBytes
  write := writeBytes
  run _ := return .error .notFound
  print line := IO.println line
  note note := if note.passes threshold then IO.eprintln note.line else pure ()

end ImportBlock.Program

def main (words : List String) : IO UInt32 := do
  match Arguments.parse words with
  | .error .helpWanted =>
    IO.println Program.usage
    return 0
  | .error _ =>
    IO.eprintln Program.usage
    return 2
  | .ok arguments =>
    let result ← (Tool.run (Program.host arguments.threshold) arguments).run
    if let .error failure := result then
      IO.eprintln failure.report
    return Tool.exitCode result
