import ImportBlock.Settings.Load
import ImportBlock.Text.Digits

namespace ImportBlock

inductive UsageFault where
  | unknownArgument
  | invalidValue
  | valueValidation
  | argumentConflict
  | tooManyValues
  | helpWanted
  deriving DecidableEq, Repr

inductive Flag where
  | check
  | onSave
  | noGroupSpacing
  | noWrap
  | noScopeGroup
  | wholeDocument
  | removeUnused
  | verbose
  | quiet
  | help
  deriving DecidableEq, Repr

inductive Choice where
  | config
  | order
  | sortBy
  | maxLineLength
  | trailingComments
  | unusedReport
  | unusedCmd
  deriving DecidableEq, Repr

inductive Switch where
  | flag (flag : Flag)
  | choice (choice : Choice)
  deriving DecidableEq, Repr

def Switch.longNames : List (Text × Switch) :=
  [("check".toList, .flag .check), ("on-save".toList, .flag .onSave),
    ("no-group-spacing".toList, .flag .noGroupSpacing), ("no-wrap".toList, .flag .noWrap),
    ("no-scope-group".toList, .flag .noScopeGroup),
    ("whole-document".toList, .flag .wholeDocument),
    ("remove-unused".toList, .flag .removeUnused), ("verbose".toList, .flag .verbose),
    ("quiet".toList, .flag .quiet), ("help".toList, .flag .help),
    ("config".toList, .choice .config), ("order".toList, .choice .order),
    ("sort-by".toList, .choice .sortBy), ("max-line-length".toList, .choice .maxLineLength),
    ("trailing-comments".toList, .choice .trailingComments),
    ("unused-report".toList, .choice .unusedReport), ("unused-cmd".toList, .choice .unusedCmd)]

def Flag.shortNames : List (Char × Flag) := [('v', .verbose), ('q', .quiet), ('h', .help)]

structure Arguments where
  files : List String := []
  check : Bool := false
  onSave : Bool := false
  config : Option String := none
  order : Option (List Category) := none
  sortBy : Option SortOrder := none
  maxLineLength : Option Nat := none
  noGroupSpacing : Bool := false
  noWrap : Bool := false
  noScopeGroup : Bool := false
  trailingComments : Option TrailingComments := none
  wholeDocument : Bool := false
  removeUnused : Bool := false
  unusedReport : Option String := none
  unusedCmd : Option String := none
  verbose : Nat := 0
  quiet : Bool := false
  deriving DecidableEq, Repr

namespace Arguments

def once (given : Bool) (arguments : Arguments) : Except UsageFault Arguments :=
  if given then .error .argumentConflict else .ok arguments

/-- Only `verbose` may be repeated, and its count stops at 255. -/
def raise (arguments : Arguments) : Flag → Except UsageFault Arguments
  | .check => once arguments.check { arguments with check := true }
  | .onSave => once arguments.onSave { arguments with onSave := true }
  | .noGroupSpacing => once arguments.noGroupSpacing { arguments with noGroupSpacing := true }
  | .noWrap => once arguments.noWrap { arguments with noWrap := true }
  | .noScopeGroup => once arguments.noScopeGroup { arguments with noScopeGroup := true }
  | .wholeDocument => once arguments.wholeDocument { arguments with wholeDocument := true }
  | .removeUnused => once arguments.removeUnused { arguments with removeUnused := true }
  | .verbose => .ok { arguments with verbose := min 255 (arguments.verbose + 1) }
  | .quiet => once arguments.quiet { arguments with quiet := true }
  | .help => .error .helpWanted

def path (value : String) : Except UsageFault String :=
  if value.isEmpty then .error .invalidValue else .ok value

def named {α : Type} (names : List (Text × α)) (value : Text) : Except UsageFault α :=
  match names.lookup value with
  | some named => .ok named
  | none => .error .invalidValue

def size (value : Text) : Except UsageFault Nat :=
  let digits := match value with
    | '+' :: rest => rest
    | digits => digits
  match digits, Text.toNat? 10 digits with
  | _ :: _, some size => if size < Value.sizeBound then .ok size else .error .valueValidation
  | _, _ => .error .valueValidation

/-- The value of an option that has none yet. A repeated option is a conflict whatever its value. -/
def fresh {α : Type} (given : Option α) (value : Except UsageFault α) :
    Except UsageFault (Option α) :=
  if given.isSome then .error .argumentConflict else value.map some

/-- Orders given one after another add up. -/
def choose (arguments : Arguments) (choice : Choice) (value : String) :
    Except UsageFault Arguments :=
  match choice with
  | .config => do return { arguments with config := ← fresh arguments.config (path value) }
  | .order => do
    let order ← (Text.splitOn ',' value.toList).mapM (named Category.names)
    return { arguments with order := some (arguments.order.getD [] ++ order) }
  | .sortBy => do
    let sortBy ← fresh arguments.sortBy (named SortOrder.names value.toList)
    return { arguments with sortBy }
  | .maxLineLength => do
    let maxLineLength ← fresh arguments.maxLineLength (size value.toList)
    return { arguments with maxLineLength }
  | .trailingComments => do
    let trailingComments ←
      fresh arguments.trailingComments (named TrailingComments.names value.toList)
    return { arguments with trailingComments }
  | .unusedReport => do
    let unusedReport ← fresh arguments.unusedReport (path value)
    return { arguments with unusedReport }
  | .unusedCmd => do
    let unusedCmd ← fresh arguments.unusedCmd (.ok value)
    return { arguments with unusedCmd }

def addFiles (arguments : Arguments) (values : List String) : Except UsageFault Arguments := do
  return { arguments with files := arguments.files ++ (← values.mapM path) }

def checked (arguments : Arguments) : Except UsageFault Arguments :=
  if arguments.unusedReport.isSome && arguments.unusedCmd.isSome then .error .argumentConflict
  else .ok arguments

def wantsRemoval (arguments : Arguments) : Bool :=
  arguments.removeUnused || arguments.unusedReport.isSome || arguments.unusedCmd.isSome

def override (arguments : Arguments) (settings : Settings) : Settings where
  importOrder := arguments.order.getD settings.importOrder
  sortBy := arguments.sortBy.getD settings.sortBy
  removeUnused := arguments.wantsRemoval || settings.removeUnused
  emptyLineBetweenGroups := !arguments.noGroupSpacing && settings.emptyLineBetweenGroups
  maxLineLength := arguments.maxLineLength.getD settings.maxLineLength
  groupByScope := !arguments.noScopeGroup && settings.groupByScope
  preserveLeadingComments := settings.preserveLeadingComments
  wrapMultilineImports := !arguments.noWrap && settings.wrapMultilineImports
  trailingComments := arguments.trailingComments.getD settings.trailingComments
  wholeDocument := arguments.wholeDocument || settings.wholeDocument

end Arguments
end ImportBlock
