import ImportBlock.Layout
import ImportBlock.Note
import ImportBlock.Region
import ImportBlock.Statement.Binding

/-! The change that puts the import block of a file in order. -/

namespace ImportBlock

open Text

/-- Between two parts that stay, `old` gives way to `new`. -/
structure Replacement where
  before : Text
  old : Text
  new : Text
  after : Text
  deriving DecidableEq, Repr

structure Edit where
  start : Nat
  stop : Nat
  text : Text
  deriving DecidableEq, Repr

namespace Replacement

def result (replacement : Replacement) : Text :=
  replacement.before ++ replacement.new ++ replacement.after

def edit? (replacement : Replacement) : Option Edit :=
  let ⟨before, old, new, _⟩ := replacement
  if old = new then none else some ⟨byteLength before, byteLength (before ++ old), new⟩

theorem edit?_eq_none_iff {replacement : Replacement} :
    replacement.edit? = none ↔ replacement.old = replacement.new := by
  simp [edit?]

end Replacement

namespace Format

/-- The line break of the first line serves all lines. -/
def lineBreak (text : Text) : Text :=
  match splitFirst ['\n'] text with
  | some (first, _) => if first.getLast? = some '\r' then ['\r', '\n'] else ['\n']
  | none => ['\n']

/-- Without blank lines at the end. White space behind the last code stays. -/
def dropBlankTail (text : Text) : Text :=
  let body := trimEnd text
  if body.isEmpty then []
  else body ++ content ((text.drop body.length).takeWhile (· != '\n'))

def group (settings : Settings) (statements : List Statement) (category : Category) :
    List Statement :=
  settings.sortBy.sort (category.members settings.groupByScope statements)

/-- The part of the file that is parsed and written anew, and what follows it. -/
def extent (settings : Settings) (region : Region) : Text × Text :=
  if settings.wholeDocument then
    let (comments, rest) := splitTrailingComments region.after
    (region.before ++ region.block ++ comments, rest)
  else (region.block, region.after)

def block (settings : Settings) (region : Region) : Block :=
  Block.parse (extent settings region).1

/-- The statements that stay, group by group. -/
def keptGroup (settings : Settings) (unused : List Text) (region : Region) :
    Category → List Statement :=
  let statements := (block settings region).statements
  group settings (if unused.isEmpty then statements else Statement.prune unused statements)

theorem keptGroup_eq (settings : Settings) (unused : List Text) (region : Region) :
    keptGroup settings unused region =
      group settings (Statement.prune unused (block settings region).statements) := by
  cases unused with
  | nil => rw [Statement.prune_nil]; rfl
  | cons symbol unused => rfl

def rendered (settings : Settings) (unused : List Text) (region : Region) : Text :=
  replaceChar '\n' (lineBreak region.text)
    (Layout.render settings (block settings region) (keptGroup settings unused region))

/-- With nothing left to write the blank lines below the block go too. -/
def replacement (settings : Settings) (unused : List Text) (region : Region) : Replacement :=
  let block := rendered settings unused region
  let (taken, rest) := extent settings region
  if settings.wholeDocument then
    let rest := dropBlankTail rest
    let rest := if block.isEmpty then rest.dropWhile isBreak else rest
    ⟨[], region.text, block ++ rest ++ lineBreak region.text, []⟩
  else if block.isEmpty then
    ⟨region.before, taken ++ rest.takeWhile isBreak, [], rest.dropWhile isBreak⟩
  else ⟨region.before, taken, block, rest⟩

def notes (settings : Settings) (unused : List Text) (region : Region) : List Note :=
  let statements := (block settings region).statements
  let removed := statements.length - (Statement.prune unused statements).length
  let repeats := (settings.importOrder.map (keptGroup settings unused region)).flatMap
    (Statement.repeated [])
  ⟨.debug, s!"Import region {region.start}..{region.stop} holds {statements.length} statements"⟩ ::
    (if unused.isEmpty then [] else [⟨.debug, s!"Removed {removed} unused imports"⟩]) ++
    repeats.map fun statement =>
      ⟨.debug, s!"Dropping duplicate import on line {statement.firstLine + 1}"⟩

end Format
end ImportBlock
