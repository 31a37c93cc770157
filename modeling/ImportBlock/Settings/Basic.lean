import ImportBlock.Category
import ImportBlock.SortOrder

namespace ImportBlock

inductive TrailingComments where
  | keep
  | discard
  deriving DecidableEq, Repr

structure Settings where
  importOrder : List Category := [.package, .scoped, .relative]
  sortBy : SortOrder := .alphabetical
  removeUnused : Bool := false
  emptyLineBetweenGroups : Bool := true
  maxLineLength : Nat := 80
  groupByScope : Bool := true
  preserveLeadingComments : Bool := true
  wrapMultilineImports : Bool := true
  trailingComments : TrailingComments := .keep
  wholeDocument : Bool := false
  deriving DecidableEq, Repr

/-- The order of categories found in place of one that lists each of them once. -/
inductive InvalidSettings where
  | importOrder (order : List Category)
  | maxLineLength
  deriving DecidableEq, Repr

namespace Settings

def validate (settings : Settings) : Except InvalidSettings Unit :=
  let order := settings.importOrder
  if order.length ≠ 3 ∨ ¬ Category.all.all order.contains then .error (.importOrder order)
  else if settings.maxLineLength = 0 then .error .maxLineLength
  else .ok ()

end Settings
end ImportBlock
