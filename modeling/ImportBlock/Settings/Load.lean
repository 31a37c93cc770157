import ImportBlock.Settings.Basic
import ImportBlock.Settings.Value

namespace ImportBlock

open Text

def Category.names : List (Text × Category) :=
  [("package".toList, .package), ("scoped".toList, .scoped), ("relative".toList, .relative)]

def SortOrder.names : List (Text × SortOrder) :=
  [("alphabetical".toList, .alphabetical), ("length-asc".toList, .lengthAscending),
    ("length-desc".toList, .lengthDescending)]

def TrailingComments.names : List (Text × TrailingComments) :=
  [("keep".toList, .keep), ("discard".toList, .discard)]

namespace Value

def bool? : Value → Option Bool
  | .bool value => some value
  | _ => none

def size? : Value → Option Nat
  | .integer value => if 0 ≤ value ∧ value < sizeBound then some value.toNat else none
  | _ => none

def choice? {α : Type} (names : List (Text × α)) : Value → Option α
  | .text name => names.lookup name
  | _ => none

def order? : Value → Option (List Category)
  | .list values => values.mapM (choice? Category.names)
  | _ => none

def ofChoice {α : Type} [DecidableEq α] (names : List (Text × α)) (choice : α) : Value :=
  .text (((names.find? fun named => named.2 = choice).map Prod.fst).getD [])

end Value

namespace Layer

def ofSettings (settings : Settings) : Layer := [
  ("import_order".toList, .list (settings.importOrder.map (.ofChoice Category.names))),
  ("sort_by".toList, .ofChoice SortOrder.names settings.sortBy),
  ("remove_unused".toList, .bool settings.removeUnused),
  ("empty_line_between_groups".toList, .bool settings.emptyLineBetweenGroups),
  ("max_line_length".toList, .integer settings.maxLineLength),
  ("group_by_scope".toList, .bool settings.groupByScope),
  ("preserve_leading_comments".toList, .bool settings.preserveLeadingComments),
  ("wrap_multiline_imports".toList, .bool settings.wrapMultilineImports),
  ("trailing_comments".toList, .ofChoice TrailingComments.names settings.trailingComments),
  ("whole_document".toList, .bool settings.wholeDocument)]

/-- A value that is there must have the right type. -/
def typed? {α : Type} (layer : Layer) (name : String) (read? : Value → Option α) (default : α) :
    Option α :=
  (layer.lookup name.toList).elim (some default) read?

def settings? (layer : Layer) : Option Settings := do
  let base : Settings := {}
  return {
    importOrder := ← typed? layer "import_order" Value.order? base.importOrder
    sortBy := ← typed? layer "sort_by" (Value.choice? SortOrder.names) base.sortBy
    removeUnused := ← typed? layer "remove_unused" Value.bool? base.removeUnused
    emptyLineBetweenGroups :=
      ← typed? layer "empty_line_between_groups" Value.bool? base.emptyLineBetweenGroups
    maxLineLength := ← typed? layer "max_line_length" Value.size? base.maxLineLength
    groupByScope := ← typed? layer "group_by_scope" Value.bool? base.groupByScope
    preserveLeadingComments :=
      ← typed? layer "preserve_leading_comments" Value.bool? base.preserveLeadingComments
    wrapMultilineImports :=
      ← typed? layer "wrap_multiline_imports" Value.bool? base.wrapMultilineImports
    trailingComments :=
      ← typed? layer "trailing_comments" (Value.choice? TrailingComments.names)
        base.trailingComments
    wholeDocument := ← typed? layer "whole_document" Value.bool? base.wholeDocument }

end Layer
end ImportBlock
