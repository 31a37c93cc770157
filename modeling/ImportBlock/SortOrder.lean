import ImportBlock.Statement.Basic
import ImportBlock.Text.Case.Lower

namespace ImportBlock

open Text

inductive SortOrder where
  | alphabetical
  | lengthAscending
  | lengthDescending
  deriving DecidableEq, Repr

namespace SortOrder

/-- Letter case counts only between statements that are otherwise equal. -/
def alphabeticalLe (left right : Text) : Bool :=
  if toLower left = toLower right then Text.le left right
  else Text.le (toLower left) (toLower right)

def le : SortOrder → Statement → Statement → Bool
  | .alphabetical, left, right => alphabeticalLe left.normal right.normal
  | .lengthAscending, left, right => left.normal.length ≤ right.normal.length
  | .lengthDescending, left, right => right.normal.length ≤ left.normal.length

/-- Statements that compare equal keep their order. -/
def sort (order : SortOrder) (statements : List Statement) : List Statement :=
  statements.mergeSort order.le

end SortOrder
end ImportBlock
