import ImportBlock.Statement.Basic
import ImportBlock.Statement.Specifier

namespace ImportBlock

open Text

inductive Category where
  | package
  | scoped
  | relative
  deriving DecidableEq, Repr

namespace Category

def all : List Category := [.package, .scoped, .relative]

/-- Told by the specifier, or by the whole statement where it has none. -/
def ofNormal (normal : Text) : Category :=
  let target := (Statement.specifier? normal).getD normal
  if target.contains '@' then .scoped
  else if includes ['.', '/'] target then .relative
  else .package

/-- Scoped packages share the package group unless they have their own. -/
def group (byScope : Bool) : Category → Category
  | .scoped => if byScope then .scoped else .package
  | category => category

def members (byScope : Bool) (statements : List Statement) (category : Category) :
    List Statement :=
  statements.filter fun statement => (ofNormal statement.normal).group byScope == category

end Category
end ImportBlock
