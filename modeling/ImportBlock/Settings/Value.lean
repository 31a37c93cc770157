import ImportBlock.Text.Basic

namespace ImportBlock

/-- Values that fit no setting are `other`: fractions, dates and tables. -/
inductive Value where
  | bool (value : Bool)
  | integer (value : Int)
  | text (value : Text)
  | list (values : List Value)
  | other
  deriving Repr

namespace Value

def sizeBound : Nat := 0x10000000000000000

def signBit : Nat := 0x8000000000000000

end Value

abbrev Layer := List (Text × Value)

end ImportBlock
