import ImportBlock.Line.Basic

namespace ImportBlock.Statement

open Text

def fromWord : Text := [' ', 'f', 'r', 'o', 'm', ' ']

def quoted? : Text → Option Text
  | quote :: body => if Line.isQuote quote then (splitFirst [quote] body).map Prod.fst else none
  | [] => none

/-- The literal after the last ` from `, or directly after `import` where there is none. -/
def specifier? (normal : Text) : Option Text :=
  match splitLast fromWord normal with
  | some sides => quoted? (trimStart sides.2)
  | none => (stripStart Line.importWord normal).bind fun rest => quoted? (trimStart rest)

end ImportBlock.Statement
