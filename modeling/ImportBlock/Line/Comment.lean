import ImportBlock.Text.Basic

namespace ImportBlock.Line

open Text

mutual

def onlyComments : Text → Bool
  | [] => true
  | '/' :: '/' :: _ => true
  | '/' :: '*' :: rest => onlyCommentsAfterClose rest
  | c :: rest => isWhite c && onlyComments rest

/-- From inside a block comment: it never ends, or only comments follow its end. -/
def onlyCommentsAfterClose : Text → Bool
  | [] => true
  | '*' :: '/' :: rest => onlyComments rest
  | _ :: rest => onlyCommentsAfterClose rest

end

/-- A comment stands at the very start and nothing but comments follows. -/
def isComment : Text → Bool
  | '/' :: '/' :: _ => true
  | '/' :: '*' :: rest => onlyCommentsAfterClose rest
  | _ => false

def commentEnd : Text := ['*', '/']

def opensComment : Text → Bool
  | '/' :: '*' :: rest => !includes commentEnd rest
  | _ => false

end ImportBlock.Line
