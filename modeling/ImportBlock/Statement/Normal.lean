import ImportBlock.Line.Literal

/-! One spelling for all layouts of a statement, for comparison only. -/

namespace ImportBlock.Statement

open Text Line

/-- What has been written, last character first, and the literal it is in. -/
structure Draft where
  written : Text
  quote : Option Char
  deriving DecidableEq, Repr

namespace Draft

def dropSpaces (written : Text) : Text := written.dropWhile (· == ' ')

def dropComma : Text → Text
  | ',' :: written => written
  | written => written

def separate (written : Text) : Text :=
  match written with
  | '{' :: _ | ',' :: _ | '}' :: _ => ' ' :: written
  | _ => written

/-- Outside literals a run of white space is one space, a comma follows its member directly, and a
closing brace drops the comma before it. -/
def write (draft : Draft) (c : Char) : Draft :=
  match draft.quote with
  | some quote => ⟨c :: draft.written, quoteAfter (some quote) c⟩
  | none =>
    if isWhite c then
      ⟨if draft.written.head?.all (· == ' ') then draft.written else ' ' :: draft.written, none⟩
    else if c = ',' then ⟨',' :: dropSpaces draft.written, none⟩
    else if c = '}' then
      ⟨'}' :: ' ' :: dropComma (dropSpaces draft.written), none⟩
    else ⟨c :: separate draft.written, quoteAfter none c⟩

def finish (draft : Draft) : Text := (dropSpaces draft.written).reverse

end Draft

def normalize (text : Text) : Text := (text.foldl Draft.write ⟨[], none⟩).finish

end ImportBlock.Statement
