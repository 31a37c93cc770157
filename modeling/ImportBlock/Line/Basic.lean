import ImportBlock.Line.Comment
import ImportBlock.Line.Literal
import ImportBlock.Text.Lines

/-! The kind of each line of a source file, read from the top. -/

namespace ImportBlock

open Text

inductive Mode where
  | code
  | comment
  | statement (depth : Int)
  deriving DecidableEq, Repr

/-- A comment line is `done` unless it leaves a block comment open. A `mixed` line ends one and has
code behind it. -/
inductive Kind where
  | blank
  | comment (done : Bool)
  | mixed
  | opening
  | continued
  | code
  deriving DecidableEq, Repr

structure Line where
  kind : Kind
  text : Text
  deriving DecidableEq, Repr

namespace Line

def importWord : Text := ['i', 'm', 'p', 'o', 'r', 't']

/-- The word `import` before a clause, a specifier or nothing. A call `import(...)` is code. -/
def isImport (line : Text) : Bool :=
  match stripStart importWord line with
  | none => false
  | some [] => true
  | some (c :: _) => isWhite c || c == '{' || c == '*' || c == '"' || c == '\''

def isDirective (line : Text) : Bool :=
  match trimEnd (dropEndWhile (· == ';') line) with
  | quote :: c :: rest =>
    (quote == '"' || quote == '\'') && (c :: rest).getLast? == some quote &&
      !(c :: rest).dropLast.contains quote
  | _ => false

def isShebang (line : Text) : Bool := startsWith ['#', '!'] line

end Line

namespace Mode

def afterStatementLine (depth : Int) (line : Text) : Mode :=
  if Line.closesStatement depth line then .code else .statement depth

/-- The kind of a trimmed line and where the next line begins. -/
def read : Mode → Text → Kind × Mode
  | .statement depth, line => (.continued, afterStatementLine (depth + Line.braceDelta line) line)
  | .comment, line =>
    match splitFirst Line.commentEnd line with
    | none => (.comment false, .comment)
    | some sides => (if Line.onlyComments sides.2 then .comment true else .mixed, .code)
  | .code, line =>
    if line.isEmpty then (.blank, .code)
    else if Line.isComment line then
      if Line.opensComment line then (.comment false, .comment) else (.comment true, .code)
    else if Line.isImport line then (.opening, afterStatementLine (Line.braceDelta line) line)
    else (.code, .code)

end Mode

namespace Line

def label : Mode → List Text → List Line
  | _, [] => []
  | mode, text :: rest =>
    let (kind, next) := mode.read (trim text)
    ⟨kind, text⟩ :: label next rest

theorem map_text_label (mode : Mode) (texts : List Text) :
    (label mode texts).map Line.text = texts := by
  induction texts generalizing mode with
  | nil => rfl
  | cons text rest ih => simp [label, ih]

end Line
end ImportBlock
