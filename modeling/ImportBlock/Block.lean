import ImportBlock.Line.Basic
import ImportBlock.Statement.Basic

namespace ImportBlock

open Text

inductive HeaderLine where
  | comment (text : Text)
  | code (text : Text)
  deriving DecidableEq, Repr

/-- Comments stand with the statement below them, those above the first statement in the header. -/
structure Block where
  header : List HeaderLine
  statements : List Statement
  trailing : List Text
  deriving DecidableEq, Repr

namespace HeaderLine

def text : HeaderLine → Text
  | .comment text | .code text => text

def ofLine? (line : Line) : Option HeaderLine :=
  match line.kind with
  | .comment _ | .mixed => some (.comment line.text)
  | .code => some (.code line.text)
  | .blank | .opening | .continued => none

end HeaderLine

namespace Block

structure Below where
  continued : List Text
  statements : List Statement
  trailing : List Text

def Below.addComment (below : Below) (text : Text) : Below :=
  match below.statements with
  | [] => { below with trailing := text :: below.trailing }
  | statement :: rest =>
    { below with statements := { statement with comments := text :: statement.comments } :: rest }

def Below.add (line : Line × Nat) (below : Below) : Below :=
  match line.1.kind with
  | .opening =>
    ⟨[], ⟨[], line.1.text :: below.continued, line.2⟩ :: below.statements, below.trailing⟩
  | .continued => { below with continued := line.1.text :: below.continued }
  | .comment _ | .mixed => below.addComment line.1.text
  | .blank | .code => below

/-- Reads up to the first code below a statement. -/
def parse (text : Text) : Block :=
  let numbered := (Line.label .code (Text.lines text)).zipIdx
  let header := numbered.takeWhile (·.1.kind != .opening)
  let rest := (numbered.dropWhile (·.1.kind != .opening)).takeWhile (·.1.kind != .code)
  let below := rest.foldr Below.add ⟨[], [], []⟩
  ⟨header.filterMap fun line => HeaderLine.ofLine? line.1, below.statements, below.trailing⟩

end Block
end ImportBlock
