import ImportBlock.Statement.Normal
import ImportBlock.Text.Lines

namespace ImportBlock

open Text

/-- Lines are numbered from zero. -/
structure Statement where
  comments : List Text
  lines : List Text
  firstLine : Nat
  deriving DecidableEq, Repr

namespace Statement

def lastLine (statement : Statement) : Nat := statement.firstLine + statement.lines.length - 1

def rawText (statement : Statement) : Text := joinWith ['\n'] statement.lines

def normal (statement : Statement) : Text :=
  normalize (joinWith [' '] ((statement.lines.map trim).filter (!·.isEmpty)))

end Statement
end ImportBlock
