namespace ImportBlock

inductive Level where
  | error
  | warn
  | info
  | debug
  deriving DecidableEq, Repr

def Level.name : Level → String
  | .error => "ERROR"
  | .warn => "WARN"
  | .info => "INFO"
  | .debug => "DEBUG"

def Level.rank : Level → Nat
  | .error => 0
  | .warn => 1
  | .info => 2
  | .debug => 3

structure Note where
  level : Level
  message : String
  deriving DecidableEq, Repr

def Note.passes (threshold : Level) (note : Note) : Bool := note.level.rank ≤ threshold.rank

def Note.line (note : Note) : String := note.level.name ++ " " ++ note.message

end ImportBlock
