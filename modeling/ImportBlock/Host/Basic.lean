import ImportBlock.Aligner.Basic

/-! What a run asks of the machine it runs on. -/

namespace ImportBlock

/-- A program to run, in the current folder unless another is named. -/
structure Command where
  program : String
  arguments : List String
  folder : Option String := none
  deriving DecidableEq, Repr

structure Finished where
  code : Nat
  output : List UInt8
  deriving DecidableEq, Repr

structure Host (m : Type → Type) where
  folder : m String
  environment : m (List (String × String))
  isFile : String → m Bool
  read : String → m (Except SystemFault (List UInt8))
  write : String → List UInt8 → m (Except SystemFault Unit)
  run : Command → m (Except SystemFault Finished)
  print : String → m Unit
  note : Note → m Unit

namespace Host

variable {m : Type → Type} [Monad m]

def readText (host : Host m) (path : String) : m (Except SystemFault Text) := do
  match ← host.read path with
  | .error fault => return .error fault
  | .ok bytes => return (Text.decode bytes).mapError fun _ => .notUtf8

def reportFile (host : Host m) (path : String) : m (Except ProviderFault (List Text)) := do
  match ← host.read path with
  | .error fault => return .error (.read path fault)
  | .ok bytes => return Report.readOrMalformed bytes

def reportCommand (host : Host m) (line id : String) : m (Except ProviderFault (List Text)) := do
  match (Text.words line.toList).map String.ofList with
  | [] => return .error (.unavailable "empty command")
  | program :: arguments =>
    match ← host.run { program, arguments := arguments ++ [id] } with
    | .error fault => return .error (.spawn program fault)
    | .ok finished =>
      if finished.code = 0 then return Report.readOrMalformed finished.output
      else return .error (.failed program finished.code)

end Host
end ImportBlock
