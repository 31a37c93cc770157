import ImportBlock.Failure
import ImportBlock.Report.Basic

namespace ImportBlock

inductive ProviderFault where
  | read (path : String) (cause : SystemFault)
  | spawn (command : String) (cause : SystemFault)
  | failed (command : String) (code : Nat)
  | malformed (fault : Report.Fault)
  | unavailable (reason : String)
  deriving DecidableEq, Repr

def ProviderFault.message : ProviderFault → String
  | .read path cause => s!"Failed to read unused-symbol report '{path}': " ++ cause.message
  | .spawn command cause => s!"Failed to run '{command}': " ++ cause.message
  | .failed command code => s!"'{command}' exited with exit status: {code}"
  | .malformed fault => fault.message
  | .unavailable reason => s!"Unused-symbol provider unavailable: {reason}"

def Report.readOrMalformed (bytes : List UInt8) : Except ProviderFault (List Text) :=
  (Report.read bytes).mapError .malformed

end ImportBlock
