import ImportBlock.Proofs.Session.Script

/-! The record of a call: what it asks of its document, what is fired meanwhile and how it ends. -/

namespace ImportBlock

/-- A document of a session. What is read may fail and may change the world. -/
structure ScriptedDocument (σ ι : Type) where
  id : String
  language : Option Language
  read : σ → Except Failure Text × σ
  replace : Nat → Nat → Text → Script σ ι
  save : Script σ ι

/-- The documents, the settings and the provider around one aligner. -/
structure Session (σ ι : Type) where
  document : ι → ScriptedDocument σ ι
  settings : Settings
  provider : Option (String → σ → Except ProviderFault (List Text) × σ)

/-- The world, and what the call in progress has done so far. -/
structure Recording (σ ι : Type) where
  world : σ
  deeds : List (Deed σ ι)

abbrev Recorded (σ ι : Type) := StateT (Recording σ ι) Option

namespace Recorded

variable {σ ι α β : Type}

def perform (action : Action (Recorded σ ι) α) (inFlight : InFlight)
    (recording : Recording σ ι) : Option ((Except Failure α × InFlight) × Recording σ ι) :=
  (action.run.run inFlight).run recording

def ask (question : σ → α × σ) (operation : σ → σ → α → Operation σ) : Recorded σ ι α :=
  fun recording =>
    let (answer, world) := question recording.world
    some (answer, ⟨world, recording.deeds ++ [(operation recording.world world answer, [])]⟩)

def enact (follow : Follow σ ι) (script : Script σ ι)
    (operation : σ → Except Failure Unit → Operation σ) : Action (Recorded σ ι) Unit :=
  ExceptT.mk fun inFlight recording => do
    let played ← script.play follow ⟨inFlight, recording.world⟩
    return ((played.result, played.left.inFlight), ⟨played.left.world,
      recording.deeds ++ [(operation recording.world played.result, played.calls)]⟩)

end Recorded

namespace Session

variable {σ ι : Type}

def aligner (session : Session σ ι) : Aligner (Recorded σ ι) where
  settings := session.settings
  provider := session.provider.map fun fetch id => Recorded.ask (fetch id) .provide
  note := fun _ => pure ()

def openDocument (session : Session σ ι) (follow : Follow σ ι) (target : ι) :
    Document (Recorded σ ι) :=
  let document := session.document target
  { id := document.id
    language := document.language
    text := ExceptT.mk (StateT.lift
      (Recorded.ask document.read fun world _ result => .read world result))
    replaceRange := fun start stop new =>
      Recorded.enact follow (document.replace start stop new) fun world result =>
        .replace world start stop new result
    save := Recorded.enact follow document.save .save }

def attempt (session : Session σ ι) (follow : Follow σ ι) : Follow σ ι :=
  fun hook target moment => do
    let action := session.aligner.call (session.openDocument follow target) hook
    let ((result, inFlight), recording) ←
      Recorded.perform action moment.inFlight ⟨moment.world, []⟩
    return ⟨hook, target, moment, recording.deeds, result, ⟨inFlight, recording.world⟩⟩

/-- The call that comes of a hook, where hooks nest at most so deep. -/
def record (session : Session σ ι) : Nat → Follow σ ι
  | 0 => fun _ _ _ => none
  | depth + 1 => session.attempt (session.record depth)

/-- The call comes to an end, and this is all of it. -/
def Ends (session : Session σ ι) (call : Call σ ι) : Prop :=
  ∃ depth, session.record depth call.hook call.target call.entered = some call

end Session
end ImportBlock
