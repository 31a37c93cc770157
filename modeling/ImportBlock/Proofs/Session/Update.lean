import ImportBlock.Proofs.Session.Editor
import ImportBlock.Proofs.Session.Guard

/-! Changes fit the text they replace: nothing that came in between is overwritten. -/

namespace ImportBlock

namespace Operation

variable {σ : Type}

/-- What the provider names. When it fails, it names nothing. -/
def unused : Operation σ → List Text
  | provide _ _ answer => answer.toOption.getD []
  | _ => []

end Operation

/-- Documents whose text is part of the world. To read it changes no text. -/
structure Memory {σ ι : Type} (session : Session σ ι) where
  text : ι → σ → Text
  text_of_read : ∀ {target world after now},
    (session.document target).read world = (.ok now, after) → now = text target world
  text_read : ∀ target world,
    text target ((session.document target).read world).2 = text target world

namespace Memory

variable {σ ι : Type} {session : Session σ ι} {target : ι} {world after : σ}

theorem text_after (memory : Memory session) {result : Except Failure Text}
    (reads : (session.document target).read world = (result, after)) :
    memory.text target after = memory.text target world := by
  rw [← memory.text_read target world, reads]

end Memory

namespace Session

variable {σ ι : Type} {session : Session σ ι} {follow : Follow σ ι} {target : ι}
  {entered left : Moment σ} {deeds preparing : List (Deed σ ι)} {region : Region}
  {result : Except Failure Outcome} {call : Call σ ι}

/-- What is replaced is the text read at first, by what becomes of it without all that the provider
has named. -/
structure UpToDate (memory : Memory session) (target : ι) (entered : σ)
    (operations : List (Operation σ)) (result : Except Failure Outcome) : Prop where
  replaced : ∀ {world start stop new ended},
    .replace world start stop new ended ∈ operations →
      ∃ text region, operations.head? = some (.read entered (.ok text)) ∧
        memory.text target world = text ∧ Region.find? text = some region ∧
        (Format.replacement session.settings (operations.flatMap Operation.unused) region).edit? =
          some ⟨start, stop, new⟩
  once : operations.countP Operation.isReplace ≤ 1
  cancelled : ∀ {before after answer}, .provide before after answer ∈ operations →
    memory.text target after ≠ memory.text target before →
      operations.countP Operation.isReplace = 0 ∧
        ∃ again, .read after again ∈ operations ∧ result = again.map fun _ => .cancelled

theorem Prepares.countP_isReplace {fetched : Except Failure (Option (List Text))} {after : σ}
    (prepares : session.Prepares target entered preparing region fetched after) :
    (preparing.map fun deed => deed.1).countP Operation.isReplace = 0 := by
  refine List.countP_eq_zero.mpr fun operation hoperation => ?_
  obtain ⟨deed, hdeed, rfl⟩ := List.mem_map.mp hoperation
  simp [(prepares.looks deed hdeed).1.isReplace_eq_false]

theorem Prepares.current (memory : Memory session) {fetched : Except Failure (Option (List Text))}
    {after : σ} (prepares : session.Prepares target entered preparing region fetched after) :
    ∃ text, (preparing.map fun deed => deed.1).head? = some (.read entered.world (.ok text)) ∧
      Region.find? text = some region ∧ ∀ unused, fetched = .ok (some unused) →
        memory.text target after = text ∧
          (preparing.map fun deed => deed.1).flatMap Operation.unused = unused := by
  obtain ⟨reads, found, fetches⟩ := prepares
  refine ⟨_, rfl, found, fun unused hfetched => ?_⟩
  cases fetches with
  | nothing =>
    cases hfetched
    exact ⟨(memory.text_after reads).trans (memory.text_of_read reads).symm, rfl⟩
  | @unused between _ asking named again removes asks reread =>
    rcases again with failure | now
    · cases hfetched
    simp only [Except.map, Except.ok.injEq] at hfetched
    split at hfetched
    · next same =>
      cases hfetched
      refine ⟨(memory.text_after reread).trans ((memory.text_of_read reread).symm.trans same), ?_⟩
      cases asks <;> simp [Operation.unused]
    · cases hfetched

theorem Prepares.fetched_of_changed (memory : Memory session)
    {fetched : Except Failure (Option (List Text))} {last before after : σ}
    {answer : Except ProviderFault (List Text)}
    (prepares : session.Prepares target entered preparing region fetched last)
    (asked : .provide before after answer ∈ preparing.map fun deed => deed.1)
    (changed : memory.text target after ≠ memory.text target before) :
    ∃ again, .read after again ∈ (preparing.map fun deed => deed.1) ∧
      fetched = again.map fun _ => none := by
  obtain ⟨reads, -, fetches⟩ := prepares
  cases fetches with
  | nothing => simp at asked
  | @unused between _ asking named again removes asks reread =>
    cases asks with
    | nobody => simp at asked
    | somebody =>
      simp only [List.map_cons, List.map_append, List.map_nil, List.mem_cons, List.mem_append,
        List.not_mem_nil, or_false, reduceCtorEq, false_or] at asked
      obtain ⟨rfl, rfl, rfl⟩ := Operation.provide.inj asked
      refine ⟨again, by simp, ?_⟩
      rcases again with failure | now
      · rfl
      · have hnow := memory.text_of_read reread
        have htext := (memory.text_of_read reads).trans (memory.text_after reads).symm
        rw [Except.map, Except.map, if_neg (by rw [hnow, htext]; exact changed)]

theorem not_replace_mem {operations : List (Operation σ)} {world : σ} {start stop : Nat}
    {new : Text} {result : Except Failure Unit} (none : operations.countP Operation.isReplace = 0) :
    .replace world start stop new result ∉ operations := fun hreplace => by
  simpa [Operation.isReplace] using List.countP_eq_zero.mp none _ hreplace

/-- As long as nothing has been replaced, only the end that follows a change counts. -/
theorem UpToDate.of_prepares (memory : Memory session)
    {fetched : Except Failure (Option (List Text))} {after : σ}
    (prepares : session.Prepares target entered preparing region fetched after)
    (ends : ∀ again : Except Failure Text, fetched = again.map (fun _ => none) →
      result = again.map fun _ => .cancelled) :
    session.UpToDate memory target entered.world (preparing.map fun deed => deed.1) result := by
  have hnone := prepares.countP_isReplace
  refine ⟨fun hreplace => absurd hreplace (not_replace_mem hnone), by omega,
    fun asked changed => ⟨hnone, ?_⟩⟩
  obtain ⟨again, hagain, hfetched⟩ := prepares.fetched_of_changed memory asked changed
  exact ⟨again, hagain, ends again hfetched⟩

theorem Aligns.upToDate (memory : Memory session)
    (aligns : session.Aligns follow target entered deeds result left) :
    session.UpToDate memory target entered.world (deeds.map fun deed => deed.1) result := by
  cases aligns with
  | unreadable => exact ⟨by simp, by simp [Operation.isReplace], by simp⟩
  | noImports => exact ⟨by simp, by simp [Operation.isReplace], by simp⟩
  | unfetched prepares => exact .of_prepares memory prepares (by rintro (_ | _) ⟨⟩; rfl)
  | cancelled prepares => exact .of_prepares memory prepares (by rintro (_ | _) ⟨⟩; rfl)
  | unchanged prepares => exact .of_prepares memory prepares (by rintro (_ | _) ⟨⟩)
  | @replaced preparing region unused world edit played prepares edits plays =>
    obtain ⟨text, hfirst, found, hcurrent⟩ := prepares.current memory
    obtain ⟨htext, hunused⟩ := hcurrent unused rfl
    have hnone := prepares.countP_isReplace
    rw [List.map_append, List.map_cons, List.map_nil]
    refine ⟨fun hreplace => ?_, ?_, fun asked changed => ?_⟩
    · simp only [List.mem_append, List.mem_singleton] at hreplace
      obtain ⟨rfl, rfl, rfl, rfl, rfl⟩ := Operation.replace.inj
        (hreplace.resolve_left (not_replace_mem hnone))
      refine ⟨text, region, by simp [hfirst], htext, found, ?_⟩
      simpa [hunused, Operation.unused] using edits
    · simp [hnone, Operation.isReplace]
    · simp only [List.mem_append, List.mem_singleton, reduceCtorEq, or_false] at asked
      obtain ⟨_ | _, -, ⟨⟩⟩ := prepares.fetched_of_changed memory asked changed

theorem UpToDate.save {memory : Memory session} {before world : σ}
    {operations : List (Operation σ)} {saved : Except Failure Unit}
    (aligned : session.UpToDate memory target before operations (.ok .edited))
    (result : Except Failure Outcome) :
    session.UpToDate memory target before (operations ++ [.save world saved]) result := by
  obtain ⟨replaced, once, cancelled⟩ := aligned
  refine ⟨fun hreplace => ?_, ?_, fun asked changed => ?_⟩
  · simp only [List.mem_append, List.mem_singleton, reduceCtorEq, or_false] at hreplace
    obtain ⟨text, region, hfirst, hrest⟩ := replaced hreplace
    exact ⟨text, region, by simp [hfirst], by simpa [Operation.unused] using hrest⟩
  · simpa [Operation.isReplace] using once
  · simp only [List.mem_append, List.mem_singleton, reduceCtorEq, or_false] at asked
    obtain ⟨-, _ | _, -, ⟨⟩⟩ := cancelled asked changed

theorem Goes.upToDate (memory : Memory session) (goes : session.Goes follow call) :
    session.UpToDate memory call.target call.entered.world call.operations call.result := by
  cases goes with
  | skipped =>
    exact ⟨by simp [Call.operations], by simp [Call.operations], by simp [Call.operations]⟩
  | aligned aligns => exact aligns.upToDate memory
  | beforeSave _ aligns => exact aligns.upToDate memory
  | unsaved _ aligns => exact aligns.upToDate memory
  | saved _ aligns =>
    rw [Call.operations, List.map_append]
    exact (aligns.upToDate memory).save _

/-- Whatever the provider does and whatever the calls fired meanwhile do, a call overwrites nothing
that it has not read. -/
theorem upToDate_calls (memory : Memory session) :
    (∀ follow hook target moment call, session.attempt follow hook target moment = some call →
      session.UpToDate memory call.target call.entered.world call.operations call.result) ∧
    ∀ call, session.Ends call →
      session.UpToDate memory call.target call.entered.world call.operations call.result := by
  refine ⟨fun follow hook target moment call ended => ?_, fun call ends => ?_⟩
  · exact (attempt_iff.mp ended).1.upToDate memory
  · obtain ⟨depth, goes⟩ := ends.exists_goes
    exact goes.upToDate memory

def memoryOfResaving (meanwhile : Text → Text) : Memory (resaving meanwhile) where
  text _ text := text
  text_of_read := fun reads => by cases reads; rfl
  text_read := fun _ _ => rfl

theorem goes_emptied : (resaving fun _ => []).Goes (fun _ _ _ => none)
    ⟨.align, (), ⟨.none, swapped.text⟩, [(.read swapped.text (.ok swapped.text), []),
      (.provide swapped.text [] (.ok []), []), (.read [] (.ok []), [])], .ok .cancelled,
      ⟨.none, []⟩⟩ := by
  have fetches : (resaving fun _ => []).Fetches () swapped.text swapped.text
      [(.provide swapped.text [] (.ok []), []), (.read [] (.ok []), [])]
      ((Except.ok []).map fun now => if now = swapped.text then some [] else none) [] :=
    .unused rfl (.somebody rfl rfl) rfl
  rw [Except.map, if_neg (by decide)] at fetches
  exact .aligned (.cancelled (.read rfl (show Region.find? swapped.text = some swapped by
    decide +kernel) fetches))

theorem upToDate_calls_resaving :
    (∃ call, (resaving id).record 2 .didSave () ⟨.none, swapped.text⟩ = some call ∧
      .replace swapped.text 0 37 "import a from \"a\";\nimport b from \"b\";".toList (.ok ()) ∈
        call.operations ∧
      (resaving id).UpToDate (memoryOfResaving id) () swapped.text call.operations call.result) ∧
    ∃ call, (resaving fun _ => []).attempt (fun _ _ _ => none) .align () ⟨.none, swapped.text⟩ =
        some call ∧ call.operations.countP Operation.isReplace = 0 ∧
      ∃ again, .read [] again ∈ call.operations ∧ call.result = again.map fun _ => .cancelled := by
  obtain ⟨call, ended, operations, -⟩ := exists_record_resaving
  obtain ⟨-, -, hentered⟩ := ((resaving id).keeps_record 2).asked ended
  have ends : (resaving id).Ends call := ⟨2, by
    obtain ⟨hhook, htarget, hentered⟩ := ((resaving id).keeps_record 2).asked ended
    rw [hhook, htarget, hentered]
    exact ended⟩
  have upToDate := (upToDate_calls (memoryOfResaving id)).2 call ends
  rw [hentered] at upToDate
  refine ⟨⟨call, ended, by simp [operations], upToDate⟩, ?_⟩
  have emptied := attempt_iff.mpr ⟨goes_emptied, rfl, rfl, rfl⟩
  exact ⟨_, emptied, ((upToDate_calls (memoryOfResaving fun _ => [])).1 _ _ _ _ _ emptied).cancelled
    (.tail _ (.head _)) (by decide)⟩

end Session

namespace Editor

theorem text_buffer_update (editor : Editor) (index target : Nat) {change : Buffer → Buffer}
    (keeps : ∀ buffer, (change buffer).text = buffer.text) :
    ((editor.update index change).buffer target).text = (editor.buffer target).text := by
  simp only [buffer, update, List.getElem?_modify]
  cases editor.buffers[target]? with
  | none => simp
  | some buffer => by_cases same : index = target <;> simp [same, keeps]

def memory (settings : Settings) (source : Option Source) (buffers : List Buffer) :
    Memory (session settings source buffers) where
  text target editor := (editor.buffer target).text
  text_of_read := by
    intro target world after now reads
    simp only [session, scripted, readText, run_get, run_modify] at reads
    split at reads <;> cases reads <;> rfl
  text_read := by
    intro target world
    simp only [session, scripted, readText, run_get, run_modify]
    split
    · rfl
    · exact text_buffer_update _ _ _ fun _ => rfl
    · rfl

end Editor
end ImportBlock
