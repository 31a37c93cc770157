import ImportBlock.Proofs.Session.Record

namespace ImportBlock

namespace Session

variable {σ ι : Type}

section Course

variable (session : Session σ ι) (follow : Follow σ ι) (target : ι)

/-- A save hook has nothing to do for such a document at that moment. -/
def Barred (moment : Moment σ) : Prop :=
  (session.document target).language = none ∨
    (session.document target).id ∈ moment.inFlight.ids

/-- What is taken for unused. A provider that fails finds nothing. -/
inductive Asks (before : σ) : List (Deed σ ι) → List Text → σ → Prop
  | nobody (none : session.provider = none) : Asks before [] [] before
  | somebody {fetch : String → σ → Except ProviderFault (List Text) × σ} {after : σ}
      {answer : Except ProviderFault (List Text)} (some : session.provider = some fetch)
      (asks : fetch (session.document target).id before = (answer, after)) :
      Asks before [(.provide before after answer, [])] (answer.toOption.getD []) after

/-- What is to be removed from a text, unless it has changed meanwhile or cannot be read. -/
inductive Fetches (text : Text) (before : σ) :
    List (Deed σ ι) → Except Failure (Option (List Text)) → σ → Prop
  | nothing (keeps : session.settings.removeUnused = false) :
      Fetches text before [] (.ok (some [])) before
  | unused {between after : σ} {asking : List (Deed σ ι)} {unused : List Text}
      {result : Except Failure Text} (removes : session.settings.removeUnused = true)
      (asks : session.Asks target before asking unused between)
      (reads : (session.document target).read between = (result, after)) :
      Fetches text before (asking ++ [(.read between result, [])])
        (result.map fun now => if now = text then some unused else none) after

inductive Prepares (entered : Moment σ) :
    List (Deed σ ι) → Region → Except Failure (Option (List Text)) → σ → Prop
  | read {text : Text} {region : Region} {world after : σ} {fetching : List (Deed σ ι)}
      {result : Except Failure (Option (List Text))}
      (reads : (session.document target).read entered.world = (.ok text, world))
      (found : Region.find? text = some region)
      (fetches : session.Fetches target text world fetching result after) :
      Prepares entered ((.read entered.world (.ok text), []) :: fetching) region result after

/-- The ways in which aligning a document ends. -/
inductive Aligns (entered : Moment σ) :
    List (Deed σ ι) → Except Failure Outcome → Moment σ → Prop
  | unreadable {failure : Failure} {world : σ}
      (reads : (session.document target).read entered.world = (.error failure, world)) :
      Aligns entered [(.read entered.world (.error failure), [])]
        (.error (.unreadableDocument (session.document target).id failure)) { entered with world }
  | noImports {text : Text} {world : σ}
      (reads : (session.document target).read entered.world = (.ok text, world))
      (none : Region.find? text = none) :
      Aligns entered [(.read entered.world (.ok text), [])] (.ok .noImports) { entered with world }
  | unfetched {preparing : List (Deed σ ι)} {region : Region} {failure : Failure} {world : σ}
      (prepares : session.Prepares target entered preparing region (.error failure) world) :
      Aligns entered preparing (.error failure) { entered with world }
  | cancelled {preparing : List (Deed σ ι)} {region : Region} {world : σ}
      (prepares : session.Prepares target entered preparing region (.ok none) world) :
      Aligns entered preparing (.ok .cancelled) { entered with world }
  | unchanged {preparing : List (Deed σ ι)} {region : Region} {unused : List Text} {world : σ}
      (prepares : session.Prepares target entered preparing region (.ok (some unused)) world)
      (same : (Format.replacement session.settings unused region).edit? = none) :
      Aligns entered preparing (.ok .unchanged) { entered with world }
  | replaced {preparing : List (Deed σ ι)} {region : Region} {unused : List Text} {world : σ}
      {edit : Edit} {played : Played σ ι}
      (prepares : session.Prepares target entered preparing region (.ok (some unused)) world)
      (edits : (Format.replacement session.settings unused region).edit? = some edit)
      (plays : ((session.document target).replace edit.start edit.stop edit.text).play follow
        { entered with world } = some played) :
      Aligns entered (preparing ++
          [(.replace world edit.start edit.stop edit.text played.result, played.calls)])
        (played.result.map fun _ => .edited) played.left

/-- The ways in which a call ends. -/
inductive Goes : Call σ ι → Prop
  | skipped {hook : Hook} {target : ι} {moment : Moment σ} (saves : hook ≠ .align)
      (barred : session.Barred target moment) :
      Goes ⟨hook, target, moment, [], .ok .skipped, moment⟩
  | aligned {target : ι} {entered left : Moment σ}
      {deeds : List (Deed σ ι)} {result : Except Failure Outcome}
      (aligns : session.Aligns follow target entered deeds result left) :
      Goes ⟨.align, target, entered, deeds, result, left⟩
  | beforeSave {target : ι} {moment left : Moment σ}
      {deeds : List (Deed σ ι)} {result : Except Failure Outcome}
      (free : ¬ session.Barred target moment)
      (aligns : session.Aligns follow target (moment.enter (session.document target).id)
        deeds result left) :
      Goes ⟨.willSave, target, moment, deeds, result, left.leave (session.document target).id⟩
  | unsaved {target : ι} {moment left : Moment σ}
      {deeds : List (Deed σ ι)} {result : Except Failure Outcome}
      (free : ¬ session.Barred target moment)
      (aligns : session.Aligns follow target (moment.enter (session.document target).id)
        deeds result left)
      (unedited : result ≠ .ok .edited) :
      Goes ⟨.didSave, target, moment, deeds, result, left.leave (session.document target).id⟩
  | saved {target : ι} {moment left : Moment σ}
      {deeds : List (Deed σ ι)} {played : Played σ ι}
      (free : ¬ session.Barred target moment)
      (aligns : session.Aligns follow target (moment.enter (session.document target).id)
        deeds (.ok .edited) left)
      (plays : (session.document target).save.play follow left = some played) :
      Goes ⟨.didSave, target, moment, deeds ++ [(.save left.world played.result, played.calls)],
        played.result.map fun _ => .edited, played.left.leave (session.document target).id⟩

end Course

end Session

namespace Recorded

variable {σ ι α β : Type} {inFlight : InFlight} {recording : Recording σ ι}

theorem perform_pure (value : α) :
    perform (pure value) inFlight recording = some ((.ok value, inFlight), recording) := rfl

theorem perform_bind (action : Action (Recorded σ ι) α) (next : α → Action (Recorded σ ι) β) :
    perform (action >>= next) inFlight recording =
      (perform action inFlight recording).bind fun ended =>
        match ended.1.1 with
        | .ok value => perform (next value) ended.1.2 ended.2
        | .error failure => some ((.error failure, ended.1.2), ended.2) := by
  simp only [perform, ExceptT.run_bind, StateT.run_bind, Option.bind_eq_bind]
  congr 1
  funext ended
  rcases ended with ⟨⟨result | value, entered⟩, kept⟩ <;> rfl

theorem perform_lift (action : Recorded σ ι α) :
    perform (liftM action) inFlight recording =
      (action.run recording).map fun ended => ((.ok ended.1, inFlight), ended.2) := by
  change (((action.run recording).bind fun ended => some ((ended.1, inFlight), ended.2)).bind
    fun ended => some ((Except.ok ended.1.1, ended.1.2), ended.2)) = _
  cases action.run recording <;> rfl

theorem perform_failingAs (action : Action (Recorded σ ι) α) (wrap : Failure → Failure) :
    perform (action.failingAs wrap) inFlight recording =
      (perform action inFlight recording).map fun ended =>
        ((ended.1.1.mapError wrap, ended.1.2), ended.2) := by
  simp only [perform, Action.failingAs, ExceptT.run_mk, StateT.run_bind, Option.bind_eq_bind]
  cases (action.run.run inFlight).run recording with
  | none => rfl
  | some ended => rcases ended with ⟨⟨failure | value, entered⟩, kept⟩ <;> rfl

theorem run_ask {question : σ → α × σ} {operation : σ → σ → α → Operation σ} {before after : σ}
    {answer : α} {deeds : List (Deed σ ι)} (asks : question before = (answer, after)) :
    (ask question operation).run ⟨before, deeds⟩ =
      some (answer, ⟨after, deeds ++ [(operation before after answer, [])]⟩) := by
  change some ((question before).1, (⟨(question before).2, _⟩ : Recording σ ι)) = _
  rw [asks]

theorem perform_enact (follow : Follow σ ι) (script : Script σ ι)
    (operation : σ → Except Failure Unit → Operation σ) :
    perform (enact follow script operation) inFlight recording =
      (script.play follow ⟨inFlight, recording.world⟩).map fun played =>
        ((played.result, played.left.inFlight), ⟨played.left.world,
          recording.deeds ++ [(operation recording.world played.result, played.calls)]⟩) := by
  change (script.play follow ⟨inFlight, recording.world⟩).bind _ = _
  cases script.play follow ⟨inFlight, recording.world⟩ <;> rfl

end Recorded

namespace Session

variable {σ ι : Type} {session : Session σ ι} {follow : Follow σ ι} {target : ι}
  {inFlight : InFlight} {world after : σ} {deeds preparing : List (Deed σ ι)}

open Recorded

theorem settings_aligner : session.aligner.settings = session.settings := rfl

theorem perform_text {result : Except Failure Text}
    (reads : (session.document target).read world = (result, after)) :
    perform (session.openDocument follow target).text inFlight ⟨world, deeds⟩ =
      some ((result, inFlight), ⟨after, deeds ++ [(.read world result, [])]⟩) := by
  change ((ask (session.document target).read fun world _ result => .read world result).run
    ⟨world, deeds⟩).bind (fun ended => some ((ended.1, inFlight), ended.2)) = _
  rw [run_ask reads]
  rfl

theorem exists_asks (session : Session σ ι) (target : ι) (world : σ) :
    ∃ asking unused after, session.Asks target world asking unused after := by
  cases provided : session.provider with
  | none => exact ⟨_, _, _, .nobody provided⟩
  | some fetch => exact ⟨_, _, _, .somebody provided rfl⟩

theorem perform_unusedSymbols {asking : List (Deed σ ι)} {unused : List Text}
    (asks : session.Asks target world asking unused after) :
    perform (liftM (session.aligner.unusedSymbols (session.document target).id)) inFlight
      ⟨world, deeds⟩ = some ((.ok unused, inFlight), ⟨after, deeds ++ asking⟩) := by
  rw [perform_lift, Aligner.unusedSymbols, aligner]
  cases asks with
  | nobody provided =>
    simp only [provided, Option.map_none, List.append_nil]
    rfl
  | @somebody fetch _ answer provided asks =>
    simp only [provided, Option.map_some, StateT.run_bind, run_ask asks]
    cases answer <;> rfl

theorem exists_fetches (session : Session σ ι) (target : ι) (text : Text) (world : σ) :
    ∃ fetching result after, session.Fetches target text world fetching result after := by
  cases removes : session.settings.removeUnused with
  | false => exact ⟨_, _, _, .nothing removes⟩
  | true =>
    obtain ⟨asking, unused, between, hasks⟩ := session.exists_asks target world
    exact ⟨_, _, _, .unused removes hasks rfl⟩

theorem perform_fetchUnused {text : Text} {fetching : List (Deed σ ι)}
    {result : Except Failure (Option (List Text))}
    (fetches : session.Fetches target text world fetching result after) :
    perform (session.aligner.fetchUnused (session.openDocument follow target) text) inFlight
      ⟨world, deeds⟩ = some ((result, inFlight), ⟨after, deeds ++ fetching⟩) := by
  cases fetches with
  | nothing keeps =>
    have hkeeps : session.aligner.settings.removeUnused = false := keeps
    rw [Aligner.fetchUnused, if_neg (by simp [hkeeps]), perform_pure, List.append_nil]
  | @unused between _ asking unused result removes asks reads =>
    have hremoves : session.aligner.settings.removeUnused = true := removes
    have hask : perform (liftM (session.aligner.unusedSymbols
        (session.openDocument follow target).id)) inFlight ⟨world, deeds⟩ =
          some ((.ok unused, inFlight), ⟨between, deeds ++ asking⟩) := perform_unusedSymbols asks
    rw [Aligner.fetchUnused, if_pos hremoves, perform_bind, hask, Option.bind_some]
    simp only [perform_bind, perform_text reads, Option.bind_some]
    rw [List.append_assoc]
    cases result with
    | error failure => rfl
    | ok now =>
      by_cases same : now = text
      · simp only [if_pos same, Except.map]
        rfl
      · simp only [if_neg same, Except.map]
        rfl

theorem perform_edit {region : Region} {unused : List Text} :
    perform (session.aligner.edit (session.openDocument follow target) region unused) inFlight
      ⟨world, deeds⟩ =
      match (Format.replacement session.settings unused region).edit? with
      | none => some ((.ok .unchanged, inFlight), ⟨world, deeds⟩)
      | some edit =>
        (((session.document target).replace edit.start edit.stop edit.text).play follow
          ⟨inFlight, world⟩).map fun played =>
            ((played.result.map fun _ => .edited, played.left.inFlight), ⟨played.left.world,
              deeds ++ [(.replace world edit.start edit.stop edit.text played.result,
                played.calls)]⟩) := by
  have hnotes : ∀ notes : List Note, perform
      (notes.forM fun note => liftM (session.aligner.note note)) inFlight ⟨world, deeds⟩ =
        some ((.ok (), inFlight), ⟨world, deeds⟩) := by
    intro notes
    induction notes with
    | nil => rfl
    | cons note notes ih => exact ih
  rw [Aligner.edit, perform_bind, hnotes, Option.bind_some, settings_aligner]
  cases (Format.replacement session.settings unused region).edit? with
  | none => rfl
  | some edit =>
    simp only [openDocument, perform_bind, perform_enact]
    cases Script.play follow ((session.document target).replace edit.start edit.stop edit.text)
      ⟨inFlight, world⟩ with
    | none => rfl
    | some played =>
      simp only [Option.map_some, Option.bind_some]
      cases played.result <;> rfl

theorem perform_text_failingAs {text : Text} (wrap : Failure → Failure)
    (reads : (session.document target).read world = (.ok text, after)) :
    perform ((session.openDocument follow target).text.failingAs wrap) inFlight ⟨world, deeds⟩ =
      some ((.ok text, inFlight), ⟨after, deeds ++ [(.read world (.ok text), [])]⟩) := by
  rw [perform_failingAs, perform_text reads]
  rfl

theorem perform_align_of_prepares {region : Region} {result : Except Failure (Option (List Text))}
    (prepares : session.Prepares target ⟨inFlight, world⟩ preparing region result after) :
    perform (session.aligner.align (session.openDocument follow target)) inFlight ⟨world, []⟩ =
      match result with
      | .error failure => some ((.error failure, inFlight), ⟨after, preparing⟩)
      | .ok none => some ((.ok .cancelled, inFlight), ⟨after, preparing⟩)
      | .ok (some unused) =>
        perform (session.aligner.edit (session.openDocument follow target) region unused) inFlight
          ⟨after, preparing⟩ := by
  obtain ⟨reads, found, fetches⟩ := prepares
  rw [Aligner.align, perform_bind, perform_text_failingAs _ reads, Option.bind_some]
  simp only [found, perform_bind, perform_fetchUnused fetches, Option.bind_some]
  rcases result with failure | none | unused <;> rfl

theorem perform_align_of_unreadable {failure : Failure}
    (reads : (session.document target).read world = (.error failure, after)) :
    perform (session.aligner.align (session.openDocument follow target)) inFlight ⟨world, []⟩ =
      some ((.error (.unreadableDocument (session.document target).id failure), inFlight),
        ⟨after, [(.read world (.error failure), [])]⟩) := by
  rw [Aligner.align, perform_bind, perform_failingAs, perform_text reads]
  rfl

theorem perform_align_of_noImports {text : Text}
    (reads : (session.document target).read world = (.ok text, after))
    (none : Region.find? text = none) :
    perform (session.aligner.align (session.openDocument follow target)) inFlight ⟨world, []⟩ =
      some ((.ok .noImports, inFlight), ⟨after, [(.read world (.ok text), [])]⟩) := by
  rw [Aligner.align, perform_bind, perform_text_failingAs _ reads, Option.bind_some]
  simp only [none]
  rfl

theorem perform_align_iff {entered left : Moment σ} {result : Except Failure Outcome} :
    perform (session.aligner.align (session.openDocument follow target)) entered.inFlight
        ⟨entered.world, []⟩ = some ((result, left.inFlight), ⟨left.world, deeds⟩) ↔
      session.Aligns follow target entered deeds result left := by
  rcases entered with ⟨inFlight, world⟩
  constructor
  · intro ended
    rcases left with ⟨inFlight', world'⟩
    rcases reads : (session.document target).read world with ⟨failure | text, after⟩
    · rw [perform_align_of_unreadable reads] at ended
      cases ended
      exact .unreadable reads
    rcases found : Region.find? text with _ | region
    · rw [perform_align_of_noImports reads found] at ended
      cases ended
      exact .noImports reads found
    obtain ⟨fetching, fetched, between, fetches⟩ := session.exists_fetches target text after
    have prepares : session.Prepares target ⟨inFlight, world⟩ _ region fetched between :=
      .read reads found fetches
    rw [perform_align_of_prepares prepares] at ended
    rcases fetched with failure | _ | unused
    · cases ended
      exact .unfetched prepares
    · cases ended
      exact .cancelled prepares
    simp only [perform_edit] at ended
    split at ended
    · next same =>
      cases ended
      exact .unchanged prepares same
    · next edit edits =>
      obtain ⟨played, plays, ended⟩ := Option.map_eq_some_iff.mp ended
      cases ended
      exact .replaced prepares edits plays
  · intro aligns
    cases aligns with
    | unreadable reads => exact perform_align_of_unreadable reads
    | noImports reads none => exact perform_align_of_noImports reads none
    | unfetched prepares => exact perform_align_of_prepares prepares
    | cancelled prepares => exact perform_align_of_prepares prepares
    | unchanged prepares same =>
      rw [perform_align_of_prepares prepares]
      simp only [perform_edit, same]
    | replaced prepares edits plays =>
      rw [perform_align_of_prepares prepares]
      simp only [perform_edit, edits, plays, Option.map_some]

theorem perform_alignAndSave_iff {entered left : Moment σ} {result : Except Failure Outcome} :
    perform (session.aligner.alignAndSave (session.openDocument follow target)) entered.inFlight
        ⟨entered.world, []⟩ = some ((result, left.inFlight), ⟨left.world, deeds⟩) ↔
      (session.Aligns follow target entered deeds result left ∧ result ≠ .ok .edited) ∨
        ∃ aligning between played,
          session.Aligns follow target entered aligning (.ok .edited) between ∧
          (session.document target).save.play follow between = some played ∧
          deeds = aligning ++ [(.save between.world played.result, played.calls)] ∧
          result = played.result.map (fun _ => .edited) ∧ left = played.left := by
  rw [Aligner.alignAndSave, perform_bind]
  constructor
  · intro ended
    obtain ⟨⟨⟨outcome, entered'⟩, kept⟩, haligned, ended⟩ := Option.bind_eq_some_iff.mp ended
    have aligns : session.Aligns follow target entered kept.deeds outcome ⟨entered', kept.world⟩ :=
      perform_align_iff.mp haligned
    rcases left with ⟨inFlight', world'⟩
    rcases outcome with failure | outcome
    · cases ended
      exact .inl ⟨aligns, by simp⟩
    · by_cases edited : outcome = .edited
      · subst edited
        simp only [openDocument, if_pos, perform_bind, perform_enact] at ended
        obtain ⟨saving, hsaving, ended⟩ := Option.bind_eq_some_iff.mp ended
        obtain ⟨played, plays, rfl⟩ := Option.map_eq_some_iff.mp hsaving
        refine .inr ⟨_, _, played, aligns, plays, ?_⟩
        cases hresult : played.result <;> simp only [hresult] at ended <;> cases ended <;>
          exact ⟨rfl, rfl, rfl⟩
      · simp only [if_neg edited] at ended
        cases ended
        exact .inl ⟨aligns, by simpa using edited⟩
  · rintro (⟨aligns, unedited⟩ | ⟨aligning, between, played, aligns, plays, rfl, rfl, rfl⟩)
    · rw [perform_align_iff.mpr aligns, Option.bind_some]
      cases result with
      | error failure => rfl
      | ok outcome =>
        simp only [if_neg (show outcome ≠ .edited from by simpa using unedited)]
        rfl
    · rw [perform_align_iff.mpr aligns, Option.bind_some]
      simp only [openDocument, if_pos, perform_bind, perform_enact, plays, Option.map_some,
        Option.bind_some]
      cases played.result <;> rfl

theorem perform_guarded_of_barred {action : Action (Recorded σ ι) Outcome}
    (barred : session.Barred target ⟨inFlight, world⟩) :
    perform (session.aligner.guarded (session.openDocument follow target) action) inFlight
      ⟨world, deeds⟩ = some ((.ok .skipped, inFlight), ⟨world, deeds⟩) := by
  rw [Aligner.guarded, openDocument]
  by_cases known : (session.document target).language.isNone
  · rw [if_pos known]
    rfl
  · have hbusy : inFlight.acquire? (session.document target).id = none := by
      have hmem := barred.resolve_left (by simpa using known)
      simpa [InFlight.acquire?] using hmem
    rw [if_neg known]
    simp only [perform, ExceptT.run_mk, StateT.run, hbusy]
    rfl

theorem perform_guarded_of_free {action : Action (Recorded σ ι) Outcome}
    (free : ¬ session.Barred target ⟨inFlight, world⟩) :
    perform (session.aligner.guarded (session.openDocument follow target) action) inFlight
        ⟨world, deeds⟩ =
      (perform action ⟨(session.document target).id :: inFlight.ids⟩ ⟨world, deeds⟩).map
        fun ended => ((ended.1.1, ended.1.2.release (session.document target).id), ended.2) := by
  rw [Barred, not_or] at free
  have hfree : inFlight.acquire? (session.document target).id =
      some ⟨(session.document target).id :: inFlight.ids⟩ := by
    simpa [InFlight.acquire?] using free.2
  rw [Aligner.guarded, openDocument, if_neg (by simpa using free.1)]
  simp only [perform, ExceptT.run_mk, StateT.run, hfree]
  change (perform action ⟨(session.document target).id :: inFlight.ids⟩ ⟨world, deeds⟩).bind
    (fun ended => some ((ended.1.1, ended.1.2.release (session.document target).id), ended.2)) =
      (perform action ⟨(session.document target).id :: inFlight.ids⟩ ⟨world, deeds⟩).map _
  cases perform action ⟨(session.document target).id :: inFlight.ids⟩ ⟨world, deeds⟩ <;> rfl

theorem perform_guarded_iff {action : Action (Recorded σ ι) Outcome} {moment left : Moment σ}
    {result : Except Failure Outcome} :
    perform (session.aligner.guarded (session.openDocument follow target) action) moment.inFlight
        ⟨moment.world, []⟩ = some ((result, left.inFlight), ⟨left.world, deeds⟩) ↔
      (session.Barred target moment ∧ deeds = [] ∧ result = .ok .skipped ∧ left = moment) ∨
        (¬ session.Barred target moment ∧ ∃ inside : Moment σ,
          perform action (moment.enter (session.document target).id).inFlight ⟨moment.world, []⟩ =
            some ((result, inside.inFlight), ⟨inside.world, deeds⟩) ∧
          left = inside.leave (session.document target).id) := by
  by_cases barred : session.Barred target moment
  · rw [perform_guarded_of_barred barred]
    constructor
    · intro ended
      rcases left with ⟨inFlight, world⟩
      cases ended
      exact .inl ⟨barred, rfl, rfl, rfl⟩
    · rintro (⟨-, rfl, rfl, rfl⟩ | ⟨free, -⟩)
      · rfl
      · exact absurd barred free
  · rw [perform_guarded_of_free barred, Option.map_eq_some_iff]
    constructor
    · rintro ⟨⟨⟨result', inFlight⟩, ⟨world, kept⟩⟩, ended, same⟩
      rcases left with ⟨inFlight', world'⟩
      simp only [Prod.mk.injEq, Recording.mk.injEq] at same
      obtain ⟨⟨rfl, rfl⟩, rfl, rfl⟩ := same
      exact .inr ⟨barred, ⟨inFlight, world⟩, ended, rfl⟩
    · rintro (⟨free, -⟩ | ⟨-, inside, ended, rfl⟩)
      · exact absurd free barred
      · exact ⟨_, ended, rfl⟩

theorem attempt_eq_some {hook : Hook} {moment : Moment σ} {call : Call σ ι} :
    session.attempt follow hook target moment = some call ↔
      ∃ result, ∃ left : Moment σ, ∃ deeds, perform (session.aligner.call
          (session.openDocument follow target) hook) moment.inFlight ⟨moment.world, []⟩ =
            some ((result, left.inFlight), ⟨left.world, deeds⟩) ∧
        call = ⟨hook, target, moment, deeds, result, left⟩ := by
  simp only [attempt, Option.bind_eq_bind, Option.bind_eq_some_iff, Option.pure_def,
    Option.some.injEq]
  constructor
  · rintro ⟨⟨⟨result, inFlight⟩, recording⟩, ended, rfl⟩
    exact ⟨result, ⟨inFlight, recording.world⟩, recording.deeds, ended, rfl⟩
  · rintro ⟨result, left, deeds, ended, rfl⟩
    exact ⟨_, ended, rfl⟩

/-- A call comes to an end in the ways told, and in no other. -/
theorem attempt_iff {hook : Hook} {moment : Moment σ} {call : Call σ ι} :
    session.attempt follow hook target moment = some call ↔
      session.Goes follow call ∧ call.hook = hook ∧ call.target = target ∧
        call.entered = moment := by
  rw [attempt_eq_some]
  constructor
  · rintro ⟨result, left, deeds, ended, rfl⟩
    refine ⟨?_, rfl, rfl, rfl⟩
    cases hook with
    | align => exact .aligned (perform_align_iff.mp ended)
    | willSave =>
      obtain ⟨barred, rfl, rfl, rfl⟩ | ⟨free, inside, inner, rfl⟩ := perform_guarded_iff.mp ended
      · exact .skipped (by simp) barred
      · exact .beforeSave free (perform_align_iff.mp inner)
    | didSave =>
      obtain ⟨barred, rfl, rfl, rfl⟩ | ⟨free, inside, inner, rfl⟩ := perform_guarded_iff.mp ended
      · exact .skipped (by simp) barred
      · obtain ⟨aligns, unedited⟩ | ⟨aligning, between, played, aligns, plays, rfl, rfl, rfl⟩ :=
          perform_alignAndSave_iff.mp inner
        · exact .unsaved free aligns unedited
        · exact .saved free aligns plays
  · rintro ⟨goes, rfl, rfl, rfl⟩
    cases goes with
    | @skipped hook target moment saves barred =>
      have ended : ∀ action, perform (session.aligner.guarded
          (session.openDocument follow target) action) moment.inFlight
            ⟨moment.world, []⟩ = some ((.ok .skipped, moment.inFlight), ⟨moment.world, []⟩) :=
        fun action => perform_guarded_of_barred barred
      cases hook with
      | align => exact absurd rfl saves
      | willSave => exact ⟨_, _, _, ended _, rfl⟩
      | didSave => exact ⟨_, _, _, ended _, rfl⟩
    | aligned aligns => exact ⟨_, _, _, perform_align_iff.mpr aligns, rfl⟩
    | beforeSave free aligns =>
      exact ⟨_, _, _, perform_guarded_iff.mpr
        (.inr ⟨free, _, perform_align_iff.mpr aligns, rfl⟩), rfl⟩
    | unsaved free aligns unedited =>
      have ended := perform_alignAndSave_iff.mpr (.inl ⟨aligns, unedited⟩)
      exact ⟨_, _, _, perform_guarded_iff.mpr (.inr ⟨free, _, ended, rfl⟩), rfl⟩
    | saved free aligns plays =>
      have ended := perform_alignAndSave_iff.mpr (.inr ⟨_, _, _, aligns, plays, rfl, rfl, rfl⟩)
      exact ⟨_, _, _, perform_guarded_iff.mpr (.inr ⟨free, _, ended, rfl⟩), rfl⟩

end Session
end ImportBlock
