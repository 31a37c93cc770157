import Mathlib.Data.List.Nodup
import ImportBlock.Proofs.CommandLine.Visit
import ImportBlock.Proofs.Layout.Groups

/-! A trial run tells what the run for good changes. -/

namespace ImportBlock

open FileDocument

namespace Tool

variable {run : Command → StateM Workspace (Except SystemFault Finished)}
  {workspace middle after : Workspace} {settings : Settings} {arguments : Arguments}
  {check : Bool} {path : String} {paths listed : List String} {place : List Text}
  {bytes : List UInt8} {now : Text}

def misaligned (settings : Settings) (workspace : Workspace) (path : String) : Bool :=
  match (workspace.read path).toOption.bind fun bytes => (Text.decode bytes).toOption with
  | some now => Format.formatted settings [] now ≠ now
  | none => false

theorem misaligned_of_holds (holds : Holds workspace path place bytes now) :
    misaligned settings workspace path = decide (Format.outcome settings now = .edited) := by
  simp only [misaligned, holds.read, holds.decoded, Except.toOption, Option.bind_some,
    Format.outcome_eq_edited_iff]

/-- The paths whose imports are to be put in order. -/
def outOfOrder (settings : Settings) (workspace : Workspace) (paths : List String) : List String :=
  paths.filter fun path => (Language.ofPath? path).isSome && misaligned settings workspace path

theorem mem_of_mem_outOfOrder (listed : path ∈ outOfOrder settings workspace paths) :
    path ∈ paths := (List.mem_filter.mp listed).1

theorem edited_of_mem_outOfOrder (listed : path ∈ outOfOrder settings workspace paths)
    (holds : Holds workspace path place bytes now) : Format.outcome settings now = .edited := by
  have hlisted := (List.mem_filter.mp listed).2
  rw [misaligned_of_holds holds] at hlisted
  simp_all

theorem outOfOrder_cons_unknown (unknown : Language.ofPath? path = none) :
    outOfOrder settings workspace (path :: paths) = outOfOrder settings workspace paths := by
  simp [outOfOrder, unknown]

theorem outOfOrder_cons {language : Language} (known : Language.ofPath? path = some language)
    (holds : Holds workspace path place bytes now) :
    outOfOrder settings workspace (path :: paths) =
      (if Format.outcome settings now = .edited then [path] else []) ++
        outOfOrder settings workspace paths := by
  rw [outOfOrder, List.filter_cons, known, misaligned_of_holds holds]
  split <;> simp_all [outOfOrder]

/-- Each path leads to a text of its own. -/
structure Distinct (workspace : Workspace) (paths : List String) : Prop where
  texts : ∀ path ∈ paths, ∃ place bytes now, Holds workspace path place bytes now
  nodup : (paths.map workspace.locate).Nodup

theorem Distinct.tail (distinct : Distinct workspace (path :: paths)) : Distinct workspace paths :=
  ⟨fun other hother => distinct.texts other (List.mem_cons_of_mem path hother),
    (List.nodup_cons.mp distinct.nodup).2⟩

theorem Distinct.elsewhere (distinct : Distinct workspace (path :: paths))
    (located : workspace.locate path = .ok place) {other : String} (hother : other ∈ paths) :
    workspace.locate other ≠ .ok place := fun same =>
  (List.nodup_cons.mp distinct.nodup).1
    (List.mem_map.mpr ⟨other, hother, same.trans located.symm⟩)

theorem Distinct.perm {others : List String} (distinct : Distinct workspace paths)
    (perm : others.Perm paths) : Distinct workspace others :=
  ⟨fun path hpath => distinct.texts path (perm.mem_iff.mp hpath),
    (perm.map workspace.locate).nodup_iff.mpr distinct.nodup⟩

/-- What visits to these paths, on trial or for good, have printed and changed. -/
structure Visited (settings : Settings) (check : Bool) (paths : List String)
    (before after : Workspace) : Prop where
  printed : after.printed =
    before.printed ++ (outOfOrder settings before paths).map (line check)
  trial : check = true → after.tree = before.tree
  formatted : check = false → ∀ path ∈ outOfOrder settings before paths, ∀ place bytes now,
    Holds before path place bytes now →
      after.tree.get? place = some (.file (Text.encode (Format.formatted settings [] now)))
  kept : ∀ place, (∀ path ∈ outOfOrder settings before paths, before.locate path ≠ .ok place) →
    after.tree.get? place = before.tree.get? place

theorem visited_of_none (none : outOfOrder settings workspace paths = []) :
    Visited settings check paths workspace workspace where
  printed := by rw [none, List.map_nil, List.append_nil]
  trial := fun _ => rfl
  formatted := fun _ path listed => absurd listed (none ▸ List.not_mem_nil)
  kept := fun _ _ => rfl

theorem Visited.cons_unknown (unknown : Language.ofPath? path = none)
    (visited : Visited settings check paths workspace after) :
    Visited settings check (path :: paths) workspace after := by
  obtain ⟨printed, trial, formatted, kept⟩ := visited
  rw [← outOfOrder_cons_unknown unknown] at printed formatted kept
  exact ⟨printed, trial, formatted, kept⟩

theorem holds_visitedOne {other : String} {place' : List Text} {bytes' : List UInt8} {now' : Text}
    (distinct : Distinct workspace (path :: paths)) (holds : Holds workspace path place bytes now)
    (hother : other ∈ paths) (holds' : Holds workspace other place' bytes' now') :
    Holds (visitedOne settings check workspace path place now) other place' bytes' now' := by
  have apart : place' ≠ place := by
    rintro rfl
    exact distinct.elsewhere holds.located hother holds'.located
  exact (holds'.settled_elsewhere holds.file apart).congr rfl rfl

theorem locate_visitedOne (holds : Holds workspace path place bytes now) :
    (visitedOne settings check workspace path place now).locate = workspace.locate :=
  funext fun other => locate_settled holds.file other

theorem get?_visitedOne (holds : Holds workspace path place bytes now) (elsewhere : List Text) :
    (visitedOne settings check workspace path place now).tree.get? elsewhere =
      if elsewhere = place ∧ check = false ∧ Format.outcome settings now = .edited then
        some (.file (Text.encode (Format.formatted settings [] now)))
      else workspace.tree.get? elsewhere := get?_settled holds.file

theorem outOfOrder_visitedOne (distinct : Distinct workspace (path :: paths))
    (holds : Holds workspace path place bytes now) :
    outOfOrder settings (visitedOne settings check workspace path place now) paths =
      outOfOrder settings workspace paths := by
  refine List.filter_congr fun other hother => ?_
  obtain ⟨place', bytes', now', holds'⟩ := distinct.tail.texts other hother
  rw [misaligned_of_holds holds',
    misaligned_of_holds (holds_visitedOne distinct holds hother holds')]

theorem Distinct.visitedOne (distinct : Distinct workspace (path :: paths))
    (holds : Holds workspace path place bytes now) :
    Distinct (visitedOne settings check workspace path place now) paths where
  texts other hother := by
    obtain ⟨place', bytes', now', holds'⟩ := distinct.tail.texts other hother
    exact ⟨place', bytes', now', holds_visitedOne distinct holds hother holds'⟩
  nodup := by
    rw [locate_visitedOne holds]
    exact distinct.tail.nodup

theorem Visited.cons {language : Language} (known : Language.ofPath? path = some language)
    (distinct : Distinct workspace (path :: paths)) (holds : Holds workspace path place bytes now)
    (visited : Visited settings check paths (visitedOne settings check workspace path place now)
      after) : Visited settings check (path :: paths) workspace after := by
  have hlater : outOfOrder settings (visitedOne settings check workspace path place now) paths =
      outOfOrder settings workspace paths := outOfOrder_visitedOne distinct holds
  have hcons : outOfOrder settings workspace (path :: paths) = _ := outOfOrder_cons known holds
  obtain ⟨printed, trial, formatted, kept⟩ := visited
  rw [hlater] at printed formatted kept
  rw [locate_visitedOne holds] at kept
  refine ⟨?_, fun hcheck => (trial hcheck).trans ?_, fun hcheck other hother => ?_,
    fun elsewhere hkept => ?_⟩
  · rw [printed, hcons, List.map_append, visitedOne, ← List.append_assoc]
    congr 2
    split <;> rfl
  · simp [visitedOne, settled, hcheck]
  · intro place' bytes' now' holds'
    by_cases hpath : other = path
    · -- No later path leads to the place of the first.
      subst hpath
      have hedited := edited_of_mem_outOfOrder hother holds
      obtain ⟨rfl, rfl, rfl⟩ := holds.unique holds'
      rw [kept place' fun later hlater => distinct.elsewhere holds.located
        (mem_of_mem_outOfOrder hlater), get?_visitedOne holds, if_pos ⟨rfl, hcheck, hedited⟩]
    · have hlisted : other ∈ outOfOrder settings workspace paths := by
        rw [hcons, List.mem_append] at hother
        exact hother.resolve_left (by split <;> simp [hpath])
      exact formatted hcheck other hlisted place' bytes' now'
        (holds_visitedOne distinct holds (mem_of_mem_outOfOrder hlisted) holds')
  · have hrest : ∀ other ∈ outOfOrder settings workspace paths,
        workspace.locate other ≠ .ok elsewhere := fun other hother =>
      hkept other (hcons ▸ List.mem_append_right _ hother)
    rw [kept elsewhere hrest, get?_visitedOne holds, if_neg]
    rintro ⟨rfl, -, hedited⟩
    refine hkept path ?_ holds.located
    rw [hcons, if_pos hedited]
    exact List.mem_append_left _ (List.mem_singleton_self path)

def reported (settings : Settings) (check : Bool) (workspace : Workspace) (paths : List String) :
    List String :=
  if check then outOfOrder settings workspace paths else []

theorem reported_cons_length {language : Language} (known : Language.ofPath? path = some language)
    (holds : Holds workspace path place bytes now) :
    (reported settings check workspace (path :: paths)).length =
      if check && Format.outcome settings now = .edited then
        (reported settings check workspace paths).length + 1
      else (reported settings check workspace paths).length := by
  rw [reported, reported, outOfOrder_cons known holds]
  cases check with
  | false => rfl
  | true =>
    by_cases edited : Format.outcome settings now = .edited <;> simp [edited]

def closing (paths reported : List String) : List String :=
  if (Language.classify paths).isEmpty then ["No JS/TS files to align"]
  else if reported.isEmpty then ["✓ All imports aligned!"]
  else []

def verdict (reported : List String) : Except Failure Unit :=
  if reported.isEmpty then .ok () else .error (.misaligned reported.length)

theorem gives_classify (paths : List String) : Gives (classify (Workspace.host run) paths) workspace
    (.ok (Language.classify paths)) workspace := by
  have hnotes : ∀ ignored : List String, Gives (ignored.forM fun path =>
      liftM ((Workspace.host run).note ⟨.debug, s!"Ignoring {path}: not a JS/TS source"⟩))
        workspace (.ok ()) workspace := by
    intro ignored
    induction ignored with
    | nil => exact gives_pure ()
    | cons path ignored ih => exact (gives_note _).bind ih
  exact (hnotes _).bind (gives_pure _)

section Unsourced

variable (unsourced : provider? (Workspace.host run) arguments = none)

include unsourced

theorem gives_visitAll (distinct : Distinct workspace paths) :
    ∃ after, Visited settings arguments.check paths workspace after ∧
      Gives (visitAll (Workspace.host run) settings arguments .none (Language.classify paths))
        workspace (.ok (reported settings arguments.check workspace paths).length) after := by
  induction paths generalizing workspace with
  | nil =>
    have hnone : outOfOrder settings workspace [] = [] := rfl
    refine ⟨workspace, visited_of_none hnone, ?_⟩
    rw [reported, hnone, ite_self]
    exact gives_pure 0
  | cons path paths ih =>
    cases known : Language.ofPath? path with
    | none =>
      obtain ⟨after, visited, gives⟩ := ih distinct.tail
      refine ⟨after, visited.cons_unknown known, ?_⟩
      have hclassify : Language.classify (path :: paths) = Language.classify paths := by
        simp [Language.classify, known]
      rw [hclassify, reported, outOfOrder_cons_unknown known]
      exact gives
    | some language =>
      obtain ⟨place, bytes, now, holds⟩ := distinct.texts path List.mem_cons_self
      -- The later visits start from what the first has left.
      obtain ⟨after, visited, gives⟩ := ih (distinct.visitedOne holds)
      refine ⟨after, visited.cons known distinct holds, ?_⟩
      have hclassify : Language.classify (path :: paths) =
          (path, language) :: Language.classify paths := by simp [Language.classify, known]
      rw [reported, outOfOrder_visitedOne distinct holds] at gives
      rw [hclassify, reported_cons_length known holds]
      have hfree : InFlight.none.acquire? path = some ⟨[path]⟩ := rfl
      exact (gives_visit unsourced holds known hfree).bind (gives.bind (gives_pure _))

theorem gives_runFiles (distinct : Distinct workspace paths) :
    ∃ after, Visited settings arguments.check paths workspace after ∧
      Gives (runFiles (Workspace.host run) settings arguments (Language.classify paths)) workspace
        (verdict (reported settings arguments.check workspace paths))
        { after with
          printed := after.printed ++
            closing paths (reported settings arguments.check workspace paths) } := by
  rw [runFiles, closing]
  split
  · next none =>
    have hnone : outOfOrder settings workspace paths = [] := by
      simp only [Language.classify, List.isEmpty_iff, List.filterMap_eq_nil_iff,
        Option.map_eq_none_iff] at none
      exact List.filter_eq_nil_iff.mpr fun path hpath => by simp [none path hpath]
    refine ⟨workspace, visited_of_none hnone, ?_⟩
    rw [reported, hnone, ite_self]
    exact gives_print _
  · obtain ⟨after, visited, gives⟩ := gives_visitAll unsourced distinct
    refine ⟨after, visited, gives.bind ?_⟩
    cases reported settings arguments.check workspace paths with
    | nil => exact gives_print _
    | cons path more =>
      have hverdict : verdict (path :: more) = .error (.misaligned (path :: more).length) := rfl
      rw [hverdict, List.isEmpty_cons, if_neg Bool.false_ne_true, List.append_nil]
      exact gives_throw _

end Unsourced

/-- Settings that the command can have, texts that it can read, and nobody asked what is unused. -/
structure Ready (run : Command → StateM Workspace (Except SystemFault Finished))
    (workspace : Workspace) (arguments : Arguments) (settings : Settings) : Prop where
  named : arguments.files ≠ []
  noReport : arguments.unusedReport = none
  noCommand : arguments.unusedCmd = none
  configured : ((Tool.settings (Workspace.host run) arguments).run.run workspace).1 = .ok settings
  distinct : Distinct workspace arguments.files

theorem Ready.again (ready : Ready run workspace arguments settings) (check onSave : Bool)
    (perm : paths.Perm arguments.files) :
    Ready run workspace { arguments with files := paths, check, onSave } settings where
  named := fun none => ready.named (List.nil_perm.mp (none ▸ perm))
  noReport := ready.noReport
  noCommand := ready.noCommand
  configured := ready.configured
  distinct := ready.distinct.perm perm

theorem Ready.run_eq (ready : Ready run workspace arguments settings) :
    ∃ after notes, Visited settings arguments.check arguments.files workspace after ∧
      (Tool.run (Workspace.host run) arguments).run.run workspace =
        (verdict (reported settings arguments.check workspace arguments.files),
          { after with
            notes
            printed := after.printed ++ closing arguments.files
              (reported settings arguments.check workspace arguments.files) }) := by
  have unsourced : provider? (Workspace.host run) arguments = none := by
    rw [provider?, ready.noReport, ready.noCommand]
    rfl
  obtain ⟨after, visited, gives⟩ : ∃ after, Visited settings arguments.check arguments.files
      workspace after ∧ Gives _ workspace _ _ := gives_runFiles unsourced ready.distinct
  have ends : Gives (classify (Workspace.host run) arguments.files >>= fun files =>
      runFiles (Workspace.host run) settings arguments files) workspace _ _ :=
    (gives_classify arguments.files).bind gives
  obtain ⟨between, hquiet⟩ : ∃ notes, ((Tool.settings (Workspace.host run) arguments).run.run
      workspace).2 = { workspace with notes } := Workspace.quiet_settings arguments workspace
  obtain ⟨notes, hends⟩ := ends between
  refine ⟨after, notes, visited, ?_⟩
  have hfiles : arguments.files.isEmpty = false := List.isEmpty_eq_false_iff.mpr ready.named
  rw [Tool.run, run_run_bind, ready.configured, hquiet]
  simp only [hfiles]
  exact hends

section Contents

variable {others : List String} {other : Workspace}

/-- Each file is changed by its own visit alone, so their order does not matter. -/
theorem Visited.get?_eq (distinct : Distinct workspace paths) (perm : others.Perm paths)
    (visited : Visited settings false paths workspace after)
    (visited' : Visited settings false others workspace other) :
    other.tree.get? = after.tree.get? := by
  have hmem : ∀ path, path ∈ outOfOrder settings workspace others ↔
      path ∈ outOfOrder settings workspace paths := fun path => (perm.filter _).mem_iff
  funext place
  by_cases listed : ∃ path ∈ outOfOrder settings workspace paths, workspace.locate path = .ok place
  · obtain ⟨path, hlisted, located⟩ := listed
    obtain ⟨place', bytes, now, holds⟩ := distinct.texts path (mem_of_mem_outOfOrder hlisted)
    obtain rfl : place' = place := Except.ok.inj (holds.located.symm.trans located)
    rw [visited.formatted rfl path hlisted place' bytes now holds,
      visited'.formatted rfl path ((hmem path).mpr hlisted) place' bytes now holds]
  · have hkept : ∀ path ∈ outOfOrder settings workspace paths, workspace.locate path ≠ .ok place :=
      fun path hlisted located => listed ⟨path, hlisted, located⟩
    rw [visited.kept place hkept,
      visited'.kept place fun path hlisted => hkept path ((hmem path).mp hlisted)]

/-- A file changes where its path is listed, and only there. -/
theorem Visited.changed_iff (distinct : Distinct workspace paths)
    (visited : Visited settings false paths workspace after) (hpath : path ∈ paths)
    (located : workspace.locate path = .ok place) :
    after.tree.get? place ≠ workspace.tree.get? place ↔
      path ∈ outOfOrder settings workspace paths := by
  obtain ⟨place', bytes, now, holds⟩ := distinct.texts path hpath
  obtain rfl : place' = place := Except.ok.inj (holds.located.symm.trans located)
  constructor
  · intro changed
    by_contra unlisted
    refine changed (visited.kept place' fun other hother same => unlisted ?_)
    obtain rfl : other = path := List.inj_on_of_nodup_map distinct.nodup
      (mem_of_mem_outOfOrder hother) hpath (same.trans located.symm)
    exact hother
  · intro listed same
    rw [visited.formatted rfl path listed place' bytes now holds, holds.file] at same
    have hbytes : Text.encode (Format.formatted settings [] now) = bytes :=
      Node.file.inj (Option.some.inj same)
    -- Equal bytes would decode to equal texts.
    have hdecoded := holds.decoded
    rw [← hbytes, Text.decode_encode] at hdecoded
    exact Format.outcome_eq_edited_iff.mp (edited_of_mem_outOfOrder listed holds)
      (Except.ok.inj hdecoded)

end Contents

/-- What a trial run tells of the run for good, and what that run leaves. -/
structure Predicts (settings : Settings) (workspace : Workspace) (paths : List String)
    (contents : List Text → Option Node) (trial real : Except Failure Unit × Workspace) : Prop where
  kept : trial.2.tree = workspace.tree
  printed : trial.2.printed = workspace.printed ++
    (outOfOrder settings workspace paths).map (line true) ++
      closing paths (outOfOrder settings workspace paths)
  fails_iff : exitCode trial.1 = 1 ↔ outOfOrder settings workspace paths ≠ []
  passes_iff : exitCode trial.1 = 0 ↔ outOfOrder settings workspace paths = []
  ends : real.1 = .ok ()
  leaves : real.2.tree.get? = contents
  changed_iff : ∀ path ∈ paths, ∀ place, workspace.locate path = .ok place →
    (contents place ≠ workspace.tree.get? place ↔ path ∈ outOfOrder settings workspace paths)
  formatted : ∀ path ∈ outOfOrder settings workspace paths, ∀ place bytes now,
    Holds workspace path place bytes now →
      contents place = some (.file (Text.encode (Format.formatted settings [] now)))
  untouched : ∀ place,
    (∀ path ∈ outOfOrder settings workspace paths, workspace.locate path ≠ .ok place) →
      contents place = workspace.tree.get? place

theorem exitCode_verdict (reported : List String) :
    exitCode (verdict reported) = if reported = [] then 0 else 1 := by
  cases reported <;> rfl

/-- On command or after a save, and whatever the order of the paths: a trial run changes nothing and
lists the files that the run for good changes, which leaves the same contents each time. -/
theorem check_predicts (ready : Ready run workspace arguments settings) :
    ∃ contents : List Text → Option Node, ∀ paths, paths.Perm arguments.files → ∀ onSave,
      Predicts settings workspace paths contents
        ((Tool.run (Workspace.host run)
          { arguments with files := paths, check := true, onSave }).run.run workspace)
        ((Tool.run (Workspace.host run)
          { arguments with files := paths, check := false, onSave }).run.run workspace) := by
  obtain ⟨first, -, hfirst, -⟩ := (ready.again false false (List.Perm.refl _)).run_eq
  refine ⟨first.tree.get?, fun paths perm onSave => ?_⟩
  obtain ⟨tried, triedNotes, htried, htrial⟩ := (ready.again true onSave perm).run_eq
  obtain ⟨after, notes, hvisited, hreal⟩ := (ready.again false onSave perm).run_eq
  have distinct : Distinct workspace paths := ready.distinct.perm perm
  have hsame : after.tree.get? = first.tree.get? := hfirst.get?_eq ready.distinct perm hvisited
  rw [htrial, hreal, ← hsame]
  exact {
    kept := htried.trial rfl
    printed := congrArg (· ++ closing paths _) htried.printed
    fails_iff := by
      rw [exitCode_verdict]
      split <;> simp_all [reported]
    passes_iff := by
      rw [exitCode_verdict]
      split <;> simp_all [reported]
    ends := rfl
    leaves := rfl
    changed_iff := fun path hpath place located => hvisited.changed_iff distinct hpath located
    formatted := hvisited.formatted rfl
    untouched := hvisited.kept }

def unordered : Region where
  before := []
  block := "import x from \"./x\";\nimport fs from \"fs\";".toList
  after := ['\n']

def desk : Workspace where
  tree := ⟨[(["a.ts".toList], .file (Text.encode unordered.text)),
    (["a.md".toList], .file (Text.encode unordered.text))]⟩
  folder := []

theorem holds_desk :
    Holds desk "a.ts" ["a.ts".toList] (Text.encode unordered.text) unordered.text :=
  ⟨by decide +kernel, by decide +kernel, Text.decode_encode _⟩

theorem formatted_unordered : Format.formatted {} [] unordered.text =
    "import fs from \"fs\";\n\nimport x from \"./x\";\n".toList := by
  have hfound : Region.find? unordered.text = some unordered := by decide +kernel
  rw [Format.formatted_of_find? hfound, Format.replacement, Format.rendered, Format.keptGroup_eq,
    Format.group_eq_insertionSort]
  decide +kernel

theorem outcome_unordered : Format.outcome {} unordered.text = .edited := by
  rw [Format.outcome_eq_edited_iff, formatted_unordered]
  decide +kernel

theorem check_predicts_desk :
    let arguments : Arguments := { files := ["a.ts", "a.md"] }
    let run : Command → StateM Workspace (Except SystemFault Finished) :=
      fun _ => return .error .notFound
    Ready run desk arguments {} ∧ outOfOrder {} desk arguments.files = ["a.ts"] ∧
      ∃ contents : List Text → Option Node, contents ["a.ts".toList] ≠ contents ["a.md".toList] ∧
        ∀ paths, paths.Perm arguments.files → ∀ onSave, Predicts {} desk paths contents
          ((Tool.run (Workspace.host run)
            { arguments with files := paths, check := true, onSave }).run.run desk)
          ((Tool.run (Workspace.host run)
            { arguments with files := paths, check := false, onSave }).run.run desk) := by
  intro arguments run
  have notes : Holds desk "a.md" ["a.md".toList] (Text.encode unordered.text) unordered.text :=
    ⟨by decide +kernel, by decide +kernel, Text.decode_encode _⟩
  have ready : Ready run desk arguments {} :=
    { named := by decide
      noReport := rfl
      noCommand := rfl
      configured := by decide +kernel
      distinct := {
        texts := by
          intro path hpath
          simp only [arguments, List.mem_cons, List.not_mem_nil, or_false] at hpath
          rcases hpath with rfl | rfl
          · exact ⟨_, _, _, holds_desk⟩
          · exact ⟨_, _, _, notes⟩
        nodup := by decide +kernel } }
  have known : Language.ofPath? "a.ts" = some .typeScript := by decide +kernel
  have unknown : Language.ofPath? "a.md" = none := by decide +kernel
  have listed : outOfOrder {} desk arguments.files = ["a.ts"] := by
    rw [outOfOrder_cons known holds_desk, outOfOrder_cons_unknown unknown, if_pos outcome_unordered]
    rfl
  obtain ⟨contents, predicts⟩ := check_predicts ready
  refine ⟨ready, listed, contents, ?_, predicts⟩
  have predicted := predicts arguments.files (List.Perm.refl _) false
  rw [predicted.formatted "a.ts" (listed ▸ List.mem_singleton_self _) _ _ _ holds_desk,
    predicted.untouched _ (by rw [listed]; decide +kernel), formatted_unordered]
  decide +kernel

end Tool
end ImportBlock
