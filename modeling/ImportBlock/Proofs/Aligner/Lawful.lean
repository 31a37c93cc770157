import ImportBlock.Proofs.Aligner.Runs
import ImportBlock.Proofs.Host.FileDocument

/-! Aligning documents whose text stays what it is until it is replaced. -/

namespace ImportBlock

open Runs

variable {m : Type → Type} [Monad m] {σ : Type}

/-- Reading a document tells what it holds and changes nothing. Ranges between characters can be
replaced. -/
structure Document.Lawful (runs : Runs m σ) (document : Document m)
    (contents : σ → Except Failure Text) : Prop where
  read (inFlight : InFlight) (state : σ) :
    runs.perform document.text inFlight state = ((contents state, inFlight), state)
  replace {start stop : Nat} {new now changed : Text}
    (replaces : Text.replaceRange? start stop new now = some changed) :
    runs.Yields (contents · = .ok now) (document.replaceRange start stop new) ()
      (contents · = .ok changed)

section Read

variable {runs : Runs m σ} {document : Document m} {contents : σ → Except Failure Text}
  (lawful : document.Lawful runs contents)

include lawful

theorem Document.Lawful.meets_text {pre : σ → Prop} : runs.Meets pre document.text
    (fun now state => contents state = .ok now)
    fun failure state => contents state = .error failure := by
  intro inFlight state _
  rw [lawful.read]
  cases hcontents : contents state with
  | ok now => exact hcontents
  | error failure => exact hcontents

theorem Document.Lawful.yields_text {pre : σ → Prop} {now : Text}
    (holds : ∀ state, pre state → contents state = .ok now) :
    runs.Yields pre document.text now pre := by
  intro inFlight state hpre
  rw [lawful.read, holds state hpre]
  exact ⟨rfl, hpre⟩

end Read

namespace Aligner

variable {runs : Runs m σ} {document : Document m} {contents : σ → Except Failure Text}
  {aligner : Aligner m} {now : Text} {region : Region}
  (lawful : document.Lawful runs contents)
  (quiet : ∀ note, runs.Keeps contents (aligner.note note))

include lawful in
/-- Nothing is removed but from the text that was read, whatever becomes of the document while
unused symbols are fetched. -/
theorem meets_fetchUnused : runs.Meets (contents · = .ok now) (aligner.fetchUnused document now)
    (fun unused? state => ∀ unused ∈ unused?, contents state = .ok now)
    fun failure state => contents state = .error failure := by
  rw [fetchUnused]
  split
  · have hsymbols : runs.Meets (contents · = .ok now) (liftM (aligner.unusedSymbols document.id))
        (fun _ _ => True) fun failure state => contents state = .error failure :=
      meets_liftM fun _ _ => trivial
    refine hsymbols.bind fun symbols => lawful.meets_text.bind fun other => ?_
    split
    · next same => exact meets_pure fun state holds _ _ => same ▸ holds
    · have hnote : runs.Meets (contents · = .ok other) (liftM (aligner.note ⟨.info,
          s!"{document.id} changed while fetching unused symbols"⟩)) (fun _ _ => True)
            fun failure state => contents state = .error failure := meets_liftM fun _ _ => trivial
      exact hnote.bind fun _ => meets_pure fun _ _ _ none => by cases none
  · exact meets_pure fun state holds _ _ => holds

section Edit

include quiet

theorem yields_note (note : Note) : runs.Yields (contents · = .ok now)
    (liftM (aligner.note note)) () (contents · = .ok now) :=
  meets_liftM fun state holds => ⟨rfl, (quiet note state).trans holds⟩

theorem yields_notes (notes : List Note) : runs.Yields (contents · = .ok now)
    (notes.forM fun note => liftM (aligner.note note)) () (contents · = .ok now) := by
  induction notes with
  | nil => exact yields_pure ()
  | cons note notes ih => exact (yields_note quiet note).bind ih

include lawful

theorem yields_edit (found : Region.find? now = some region) (unused : List Text) :
    runs.Yields (contents · = .ok now) (aligner.edit document region unused)
      (match (Format.replacement aligner.settings unused region).edit? with
        | none => .unchanged
        | some _ => .edited)
      (contents · = .ok (Format.formatted aligner.settings unused now)) := by
  rw [Aligner.edit]
  refine (yields_notes quiet _).bind ?_
  cases edits : (Format.replacement aligner.settings unused region).edit? with
  | none =>
    have hformatted : Format.formatted aligner.settings unused now = now := by
      simp only [Format.formatted, found, edits]
    rw [hformatted]
    exact yields_pure _
  | some edit =>
    have hreplaced := lawful.replace (Format.replaceRange?_of_edit? found edits).1
    exact hreplaced.bind (yields_pure _)

theorem meets_align : runs.Meets (fun _ => True) (aligner.align document) (fun _ _ => True)
    fun failure _ => ∃ state cause, contents state = .error cause ∧
      (failure = .unreadableDocument document.id cause ∨ failure = cause) := by
  rw [Aligner.align]
  refine (Meets.failingAs (lawful.meets_text.imp (fun _ => id) (fun _ _ => id)
    fun cause state unread => ⟨state, cause, unread, .inl rfl⟩)).bind fun now => ?_
  cases found : Region.find? now with
  | none => exact (yields_note quiet _).bind (meets_pure fun _ _ => trivial)
  | some region =>
    refine ((meets_fetchUnused lawful).imp (fun _ => id) (fun _ _ => id)
      fun cause state unread => ⟨state, cause, unread, .inr rfl⟩).bind fun unused? => ?_
    cases unused? with
    | none => exact meets_pure fun _ _ => trivial
    | some unused =>
      exact (yields_edit lawful quiet found unused).imp (fun _ holds => holds unused rfl)
        (fun _ _ _ => trivial) fun _ _ => False.elim

end Edit

/-- Here the provider fails or finds nothing, and leaves the document as it is. -/
def Barren (runs : Runs m σ) (aligner : Aligner m) (document : Document m)
    (contents : σ → Except Failure Text) (state : σ) : Prop :=
  ∀ fetch ∈ aligner.provider,
    contents (runs.run (fetch document.id) state).2 = contents state ∧
      ∀ symbols, (runs.run (fetch document.id) state).1 = .ok symbols → symbols = []

section Barren

variable {state : σ} (holds : contents state = .ok now)
  (barren : aligner.Barren runs document contents state)

include quiet holds barren

theorem yields_unusedSymbols : runs.Yields (· = state)
    (liftM (aligner.unusedSymbols document.id)) [] (contents · = .ok now) := by
  refine meets_liftM fun same hsame => ?_
  rw [hsame, unusedSymbols]
  cases hprovider : aligner.provider with
  | none =>
    dsimp only
    rw [runs.run_bind, runs.run_pure]
    exact ⟨rfl, (quiet _ _).trans holds⟩
  | some fetch =>
    dsimp only
    obtain ⟨hkept, hnothing⟩ := barren fetch hprovider
    rw [holds] at hkept
    rw [runs.run_bind]
    generalize runs.run (fetch document.id) state = ended at hkept hnothing ⊢
    rcases ended with ⟨fault | symbols, after⟩
    · dsimp only
      rw [runs.run_bind, runs.run_pure]
      exact ⟨rfl, (quiet _ _).trans hkept⟩
    · dsimp only
      rw [runs.run_pure, hnothing symbols rfl]
      exact ⟨rfl, hkept⟩

include lawful

theorem yields_fetchUnused : runs.Yields (· = state) (aligner.fetchUnused document now) (some [])
    (contents · = .ok now) := by
  rw [fetchUnused]
  split
  · refine (yields_unusedSymbols quiet holds barren).bind ?_
    refine (lawful.yields_text fun _ => id).bind ?_
    rw [if_pos rfl]
    exact yields_pure _
  · exact meets_pure fun _ hsame => ⟨rfl, hsame ▸ holds⟩

theorem yields_align : runs.Yields (· = state) (aligner.align document)
    (Format.outcome aligner.settings now)
    (contents · = .ok (Format.formatted aligner.settings [] now)) := by
  have hread : ∀ same, same = state → contents same = .ok now := fun _ hsame => hsame ▸ holds
  rw [Aligner.align]
  refine ((lawful.yields_text hread).failingAs _).bind ?_
  rw [Format.outcome]
  cases found : Region.find? now with
  | none =>
    have hformatted : Format.formatted aligner.settings [] now = now := by
      simp only [Format.formatted, found]
    rw [hformatted]
    have hnote : runs.Yields (· = state) (liftM (aligner.note ⟨.debug,
        s!"{document.id}: no import region"⟩)) () (contents · = .ok now) :=
      (yields_note quiet _).imp hread (fun _ _ => id) fun _ _ => id
    exact hnote.bind (yields_pure _)
  | some region =>
    exact (yields_fetchUnused lawful quiet holds barren).bind
      (yields_edit lawful quiet found [])

end Barren

end Aligner
end ImportBlock
