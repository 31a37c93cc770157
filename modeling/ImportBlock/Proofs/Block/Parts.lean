import ImportBlock.Proofs.Region.Grammar

/-! Lines as blank ones, comments, statements and other code: every list of lines has one such cut,
and reading follows it. -/

namespace ImportBlock

open Text Line

/-- Lines that belong together. -/
inductive Part where
  | blank (line : Text)
  | comment (lines : List Text)
  | statement (lines : List Text)
  | code (line : Text)
  deriving DecidableEq, Repr

namespace Part

def lines : Part → List Text
  | blank line | code line => [line]
  | comment lines | statement lines => lines

/-- The lines without a blank one that stands alone. -/
def kept : Part → List Text
  | blank _ => []
  | code line => [line]
  | comment lines | statement lines => lines

def statement? : Part → Option (List Text)
  | statement lines => some lines
  | blank _ | comment _ | code _ => none

def isCode : Part → Bool
  | code _ => true
  | blank _ | comment _ | statement _ => false

/-- A part that is over with its last line. What stands behind the end of a comment goes with it. -/
inductive Ended : Part → Prop where
  | blank {l : Text} (blank : isBlank l = true) : Ended (.blank l)
  | comment {l : Text} (comment : isComment (trim l) = true)
      (ends : opensComment (trim l) = false) : Ended (.comment [l])
  | comments {first last : Text} {inside : List Text} (opens : opensComment (trim first) = true)
      (stays : ∀ l ∈ inside, includes commentEnd (trim l) = false)
      (ends : includes commentEnd (trim last) = true) :
      Ended (.comment (first :: (inside ++ [last])))
  | statement {ls : List Text} (statement : IsStatement ls) : Ended (.statement ls)
  | code {l : Text} (text : isBlank l = false) (noComment : isComment (trim l) = false)
      (noImport : isImport (trim l) = false) : Ended (.code l)

inductive Endless : Part → Prop where
  | comment {first : Text} {rest : List Text} (opens : opensComment (trim first) = true)
      (stays : ∀ l ∈ rest, includes commentEnd (trim l) = false) :
      Endless (.comment (first :: rest))
  | statement {ls : List Text} (statement : IsUnfinished ls) : Endless (.statement ls)

/-- Only the last part can be endless. -/
inductive Sequence : List Part → Prop where
  | nil : Sequence []
  | endless {part : Part} (endless : Endless part) : Sequence [part]
  | cons {part : Part} {rest : List Part} (ended : Ended part) (below : Sequence rest) :
      Sequence (part :: rest)

theorem Ended.ne_nil {part : Part} (ended : Ended part) : part.lines ≠ [] := by
  cases ended with
  | statement statement => exact statement.wholeLines.ne_nil
  | blank | comment | comments | code => exact List.cons_ne_nil _ _

theorem sequence_append {upper lower : List Part} (h : Sequence (upper ++ lower)) :
    Sequence upper ∧ Sequence lower ∧ (lower ≠ [] → ∀ part ∈ upper, part.Ended) := by
  induction upper with
  | nil => exact ⟨.nil, h, by simp⟩
  | cons part rest ih =>
    cases hlower : lower with
    | nil =>
      rw [hlower, List.append_nil] at h
      exact ⟨h, .nil, by simp⟩
    | cons next more =>
      rw [List.cons_append] at h
      cases hparts : rest ++ lower with
      | nil => simp [hlower] at hparts
      | cons other others =>
        rw [hparts] at h
        cases h with
        | cons ended below =>
          obtain ⟨hrest, hbelow, hended⟩ := ih (hparts ▸ below)
          have hne : lower ≠ [] := by simp [hlower]
          refine ⟨.cons ended hrest, hlower ▸ hbelow, fun _ => ?_⟩
          exact List.forall_mem_cons.mpr ⟨ended, hended hne⟩

/-- Any lines can be cut into parts. -/
theorem exists_sequence (ls : List Text) :
    ∃ parts, ls = parts.flatMap Part.lines ∧ Sequence parts := by
  -- A part takes several lines at once, so the induction is on the number of lines.
  induction hn : ls.length using Nat.strong_induction_on generalizing ls with
  | _ n ih =>
    subst hn
    cases ls with
    | nil => exact ⟨[], rfl, .nil⟩
    | cons l rest =>
      have hcut : ∀ (part : Part) (more : List Text), l :: rest = part.lines ++ more →
          part.Ended → ∃ parts, l :: rest = parts.flatMap Part.lines ∧ Sequence parts := by
        intro part more hsplit hended
        have hlength := congrArg List.length hsplit
        have hpos := List.length_pos_iff.mpr hended.ne_nil
        rw [List.length_append] at hlength
        obtain ⟨parts, rfl, hparts⟩ := ih more.length (by omega) more rfl
        exact ⟨part :: parts, hsplit, .cons hended hparts⟩
      by_cases hblank : isBlank l = true
      · exact hcut (.blank l) rest rfl (.blank hblank)
      by_cases hopens : opensComment (trim l) = true
      · rcases comment_cases rest with hstays | ⟨inside, last, more, sides, rfl, hstays, hends⟩
        · exact ⟨[.comment (l :: rest)], by simp [Part.lines], .endless (.comment hopens hstays)⟩
        · have hlast : includes commentEnd (trim last) = true := by rw [includes, hends]; rfl
          exact hcut (.comment (l :: (inside ++ [last]))) more (by simp [Part.lines])
            (.comments hopens hstays hlast)
      by_cases hcomment : isComment (trim l) = true
      · exact hcut (.comment [l]) rest rfl (.comment hcomment (by simpa using hopens))
      by_cases himport : isImport (trim l) = true
      · have hstarts : ∀ more, StartsImport (l :: more) := fun more => ⟨l, more, rfl, himport⟩
        rcases statement_cases 0 (l :: rest) with
          ⟨hnever, -⟩ | ⟨upper, more, hsplit, hends, hfirst, -⟩
        · exact ⟨[.statement (l :: rest)], by simp [Part.lines],
            .endless (.statement ⟨hstarts rest, hnever⟩)⟩
        · cases upper with
          | nil => exact absurd hends (not_endsFrom_nil 0)
          | cons first upper =>
            obtain ⟨rfl, -⟩ := List.cons.inj hsplit
            exact hcut (.statement (l :: upper)) more hsplit
              (.statement ⟨hstarts upper, hends, hfirst⟩)
      · rw [Bool.not_eq_true] at hblank hcomment himport
        exact hcut (.code l) rest rfl (.code hblank hcomment himport)

/-- How the lines of a part are read. -/
def Labelled : Part → List Line → Prop
  | blank l, read => read = [⟨.blank, l⟩]
  | comment _, read => ∀ line ∈ read, line.kind = .mixed ∨ ∃ done, line.kind = .comment done
  | statement _, read => ∃ first rest, read = first :: rest ∧ first.kind = .opening ∧
      ∀ line ∈ rest, line.kind = .continued
  | code l, read => read = [⟨.code, l⟩]

theorem Labelled.part_of_kind {part : Part} {read : List Line} (labelled : part.Labelled read) :
    ∀ line ∈ read, (line.kind = .opening → part.statement?.isSome = true) ∧
      (line.kind = .code → part.isCode = true) := by
  intro line member
  cases part with
  | blank | code => simp_all [Labelled, isCode]
  | comment =>
    rcases labelled line member with hkind | ⟨done, hkind⟩
    · simp [hkind]
    · simp [hkind]
  | statement =>
    refine ⟨fun _ => rfl, fun hcode => ?_⟩
    obtain ⟨first, rest, rfl, hopening, hrest⟩ := labelled
    rcases List.mem_cons.mp member with rfl | hmem
    · simp [hopening] at hcode
    · simp [hrest line hmem] at hcode

theorem Ended.label {part : Part} (ended : Ended part) :
    Mode.after .code part.lines = .code ∧ part.Labelled (label .code part.lines) := by
  cases ended with
  | @blank l blank =>
    have hread : Mode.code.read (trim l) = (.blank, .code) := by
      rw [isBlank_iff_trim.mp blank]
      rfl
    exact ⟨by rw [lines, Mode.after, hread]; rfl, by rw [lines, Line.label, hread]; rfl⟩
  | @comment l comment ends =>
    obtain ⟨hkinds, hafter⟩ := (IsWholeComment.line comment ends).commentRun
    refine ⟨hafter, fun line member => .inr ?_⟩
    exact exists_kind_of_isCommentKind (hkinds line member)
  | @comments first last inside opens stays ends =>
    have hread := read_opensComment opens
    obtain ⟨hkinds, hafter⟩ := label_inside stays
    obtain ⟨sides, hsides⟩ := Option.isSome_iff_exists.mp ends
    have hlast := read_closesComment hsides
    rw [lines, Mode.after, Line.label, hread]
    dsimp only
    rw [Mode.after_append, label_append, hafter, Mode.after, Line.label, hlast]
    refine ⟨rfl, List.forall_mem_cons.mpr ⟨.inr ⟨false, rfl⟩, List.forall_mem_append.mpr ⟨?_, ?_⟩⟩⟩
    · exact fun line member => .inr ⟨false, hkinds line member⟩
    · refine List.forall_mem_singleton.mpr ?_
      cases onlyComments sides.2 with
      | true => exact .inr ⟨true, rfl⟩
      | false => exact .inl rfl
  | statement statement =>
    exact ⟨statement.wholeLines.after_eq, statement.wholeLines.label_eq⟩
  | @code l text noComment noImport =>
    have hne : (trim l).isEmpty = false := by
      rw [← Bool.not_eq_true, List.isEmpty_iff, ← isBlank_iff_trim, text]
      decide
    have hread : Mode.code.read (trim l) = (.code, .code) := by
      simp [Mode.read, hne, noComment, noImport]
    exact ⟨by rw [lines, Mode.after, hread]; rfl, by rw [lines, Line.label, hread]; rfl⟩

theorem Endless.label {part : Part} (endless : Endless part) :
    part.Labelled (label .code part.lines) := by
  cases endless with
  | @comment first rest opens stays =>
    rw [lines, Line.label, read_opensComment opens]
    refine List.forall_mem_cons.mpr ⟨.inr ⟨false, rfl⟩, fun line member => .inr ⟨false, ?_⟩⟩
    exact (label_inside stays).1 line member
  | statement statement => exact statement.label.1

theorem after_parts {parts : List Part} (ended : ∀ part ∈ parts, part.Ended) :
    Mode.after .code (parts.flatMap Part.lines) = .code := by
  induction parts with
  | nil => rfl
  | cons part rest ih =>
    rw [List.forall_mem_cons] at ended
    rw [List.flatMap_cons, Mode.after_append, ended.1.label.1, ih ended.2]

theorem forall_label {P : Line → Prop} {parts : List Part} (sequence : Sequence parts)
    (here : ∀ part ∈ parts, ∀ read, part.Labelled read → ∀ line ∈ read, P line) :
    ∀ line ∈ label .code (parts.flatMap Part.lines), P line := by
  induction sequence with
  | nil => simp [Line.label]
  | @endless part endless =>
    rw [List.flatMap_singleton]
    exact here part (by simp) _ endless.label
  | @cons part rest ended _ ih =>
    obtain ⟨hafter, hlabel⟩ := ended.label
    rw [List.forall_mem_cons] at here
    rw [List.flatMap_cons, label_append, hafter, List.forall_mem_append]
    exact ⟨here.1 _ hlabel, ih here.2⟩

def places : Nat → List Part → List (Nat × List Text)
  | _, [] => []
  | n, part :: rest =>
    let below := places (n + part.lines.length) rest
    match part.statement? with
    | none => below
    | some ls => (n, ls) :: below

theorem map_snd_places (n : Nat) (parts : List Part) :
    (places n parts).map Prod.snd = parts.filterMap statement? := by
  induction parts generalizing n with
  | nil => rfl
  | cons part rest ih =>
    rw [places, List.filterMap_cons]
    cases part.statement? with
    | none => exact ih _
    | some ls => exact congrArg (List.cons ls) (ih _)

theorem lines_of_statement? {part : Part} {ls : List Text} (h : part.statement? = some ls) :
    part.lines = ls := by
  cases part <;> simp_all [statement?, lines]

theorem places_spec (n : Nat) (parts : List Part) :
    (∀ place ∈ places n parts, ∃ upper lower, parts.flatMap Part.lines =
      upper ++ (place.2 ++ lower) ∧ place.1 = n + upper.length) ∧
    (places n parts).Pairwise fun upper lower => upper.1 + upper.2.length ≤ lower.1 := by
  induction parts generalizing n with
  | nil => exact ⟨by simp [places], .nil⟩
  | cons part rest ih =>
    obtain ⟨hplace, hpairwise⟩ := ih (n + part.lines.length)
    have hbelow : ∀ place ∈ places (n + part.lines.length) rest, ∃ upper lower,
        (part :: rest).flatMap Part.lines = upper ++ (place.2 ++ lower) ∧
          place.1 = n + upper.length := by
      intro place member
      obtain ⟨upper, lower, hlines, hfirst⟩ := hplace place member
      refine ⟨part.lines ++ upper, lower, ?_, ?_⟩
      · rw [List.flatMap_cons, hlines, List.append_assoc]
      · rw [hfirst, List.length_append, Nat.add_assoc]
    rw [places]
    cases hpart : part.statement? with
    | none => exact ⟨hbelow, hpairwise⟩
    | some ls =>
      have hlines := lines_of_statement? hpart
      refine ⟨List.forall_mem_cons.mpr ⟨⟨[], rest.flatMap Part.lines, ?_, rfl⟩, hbelow⟩, ?_⟩
      · rw [List.flatMap_cons, hlines, List.nil_append]
      · refine List.pairwise_cons.mpr ⟨fun place member => ?_, hpairwise⟩
        obtain ⟨upper, -, -, hfirst⟩ := hplace place member
        rw [hfirst, hlines]
        exact Nat.le_add_right _ _

theorem Sequence.statements {parts : List Part} (sequence : Sequence parts) :
    (∀ ls ∈ parts.filterMap statement?, StartsImport ls) ∧
      ∀ ls ∈ (parts.filterMap statement?).dropLast, IsStatement ls := by
  induction sequence with
  | nil => simp
  | @endless part endless =>
    cases endless with
    | comment => exact ⟨List.forall_mem_nil _, List.forall_mem_nil _⟩
    | statement unfinished =>
      exact ⟨List.forall_mem_singleton.mpr unfinished.opens, List.forall_mem_nil _⟩
  | @cons part rest ended _ ih =>
    obtain ⟨hopens, hended⟩ := ih
    cases ended with
    | blank | comment | comments | code => exact ⟨hopens, hended⟩
    | @statement ls statement =>
      have hcons : (Part.statement ls :: rest).filterMap statement? =
          ls :: rest.filterMap statement? := rfl
      rw [hcons]
      refine ⟨List.forall_mem_cons.mpr ⟨statement.opens, hopens⟩, ?_⟩
      cases hrest : rest.filterMap statement? with
      | nil => simp
      | cons other others =>
        rw [List.dropLast_cons_cons, ← hrest]
        exact List.forall_mem_cons.mpr ⟨statement, hended⟩

end Part
end ImportBlock
