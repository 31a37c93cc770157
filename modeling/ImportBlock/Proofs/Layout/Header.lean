import ImportBlock.Proofs.Layout.Lines
import ImportBlock.Proofs.Region.Trailing

namespace ImportBlock

open Text Line

namespace Line

def isKept (settings : Settings) (line : Line) : Bool :=
  match line.kind with
  | .comment _ | .mixed => settings.preserveLeadingComments
  | .code => true
  | .blank | .opening | .continued => false

variable {settings : Settings}

theorem headerLines_filterMap (lines : List Line) :
    Layout.headerLines settings (lines.filterMap HeaderLine.ofLine?) =
      (lines.filter (isKept settings)).map Line.text := by
  induction lines with
  | nil => rfl
  | cons line lines ih =>
    rw [Layout.headerLines] at ih ⊢
    cases hkind : line.kind <;> cases hkeep : settings.preserveLeadingComments <;>
      simp_all [HeaderLine.ofLine?, isKept]

theorem label_filter_blank (mode : Mode) (texts : List Text) :
    label mode (((label mode texts).filter (·.kind != .blank)).map Line.text) =
        (label mode texts).filter (·.kind != .blank) ∧
      mode.after (((label mode texts).filter (·.kind != .blank)).map Line.text) =
        mode.after texts := by
  induction texts generalizing mode with
  | nil => exact ⟨rfl, rfl⟩
  | cons text rest ih =>
    have hreads := Mode.reads_read mode (trim text)
    simp only [label, Mode.after, List.filter_cons]
    have hrest := ih (mode.read (trim text)).2
    by_cases hblank : (mode.read (trim text)).1 = .blank
    · rw [hblank] at hreads ⊢
      generalize (mode.read (trim text)).2 = next at hreads hrest ⊢
      cases hreads
      simpa using hrest
    · have hkeep : ((mode.read (trim text)).1 != .blank) = true := by simpa using hblank
      simp only [hkeep, if_true, List.map_cons, label, Mode.after, hrest.1, hrest.2, and_self]

theorem label_filter_code (mode : Mode) (texts : List Text) :
    label .code (((label mode texts).filter (·.kind == .code)).map Line.text) =
        (label mode texts).filter (·.kind == .code) ∧
      Mode.after .code (((label mode texts).filter (·.kind == .code)).map Line.text) = .code := by
  -- The mode on the left stays `.code`, since a code line is read from it and leads back to it.
  induction texts generalizing mode with
  | nil => exact ⟨rfl, rfl⟩
  | cons text rest ih =>
    have hreads := Mode.reads_read mode (trim text)
    have hrest := ih (mode.read (trim text)).2
    simp only [label, List.filter_cons]
    rcases hread : mode.read (trim text) with ⟨kind, next⟩
    rw [hread] at hreads hrest
    dsimp only at hreads hrest ⊢
    by_cases hcode : kind = .code
    · subst hcode
      cases hreads
      simp only [beq_self_eq_true, if_true, List.map_cons, label, Mode.after, hread, hrest.1,
        hrest.2, and_self]
    · have hdrop : (kind == .code) = false := by simpa using hcode
      simp only [hdrop, Bool.false_eq_true, if_false]
      exact hrest

def writtenHeader (settings : Settings) (header : List Text) : List Text :=
  ((label .code header).filter (isKept settings)).map Line.text

theorem isKept_of_inHeader {line : Line} (h : line.inHeader true = true) :
    isKept settings line =
      if settings.preserveLeadingComments then line.kind != .blank else line.kind == .code := by
  simp only [inHeader] at h
  cases hkind : line.kind <;> cases hkeep : settings.preserveLeadingComments <;>
    simp_all [isKept]

theorem label_writtenHeader (settings : Settings) {header : List Text}
    (allHeader : AllHeader (label .code header)) (settled : Mode.after .code header = .code) :
    label .code (writtenHeader settings header) = (label .code header).filter (isKept settings) ∧
      Mode.after .code (writtenHeader settings header) = .code := by
  have hkept : (label .code header).filter (isKept settings) =
      (label .code header).filter fun line =>
        if settings.preserveLeadingComments then line.kind != .blank else line.kind == .code :=
    List.filter_congr fun line member =>
      isKept_of_inHeader ((allHeader_iff.mp allHeader).1 line member)
  rw [writtenHeader, hkept]
  cases settings.preserveLeadingComments
  · exact label_filter_code .code header
  · rcases label_filter_blank .code header with ⟨hlabel, hafter⟩
    exact ⟨hlabel, hafter.trans settled⟩

variable {header comments : List Text}

theorem allHeader_writtenHeader (allHeader : AllHeader (label .code header))
    (settled : Mode.after .code header = .code) :
    AllHeader (label .code (writtenHeader settings header)) := by
  rw [(label_writtenHeader settings allHeader settled).1]
  exact allHeader.sublist List.filter_sublist

theorem mem_of_mem_writtenHeader {text : Text} (member : text ∈ writtenHeader settings header) :
    text ∈ header := by
  rcases List.mem_map.mp member with ⟨line, hline, rfl⟩
  rw [← map_text_label .code header]
  exact List.mem_map_of_mem (List.mem_of_mem_filter hline)

end Line

namespace Layout

variable {settings : Settings} {header comments : List Text}

/-- What stands above the statements of a written file. -/
def above (settings : Settings) (header comments : List Text) : List Text :=
  spaced settings (writtenHeader settings header) ++ comments

theorem mem_of_mem_spaced {text : Text} {upper : List Text}
    (member : text ∈ spaced settings upper) : text ∈ upper ∨ text = [] := by
  rw [spaced] at member
  rcases List.mem_append.mp member with hupper | hgap
  · exact .inl hupper
  · split at hgap
    · contradiction
    · rw [gap] at hgap
      split at hgap
      · exact .inr (List.mem_singleton.mp hgap)
      · contradiction

theorem mem_of_mem_above {text : Text} (member : text ∈ above settings header comments) :
    text ∈ header ∨ text = [] ∨ text ∈ comments := by
  rcases List.mem_append.mp member with hupper | hcomment
  · rcases mem_of_mem_spaced hupper with hheader | hgap
    · exact .inl (mem_of_mem_writtenHeader hheader)
    · exact .inr (.inl hgap)
  · exact .inr (.inr hcomment)

theorem blank_separator (settings : Settings) (lines : List Text) :
    ∀ text ∈ (if lines.isEmpty then [] else gap settings), isBlank text = true := by
  split
  · simp
  · exact blank_gap settings

theorem filter_isKept_comments (run : Mode.CommentRun .code comments) :
    ((label .code comments).filter (isKept settings)).map Line.text =
      if settings.preserveLeadingComments then comments else [] := by
  have hkept : ∀ line ∈ label .code comments,
      isKept settings line = settings.preserveLeadingComments := by
    intro line member
    rcases exists_kind_of_isCommentKind (run.1 line member) with ⟨done, hkind⟩
    rw [isKept, hkind]
  rw [List.filter_congr hkept]
  cases settings.preserveLeadingComments <;> simp [map_text_label]

theorem writtenHeader_above (allHeader : AllHeader (label .code header))
    (settled : Mode.after .code header = .code) (run : Mode.CommentRun .code comments) :
    writtenHeader settings (above settings header comments) =
      writtenHeader settings header ++
        if settings.preserveLeadingComments then comments else [] := by
  rcases label_writtenHeader settings allHeader settled with ⟨hlabel, hafter⟩
  have hblank := blank_separator settings (writtenHeader settings header)
  have hseparator : (label .code (if (writtenHeader settings header).isEmpty then []
      else gap settings)).filter (isKept settings) = [] := by
    rw [List.filter_eq_nil_iff]
    intro line member
    simp [isKept, Block.Below.label_blank hblank line member]
  have hlabels : label .code (above settings header comments) =
      (label .code header).filter (isKept settings) ++
        label .code (if (writtenHeader settings header).isEmpty then [] else gap settings) ++
        label .code comments := by
    rw [above, spaced, label_append, Mode.after_append, hafter, Block.Below.after_blank hblank,
      label_append, hafter, hlabel]
  calc
    writtenHeader settings (above settings header comments) =
        ((label .code (above settings header comments)).filter (isKept settings)).map Line.text :=
      rfl
    _ = ((label .code header).filter (isKept settings)).map Line.text ++
        ((label .code comments).filter (isKept settings)).map Line.text := by
      rw [hlabels, List.filter_append, List.filter_append, hseparator, List.filter_filter]
      simp only [Bool.and_self, List.append_nil, List.map_append]
    _ = writtenHeader settings header ++
        if settings.preserveLeadingComments then comments else [] := by
      rw [filter_isKept_comments run, writtenHeader]

theorem allHeader_above (settings : Settings) (allHeader : AllHeader (label .code header))
    (settled : Mode.after .code header = .code) (run : Mode.CommentRun .code comments) :
    AllHeader (label .code (above settings header comments)) ∧
      Mode.after .code (above settings header comments) = .code := by
  rcases label_writtenHeader settings allHeader settled with ⟨-, hafter⟩
  have hblank := blank_separator settings (writtenHeader settings header)
  have hspaced : Mode.after .code (spaced settings (writtenHeader settings header)) = .code := by
    rw [spaced, Mode.after_append, hafter, Block.Below.after_blank hblank]
  rw [above, Mode.after_append, hspaced, label_append, hspaced, spaced, label_append, hafter]
  refine ⟨((allHeader_writtenHeader allHeader settled).append ?_).append ?_, run.2⟩
  · intro line member
    rw [inHeader, Block.Below.label_blank hblank line member]
  · exact fun line member => inHeader_of_isCommentKind (run.1 line member)

/-- Comments that have become header lines stay where they are if they are kept and no gap comes
between them and the statement. -/
theorem above_eq_spaced_iff (allHeader : AllHeader (label .code header))
    (settled : Mode.after .code header = .code) (run : Mode.CommentRun .code comments) :
    above settings header comments =
        spaced settings (writtenHeader settings (above settings header comments)) ↔
      comments = [] ∨
        settings.preserveLeadingComments = true ∧ settings.emptyLineBetweenGroups = false := by
  rw [writtenHeader_above allHeader settled run, above]
  generalize writtenHeader settings header = upper
  rcases List.eq_nil_or_concat' comments with rfl | ⟨front, last, rfl⟩
  · simp
  · have hne : front ++ [last] ≠ [] := by simp
    have hlast := run.last_ne_nil
    cases hpreserve : settings.preserveLeadingComments
    · simp
    -- With a gap the right side ends in a blank line, and no comment ends in one.
    · cases hgap : settings.emptyLineBetweenGroups
      · simp [spaced, gap, hgap]
      · have hend : spaced settings (upper ++ (front ++ [last])) =
            upper ++ (front ++ [last]) ++ [[]] := by
          simp [spaced, gap, hgap]
        rw [if_pos rfl, hend, ← List.append_assoc]
        simp only [hne, false_or, Bool.true_eq_false, and_false, iff_false]
        intro same
        exact hlast (List.singleton_inj.mp (List.append_inj' same rfl).2)

end Layout
end ImportBlock
