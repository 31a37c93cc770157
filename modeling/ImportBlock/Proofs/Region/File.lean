import ImportBlock.Proofs.Region.Statements
import ImportBlock.Proofs.Region.Trailing

namespace ImportBlock

open Text Line

namespace Region

/-- A region without carriage returns, with `comments` directly below its block and nothing more
of it in `rest`. -/
structure OfFile (region : Region) (header block comments : List Text) (rest : Text) : Prop extends
    OfLines region header block where
  plain : '\r' ∉ region.text
  below : region.after = startLines comments ++ rest
  freeBelow : NoFeed comments
  run : Mode.CommentRun .code comments
  quiet : Quiet rest

variable {text rest : Text} {region : Region} {header block comments : List Text}

theorem exists_ofFile (plain : '\r' ∉ text) (found : find? text = some region)
    (closed : region.Closed) :
    ∃ header block comments rest, OfFile region header block comments rest := by
  rcases exists_ofLines plain found closed with ⟨header, block, h⟩
  have hstops := h.cut.stops
  rw [h.closed] at hstops
  rcases exists_trailing h.after_eq hstops with ⟨comments, rest, hbelow, hfree, hrun, hquiet⟩
  rw [← text_of_find? found] at plain
  exact ⟨header, block, comments, rest, h, plain, hbelow, hfree, hrun, hquiet⟩

namespace OfFile

variable (h : OfFile region header block comments rest)

include h

theorem noReturn_header : ∀ l ∈ header, '\r' ∉ l := by
  intro l member char
  have hbefore : '\r' ∈ region.before := by
    rw [h.before_eq]
    exact mem_endLines_iff.mpr ⟨l, member, .inl char⟩
  exact h.plain (by simp [Region.text, hbefore])

theorem noReturn_below : '\r' ∉ startLines comments ∧ '\r' ∉ rest := by
  have hplain := h.plain
  simp only [Region.text, h.below, List.mem_append, not_or] at hplain
  exact hplain.2

theorem noReturn_comments : ∀ l ∈ comments, '\r' ∉ l := by
  intro l member char
  exact h.noReturn_below.1 (List.mem_flatMap.mpr ⟨l, member, List.mem_cons_of_mem _ char⟩)

theorem splitTrailingComments :
    splitTrailingComments region.after = (startLines comments, rest) := by
  rw [h.below]
  exact splitTrailingComments_startLines h.freeBelow h.noReturn_comments h.run h.quiet

theorem exists_last_below : ∃ ls l, block ++ comments = ls ++ [l] ∧ l ≠ [] := by
  rcases List.eq_nil_or_concat' comments with rfl | ⟨front, last, rfl⟩
  · rcases h.exists_last with ⟨ls, l, rfl, hl⟩
    refine ⟨ls, l, List.append_nil _, ?_⟩
    rintro rfl
    exact hl rfl
  · exact ⟨block ++ front, last, (List.append_assoc _ _ _).symm, h.run.last_ne_nil⟩

theorem lines_upto_comments :
    lines (region.before ++ region.block ++ startLines comments) =
      header ++ (block ++ comments) := by
  rcases noFeed_append.mp h.free with ⟨hheader, hblock⟩
  have hfree : NoFeed (block ++ comments) := noFeed_append.mpr ⟨hblock, h.freeBelow⟩
  have hreturn : ∀ l ∈ block ++ comments, '\r' ∉ l := by
    intro l member
    rcases List.mem_append.mp member with hl | hl
    · exact h.noReturn l hl
    · exact h.noReturn_comments l hl
  calc
    lines (region.before ++ region.block ++ startLines comments) =
        lines (endLines header ++ joinWith ['\n'] (block ++ comments)) := by
      rw [h.before_eq, h.block_eq, List.append_assoc,
        joinWith_append_startLines comments h.cut.ne_nil]
    _ = header ++ lines (joinWith ['\n'] (block ++ comments)) :=
      lines_endLines hheader h.noReturn_header _
    _ = header ++ (block ++ comments) := by
      rcases h.exists_last_below with ⟨ls, l, hlast, hne⟩
      rw [hlast] at hfree hreturn ⊢
      rw [lines_joinWith hfree (fun x member => hreturn x (List.mem_append_left _ member)) hne]

theorem parse_upto_comments :
    Block.parse (region.before ++ region.block ++ startLines comments) =
      ⟨(label .code header).filterMap HeaderLine.ofLine?, h.statements header.length,
        comments⟩ := by
  exact Block.parse_of_isBlock h.lines_upto_comments h.cut.settled h.cut.header h.cut.toIsBlock
    h.run fun _ => h.closed

end OfFile
end Region
end ImportBlock
