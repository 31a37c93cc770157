import ImportBlock.Proofs.Format.Again
import ImportBlock.Proofs.Format.Formatted
import ImportBlock.Proofs.Region.Statements

namespace ImportBlock

open Text Line Layout

namespace Region.OfLines

variable {region : Region} {header block : List Text}

theorem replaceBlock (h : region.OfLines header block) {comments block' : List Text}
    (run : Mode.CommentRun .code comments) (isBlock : IsBlock block')
    (closed : Mode.after .code block' = .code) (free : NoFeed (comments ++ block'))
    (noReturn : ∀ l ∈ block', '\r' ∉ l) :
    OfLines ⟨region.before ++ endLines comments, joinWith ['\n'] block', region.after⟩
      (header ++ comments) block' where
  cut := by
    refine { toIsBlock := isBlock, settled := ?_, header := ?_, stops := ?_ }
    · rw [Mode.after_append, h.cut.settled, run.2]
    · rw [label_append, h.cut.settled]
      exact h.cut.header.append fun line member => inHeader_of_isCommentKind (run.1 line member)
    · rw [closed, ← h.closed]
      exact h.cut.stops
  free := by
    rcases noFeed_append.mp h.free with ⟨hheader, -⟩
    rcases noFeed_append.mp free with ⟨hcomments, hblock⟩
    exact noFeed_append.mpr ⟨noFeed_append.mpr ⟨hheader, hcomments⟩, hblock⟩
  noReturn := noReturn
  closed := closed
  before_eq := by rw [h.before_eq, endLines_append]
  block_eq := rfl
  after_eq := h.after_eq

end Region.OfLines

namespace Format

/-- The region with the statements written in the place of its block. Comments above the first of
them stand above the new block. -/
def inPlace (settings : Settings) (statements : List Statement) (region : Region) : Region :=
  let groups := writtenGroups settings statements
  ⟨region.before ++ endLines (firstComments groups),
    joinWith ['\n'] (groupLines (gap settings) false (clearFirst groups)), region.after⟩

section InPlace

variable {settings : Settings} {region : Region} {header block : List Text}
  {statements : List Statement}

theorem ofLines_inPlace (h : region.OfLines header block) (tidy : Tidy settings statements)
    (valid : settings.validate = .ok ()) (ne : statements ≠ []) :
    (inPlace settings statements region).OfLines
      (header ++ firstComments (writtenGroups settings statements))
      (groupLines (gap settings) false (clearFirst (writtenGroups settings statements))) := by
  refine h.replaceBlock (commentRun_firstComments tidy.whole_writtenGroups)
    (tidy.isBlock_written valid ne) tidy.after_written ?_
    fun line member => (tidy.free_written line member).2
  exact noFeed_append.mpr ⟨fun line member => (tidy.free_firstComments line member).1,
    fun line member => (tidy.free_written line member).1⟩

theorem exists_groups_inPlace (h : region.OfLines header block) (tidy : Tidy settings statements)
    (valid : settings.validate = .ok ()) (ne : statements ≠ []) :
    ∃ groups : List (List Statement),
      (Block.parse (inPlace settings statements region).block).statements = groups.flatten ∧
      groups.map (·.map Statement.unnumbered) =
        (clearFirst (writtenGroups settings statements)).map (·.map Statement.unnumbered) := by
  rcases tidy.exists_groups 0 with ⟨groups, hread, hsame⟩
  refine ⟨groups, ?_, hsame⟩
  rw [(ofLines_inPlace h tidy valid ne).parse_block]
  exact hread

theorem block_of_inPlace (mode : settings.wholeDocument = false) (region : Region) :
    Format.block settings region = Block.parse region.block := by
  rw [Format.block, extent, mode]
  rfl

theorem endLines_joinWith_groupLines {groups : List (List Statement)}
    (ne : groupLines (gap settings) false (clearFirst groups) ≠ []) :
    joinWith ['\n'] (groupLines (gap settings) false groups) =
      endLines (firstComments groups) ++
        joinWith ['\n'] (groupLines (gap settings) false (clearFirst groups)) := by
  rw [groupLines_clearFirst, joinWith_append ne]

theorem rendered_inPlace (unused : List Text) (h : region.OfLines header block)
    (mode : settings.wholeDocument = false) (plain : '\r' ∉ region.text)
    (hne : ∀ statement ∈ Statement.prune unused (Block.parse region.block).statements,
      (statement.written settings).lines ≠ []) :
    rendered settings unused region = joinWith ['\n'] (groupLines (gap settings) false
      (writtenGroups settings (Statement.prune unused (Block.parse region.block).statements))) := by
  have hkept : keptGroup settings unused region = Format.group settings
      (Statement.prune unused (Block.parse region.block).statements) := by
    rw [keptGroup_eq, block_of_inPlace mode]
  rw [rendered, lineBreak_of_plain plain, replaceChar_self, hkept, render, blockLines_eq _ hne,
    block_of_inPlace mode, writtenGroups]
  have hheader : (Block.parse region.block).header = [] := by rw [h.parse_block]
  have htrailing : (Block.parse region.block).trailing = [] := by rw [h.parse_block]
  rw [hheader, htrailing]
  cases htrailing : settings.trailingComments <;> simp [keptTrailing, htrailing, headerLines]

theorem replacement_inPlace {unused : List Text} (mode : settings.wholeDocument = false)
    (ne : rendered settings unused region ≠ []) : replacement settings unused region =
      ⟨region.before, region.block, rendered settings unused region, region.after⟩ := by
  have hne : (rendered settings unused region).isEmpty = false := by simpa using ne
  rw [replacement, extent, mode, hne]
  rfl

theorem replacement_of_nil {unused : List Text} (mode : settings.wholeDocument = false)
    (nil : rendered settings unused region = []) : replacement settings unused region =
      ⟨region.before, region.block ++ region.after.takeWhile isBreak, [],
        region.after.dropWhile isBreak⟩ := by
  rw [replacement, extent, mode, nil]
  rfl

theorem joinWith_ne_nil {ls : List Text} (h : Region.IsBlock ls)
    (closed : Mode.after .code ls = .code) : joinWith ['\n'] ls ≠ [] := by
  rcases (List.eq_nil_or_concat' ls).resolve_left h.ne_nil with ⟨init, last, rfl⟩
  have hlast := h.last_ne_nil closed
  rw [joinWith_concat]
  rintro hnil
  rw [(List.append_eq_nil_iff.mp hnil).2] at hlast
  exact hlast rfl

section Kept

variable {unused : List Text} (h : region.OfLines header block) (valid : settings.validate = .ok ())
  (mode : settings.wholeDocument = false)
  (kept : statements = Statement.prune unused (Block.parse region.block).statements)
  (ne : statements ≠ []) (tidy : Tidy settings statements)

include h valid mode kept ne tidy

theorem result_inPlace (plain : '\r' ∉ region.text) :
    (replacement settings unused region).result = (inPlace settings statements region).text := by
  have hlines := ofLines_inPlace h tidy valid ne
  have hjoin := endLines_joinWith_groupLines hlines.cut.ne_nil
  have hrendered := rendered_inPlace unused h mode plain (kept ▸ tidy.ne_nil)
  rw [← kept, hjoin] at hrendered
  have hne : rendered settings unused region ≠ [] := by
    rw [hrendered]
    intro hnil
    exact joinWith_ne_nil hlines.cut.toIsBlock hlines.closed (List.append_eq_nil_iff.mp hnil).2
  calc
    (replacement settings unused region).result =
        region.before ++ rendered settings unused region ++ region.after := by
      rw [replacement_inPlace mode hne, Replacement.result]
    _ = (inPlace settings statements region).text := by
      rw [hrendered, inPlace, Region.text]
      simp only [List.append_assoc]

omit h valid mode kept ne in
theorem plain_inPlace (plain : '\r' ∉ region.text) :
    '\r' ∉ (inPlace settings statements region).text := by
  simp only [Region.text, List.mem_append, not_or] at plain
  rcases plain with ⟨⟨hbefore, -⟩, hafter⟩
  simp only [inPlace, Region.text, List.mem_append, not_or]
  exact ⟨⟨⟨hbefore, not_mem_endLines fun line member => (tidy.free_firstComments line member).2⟩,
    not_mem_joinWith fun line member => (tidy.free_written line member).2⟩, hafter⟩

/-- Nothing changes when the new text is formatted again. -/
theorem edit?_inPlace (plain : '\r' ∉ region.text) :
    (replacement settings unused (inPlace settings statements region)).edit? = none := by
  have hlines := ofLines_inPlace h tidy valid ne
  rcases exists_groups_inPlace h tidy valid ne with ⟨groups, hparse, hsame⟩
  have hprune := tidy.prune_readBack hsame kept
  have hgroups := tidy.writtenGroups_readBack hsame valid
  have hrendered := rendered_inPlace unused hlines mode
    (plain_inPlace tidy plain) (by rw [hparse, hprune]; exact tidy.ne_nil_readBack hsame)
  rw [hparse, hprune, hgroups, groupLines_unnumbered false hsame] at hrendered
  have hne : rendered settings unused (inPlace settings statements region) ≠ [] := by
    rw [hrendered]
    exact joinWith_ne_nil hlines.cut.toIsBlock hlines.closed
  rw [replacement_inPlace mode hne, Replacement.edit?_eq_none_iff, hrendered, inPlace]

end Kept

end InPlace
end Format
end ImportBlock
