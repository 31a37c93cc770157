import ImportBlock.Proofs.Format.Tail
import ImportBlock.Proofs.Format.Wrapping
import ImportBlock.Proofs.Layout.Header
import ImportBlock.Proofs.Region.File

/-! Formatting of a whole document, and when a second pass still moves its comments. -/

namespace ImportBlock

open Text Line Layout

namespace Format

variable {settings : Settings} {region : Region} {header block comments : List Text} {rest : Text}
  {statements : List Statement} {unused : List Text}

/-- The written file. Comments of the first statement stand in its header. -/
def anew (settings : Settings) (header : List Text) (groups : List (List Statement))
    (comments : List Text) (rest : Text) : Region where
  before := endLines (above settings header (firstComments groups))
  block := joinWith ['\n'] (groupLines (gap settings) false (clearFirst groups))
  after := startLines (keptTrailing settings comments) ++ (dropBlankTail rest ++ ['\n'])

theorem joinWith_around (upper lower : List Text) (ne : block ≠ []) :
    joinWith ['\n'] (upper ++ block ++ lower) =
      endLines upper ++ joinWith ['\n'] block ++ startLines lower := by
  rw [List.append_assoc, joinWith_append (by simp [ne]), List.append_assoc,
    joinWith_append_startLines lower ne]

section File

variable (h : region.OfFile header block comments rest)

include h

theorem extent_wholeDocument (mode : settings.wholeDocument = true) :
    extent settings region = (region.before ++ region.block ++ startLines comments, rest) := by
  rw [extent, mode, h.splitTrailingComments]
  rfl

theorem block_wholeDocument (mode : settings.wholeDocument = true) :
    Format.block settings region = ⟨(label .code header).filterMap HeaderLine.ofLine?,
      h.statements header.length, comments⟩ := by
  rw [Format.block, extent_wholeDocument h mode, h.parse_upto_comments]

theorem replacement_wholeDocument (mode : settings.wholeDocument = true)
    (ne : rendered settings unused region ≠ []) : replacement settings unused region =
      ⟨[], region.text, rendered settings unused region ++ dropBlankTail rest ++ ['\n'], []⟩ := by
  have hne : (rendered settings unused region).isEmpty = false := by simpa using ne
  rw [replacement, extent_wholeDocument h mode, hne, mode, lineBreak_of_plain h.plain]
  rfl

theorem rendered_wholeDocument (valid : settings.validate = .ok ())
    (mode : settings.wholeDocument = true)
    (kept : statements = Statement.prune unused (h.statements header.length)) (ne : statements ≠ [])
    (lines : ∀ statement ∈ statements, (statement.written settings).lines ≠ []) :
    rendered settings unused region = joinWith ['\n']
      (spaced settings (writtenHeader settings header) ++
        groupLines (gap settings) false (writtenGroups settings statements) ++
        keptTrailing settings comments) := by
  have hkept : keptGroup settings unused region = Format.group settings statements := by
    rw [keptGroup_eq, block_wholeDocument h mode, kept]
  have hne := writtenGroups_ne_nil valid ne
  rw [rendered, lineBreak_of_plain h.plain, replaceChar_self, hkept, render, blockLines_eq _ lines,
    block_wholeDocument h mode]
  dsimp only
  rw [headerLines_filterMap, ← writtenHeader, ← writtenGroups, groupLines_spaced settings _ hne]

theorem free_above (tidy : Tidy settings statements) :
    ∀ line ∈ above settings header (firstComments (writtenGroups settings statements)),
      '\n' ∉ line ∧ '\r' ∉ line := by
  intro line member
  rcases mem_of_mem_above member with hline | rfl | hline
  · exact ⟨(noFeed_append.mp h.free).1 line hline, h.noReturn_header line hline⟩
  · simp
  · exact tidy.free_firstComments line hline

theorem ofFile_anew (tidy : Tidy settings statements) (valid : settings.validate = .ok ())
    (ne : statements ≠ []) :
    (anew settings header (writtenGroups settings statements) comments rest).OfFile
      (above settings header (firstComments (writtenGroups settings statements)))
      (groupLines (gap settings) false (clearFirst (writtenGroups settings statements)))
      (keptTrailing settings comments) (dropBlankTail rest ++ ['\n']) := by
  obtain ⟨hheader, hsettled⟩ := allHeader_above settings h.cut.header h.cut.settled
    (commentRun_firstComments tidy.whole_writtenGroups)
  have hquiet := (quiet_dropBlankTail h.quiet h.noReturn_below.2).1
  have hrun := commentRun_keptTrailing settings h.run
  have hfree : NoFeed (keptTrailing settings comments) :=
    fun line member => h.freeBelow line (mem_of_mem_keptTrailing member)
  have habove := free_above h tidy
  refine {
    cut := ⟨tidy.isBlock_written valid ne, hsettled, hheader, ?_⟩
    free := noFeed_append.mpr ⟨fun line member => (habove line member).1,
      fun line member => (tidy.free_written line member).1⟩
    noReturn := fun line member => (tidy.free_written line member).2
    closed := tidy.after_written
    before_eq := rfl
    block_eq := rfl
    after_eq := (follows_startLines _).append hquiet.follows
    plain := ?_
    below := rfl
    freeBelow := hfree
    run := hrun
    quiet := hquiet }
  · rw [tidy.after_written]
    exact hquiet.stops_startLines hfree hrun
  · simp only [anew, Region.text, List.mem_append, not_or]
    have hcomments : ∀ line ∈ keptTrailing settings comments, '\r' ∉ line :=
      fun line member => h.noReturn_comments line (mem_of_mem_keptTrailing member)
    exact ⟨⟨not_mem_endLines fun line member => (habove line member).2,
      not_mem_joinWith fun line member => (tidy.free_written line member).2⟩,
      not_mem_startLines hcomments,
      fun member => h.noReturn_below.2 (mem_of_mem_dropBlankTail member), by decide⟩

theorem exists_groups_anew (tidy : Tidy settings statements) (valid : settings.validate = .ok ())
    (ne : statements ≠ []) : ∃ groups : List (List Statement),
      groups.flatten = (ofFile_anew h tidy valid ne).statements (above settings header
        (firstComments (writtenGroups settings statements))).length ∧
      groups.map (·.map Statement.unnumbered) =
        (clearFirst (writtenGroups settings statements)).map (·.map Statement.unnumbered) := by
  obtain ⟨groups, hread, hsame⟩ := tidy.exists_groups
    (above settings header (firstComments (writtenGroups settings statements))).length
  exact ⟨groups, hread.symm, hsame⟩

section Again

variable (tidy : Tidy settings statements) (valid : settings.validate = .ok ())
  (mode : settings.wholeDocument = true)
  (kept : statements = Statement.prune unused (h.statements header.length)) (ne : statements ≠ [])

include tidy valid mode kept ne

theorem formatted_wholeDocument : formatted settings unused region.text =
    (anew settings header (writtenGroups settings statements) comments rest).text := by
  have hblock := tidy.isBlock_written valid ne
  have hrendered := rendered_wholeDocument h valid mode kept ne tidy.ne_nil
  rw [groupLines_clearFirst, ← List.append_assoc, ← above, joinWith_around _ _ hblock.ne_nil]
    at hrendered
  have hne : rendered settings unused region ≠ [] := by
    rw [hrendered]
    simp [joinWith_ne_nil hblock tidy.after_written]
  calc
    formatted settings unused region.text = (replacement settings unused region).result :=
      formatted_of_find? h.find?
    _ = rendered settings unused region ++ dropBlankTail rest ++ ['\n'] := by
      rw [replacement_wholeDocument h mode hne, Replacement.result, List.nil_append,
        List.append_nil]
    _ = (anew settings header (writtenGroups settings statements) comments rest).text := by
      rw [hrendered]
      simp only [anew, Region.text, List.append_assoc]

theorem edit?_anew_iff :
    (replacement settings unused
        (anew settings header (writtenGroups settings statements) comments rest)).edit? = none ↔
      firstComments (writtenGroups settings statements) = [] ∨
        settings.preserveLeadingComments = true ∧ settings.emptyLineBetweenGroups = false := by
  have hblock := tidy.isBlock_written valid ne
  have hfile := ofFile_anew h tidy valid ne
  have htail := (quiet_dropBlankTail h.quiet h.noReturn_below.2).2
  have hcomments := commentRun_firstComments tidy.whole_writtenGroups
  rcases exists_groups_anew h tidy valid ne with ⟨groups, hread, hsame⟩
  -- The second pass keeps, sorts and writes the statements it reads as they stand, so that only
  -- what stands above them can differ.
  have hpruned := (tidy.prune_readBack hsame kept).symm
  have hkept := hpruned.trans (congrArg (Statement.prune unused) hread)
  have hgroups := tidy.writtenGroups_readBack hsame valid
  have hne : groups.flatten ≠ [] := hread ▸ hfile.statements_ne_nil _
  have hrendered := rendered_wholeDocument hfile valid mode hkept hne (tidy.ne_nil_readBack hsame)
  rw [hgroups, groupLines_unnumbered false hsame, keptTrailing_keptTrailing,
    joinWith_around _ _ hblock.ne_nil] at hrendered
  have hwritten : rendered settings unused
      (anew settings header (writtenGroups settings statements) comments rest) ≠ [] := by
    rw [hrendered]
    simp [joinWith_ne_nil hblock tidy.after_written]
  have hspaced : NoFeed (spaced settings (writtenHeader settings
      (above settings header (firstComments (writtenGroups settings statements))))) := by
    intro line member
    rcases mem_of_mem_spaced member with hline | rfl
    · exact (noFeed_append.mp hfile.free).1 line (mem_of_mem_writtenHeader hline)
    · simp
  rw [replacement_wholeDocument hfile mode hwritten, Replacement.edit?_eq_none_iff, hrendered,
    htail, ← above_eq_spaced_iff h.cut.header h.cut.settled hcomments]
  simp only [anew, Region.text, List.append_assoc, List.append_left_inj]
  constructor
  · exact endLines_injective (noFeed_append.mp hfile.free).1 hspaced
  · exact congrArg endLines

theorem settled_anew_iff : Settled settings unused (formatted settings unused region.text) ↔
    firstComments (writtenGroups settings statements) = [] ∨
      settings.preserveLeadingComments = true ∧ settings.emptyLineBetweenGroups = false := by
  rw [formatted_wholeDocument h tidy valid mode kept ne, ← edit?_anew_iff h tidy valid mode kept ne]
  have hfound := (ofFile_anew h tidy valid ne).find?
  constructor
  · rintro ⟨other, hother, hnone⟩
    rw [hfound, Option.some.injEq] at hother
    rwa [hother]
  · exact fun hnone => ⟨_, hfound, hnone⟩

end Again
end File

section Found

variable {text : Text} (plain : '\r' ∉ text) (found : Region.find? text = some region)
  (closed : region.Closed) (valid : settings.validate = .ok ())
  (mode : settings.wholeDocument = true) (off : settings.wrapMultilineImports = false)

include plain found closed valid mode off

/-- A second pass changes nothing exactly when no comments have come to stand above the first
statement, or they are kept there with no gap below them. -/
theorem settled_formatted_iff : Settled settings [] (formatted settings [] text) ↔
    firstComments (arranged settings (Format.block settings region).statements) = [] ∨
      settings.preserveLeadingComments = true ∧ settings.emptyLineBetweenGroups = false := by
  rcases Region.exists_ofFile plain found closed with ⟨header, block, comments, rest, h⟩
  rw [← Region.text_of_find? found, block_wholeDocument h mode, ← writtenGroups_eq_arranged off]
  exact settled_anew_iff h (tidy_statements h.toOfLines off _) valid mode
    (Statement.prune_nil _).symm (h.statements_ne_nil _)

/-- A third pass finds no comments above the first statement but those of the header. -/
theorem settled_formatted_formatted :
    Settled settings [] (formatted settings [] (formatted settings [] text)) := by
  rcases Region.exists_ofFile plain found closed with ⟨header, block, comments, rest, h⟩
  have htidy := tidy_statements h.toOfLines off header.length
  have ne := h.statements_ne_nil header.length
  have hanew := ofFile_anew h htidy valid ne
  rcases exists_groups_anew h htidy valid ne with ⟨groups, hread, hsame⟩
  rw [← Region.text_of_find? found,
    formatted_wholeDocument h htidy valid mode (Statement.prune_nil _).symm ne,
    settled_anew_iff hanew (tidy_statements hanew.toOfLines off _) valid mode
      (Statement.prune_nil _).symm (hanew.statements_ne_nil _)]
  left
  calc
    firstComments (writtenGroups settings (hanew.statements _)) = firstComments groups := by
      rw [← hread, htidy.writtenGroups_readBack hsame valid]
    _ = firstComments (clearFirst (writtenGroups settings (h.statements header.length))) := by
      rw [← firstComments_unnumbered, hsame, firstComments_unnumbered]
    _ = [] := firstComments_clearFirst _

/-- When formatting a whole document is done after one pass, and that it is after two. -/
theorem settled_formatted_wholeDocument :
    (Settled settings [] (formatted settings [] text) ↔
      firstComments (arranged settings (Format.block settings region).statements) = [] ∨
        settings.preserveLeadingComments = true ∧ settings.emptyLineBetweenGroups = false) ∧
    Settled settings [] (formatted settings [] (formatted settings [] text)) :=
  ⟨settled_formatted_iff plain found closed valid mode off,
    settled_formatted_formatted plain found closed valid mode off⟩

end Found

def licensed : Region where
  before := endLines (["// License", "", "\"use strict\";"].map String.toList)
  block := joinWith ['\n'] (["import z from \"z\";", "", "// about a", "import a from \"a\";",
    "import z from \"z\";"].map String.toList)
  after := startLines (["/* below */", "", "run();", "", ""].map String.toList)

theorem settled_formatted_licensed :
    let settings : Settings :=
      { wholeDocument := true, wrapMultilineImports := false, emptyLineBetweenGroups := false }
    let groups := arranged settings (Format.block settings licensed).statements
    '\r' ∉ licensed.text ∧ Region.find? licensed.text = some licensed ∧ licensed.Closed ∧
      settings.validate = .ok () ∧ settings.wholeDocument = true ∧
      settings.wrapMultilineImports = false ∧ firstComments groups = ["// about a".toList] ∧
      Settled settings [] (formatted settings [] licensed.text) ∧
      Settled settings [] (formatted settings [] (formatted settings [] licensed.text)) := by
  intro settings groups
  have hplain : '\r' ∉ licensed.text := by decide +kernel
  have hfound : Region.find? licensed.text = some licensed := by decide +kernel
  have hclosed : licensed.Closed := by decide +kernel
  have hvalid : settings.validate = .ok () := rfl
  obtain ⟨hsecond, hthird⟩ :=
    settled_formatted_wholeDocument hplain hfound hclosed hvalid rfl rfl
  have hcomments : firstComments groups = ["// about a".toList] := by
    simp only [groups, arranged, Format.group, SortOrder.sort_eq_insertionSort]
    decide +kernel
  exact ⟨hplain, hfound, hclosed, hvalid, rfl, rfl, hcomments,
    hsecond.mpr (.inr ⟨rfl, rfl⟩), hthird⟩

def commented : Region where
  before := []
  block := joinWith ['\n'] (["import b from \"b\";", "// about a",
    "import a from \"a\";"].map String.toList)
  after := ['\n']

/-- The second pass writes a gap below the comment. -/
theorem unsettled_formatted_commented :
    let settings : Settings := { wholeDocument := true, wrapMultilineImports := false }
    '\r' ∉ commented.text ∧ Region.find? commented.text = some commented ∧ commented.Closed ∧
      settings.validate = .ok () ∧ settings.wholeDocument = true ∧
      settings.wrapMultilineImports = false ∧
      ¬ Settled settings [] (formatted settings [] commented.text) := by
  intro settings
  have hplain : '\r' ∉ commented.text := by decide +kernel
  have hfound : Region.find? commented.text = some commented := by decide +kernel
  have hclosed : commented.Closed := by decide +kernel
  have hvalid : settings.validate = .ok () := rfl
  have hcomments : firstComments
      (arranged settings (Format.block settings commented).statements) ≠ [] := by
    simp only [arranged, Format.group, SortOrder.sort_eq_insertionSort]
    decide +kernel
  refine ⟨hplain, hfound, hclosed, hvalid, rfl, rfl, ?_⟩
  rw [settled_formatted_iff hplain hfound hclosed hvalid rfl rfl]
  rintro (hnil | ⟨-, hgap⟩)
  · exact hcomments hnil
  · contradiction

end Format
end ImportBlock
