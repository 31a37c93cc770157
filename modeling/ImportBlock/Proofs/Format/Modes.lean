import ImportBlock.Proofs.Format.Formatted
import ImportBlock.Proofs.Format.Tail
import ImportBlock.Proofs.Layout.NonBlank
import ImportBlock.Proofs.Region.Paired
import ImportBlock.Proofs.Text.Returns

/-! In place and as a whole a document is formatted to the same lines, blank ones left out. -/

namespace ImportBlock

open Text Line

namespace Text

theorem paired_withReturns {text : Text} (plain : '\r' ∉ text) :
    PairedReturns (withReturns text) := by
  induction text with
  | nil => exact .nil
  | cons c rest ih =>
    rw [List.mem_cons, not_or] at plain
    by_cases hc : c = '\n'
    · rw [hc, withReturns_feed]
      exact .cons (fun _ => rfl) (.cons (fun hfeed => absurd hfeed (by decide)) (ih plain.2))
    · rw [withReturns_cons hc]
      exact .cons (fun hreturn => absurd hreturn.symm plain.1) (ih plain.2)

theorem nonBlankLines_joinWith {ls : List Text} (free : ∀ l ∈ ls, '\n' ∉ l ∧ '\r' ∉ l) :
    nonBlankLines (joinWith ['\n'] ls) = nonBlank ls := by
  rcases List.eq_nil_or_concat' ls with rfl | ⟨init, l, rfl⟩
  · rfl
  · obtain ⟨hinit, hl⟩ := List.forall_mem_append.mp free
    have hlast := nonBlankLines_last (hl l (List.mem_singleton_self l)).1
    rw [nonBlankLines] at hlast
    rw [nonBlankLines, joinWith_concat, lines_endLines (fun x hx => (hinit x hx).1)
      (fun x hx => (hinit x hx).2), nonBlank_append, hlast, ← nonBlank_append]

theorem nonBlankLines_replaceChar {last : Text} (whole : WholeBreak last) {ls : List Text}
    (free : ∀ l ∈ ls, '\n' ∉ l ∧ '\r' ∉ l) :
    PairedReturns (replaceChar '\n' last (joinWith ['\n'] ls)) ∧
      nonBlankLines (replaceChar '\n' last (joinWith ['\n'] ls)) = nonBlank ls := by
  have hplain : '\r' ∉ joinWith ['\n'] ls := not_mem_joinWith fun l hl => (free l hl).2
  have hlines := nonBlankLines_joinWith free
  rcases whole with rfl | rfl
  · rw [replaceChar_self]
    exact ⟨.of_not_mem hplain, hlines⟩
  · refine ⟨paired_withReturns hplain, ?_⟩
    rw [nonBlankLines] at hlines ⊢
    rw [← hlines, ← lines_withReturns hplain]
    rfl

end Text

namespace Format

variable {settings : Settings} {unused : List Text} {text : Text} {region : Region}

theorem exists_append_dropBlankTail (text : Text) :
    ∃ blank, text = dropBlankTail text ++ blank ∧ (∀ c ∈ blank, isWhite c = true) ∧
      (dropBlankTail text ≠ [] → blank.head?.all isBreak = true ∧
        (dropBlankTail text).getLast? ≠ some '\r') := by
  have htrimmed : Trimmed text (dropBlankTail text) := trimmed_iff.mpr rfl
  generalize dropBlankTail text = kept at htrimmed ⊢
  cases htrimmed with
  | blank blank => exact ⟨text, rfl, List.all_eq_true.mp blank, fun ne => absurd rfl ne⟩
  | @lines above last breaks below ended free filled stop isBreaks follows blank =>
    refine ⟨breaks ++ below, List.append_assoc _ _ _, ?_,
      fun _ => ⟨head_run_append isBreaks follows, fun hlast => ?_⟩⟩
    · exact List.forall_mem_append.mpr
        ⟨fun c hc => isWhite_of_isBreak (isBreaks c hc), List.all_eq_true.mp blank⟩
    · rcases List.eq_nil_or_concat' last with rfl | ⟨init, c, rfl⟩
      · contradiction
      · rw [← List.append_assoc, List.getLast?_concat, Option.some.injEq] at hlast
        rw [hlast, List.getLast?_concat] at stop
        contradiction

theorem head_dropBlankTail (start : text.head?.all isBreak = true) :
    (dropBlankTail text).head?.all isBreak = true := by
  obtain ⟨blank, htext, -⟩ := exists_append_dropBlankTail text
  generalize dropBlankTail text = kept at htext ⊢
  rw [htext] at start
  cases kept with
  | nil => rfl
  | cons c kept => exact start

theorem nonBlankLines_dropBlankTail (paired : PairedReturns text) :
    PairedReturns (dropBlankTail text) ∧
      nonBlankLines (dropBlankTail text) = nonBlankLines text := by
  obtain ⟨blank, htext, hwhite, hstop⟩ := exists_append_dropBlankTail text
  by_cases hnil : dropBlankTail text = []
  · rw [hnil, List.nil_append] at htext
    rw [hnil, htext, nonBlankLines_white hwhite]
    exact ⟨.nil, rfl⟩
  · obtain ⟨hstart, hlast⟩ := hstop hnil
    have hparts : PairedReturns (dropBlankTail text ++ blank) := by rwa [← htext]
    have hkept := hparts.of_append_left hlast
    have hlines := hkept.nonBlankLines_append hparts.of_append_right hstart
    rw [← htext, nonBlankLines_white hwhite, List.append_nil] at hlines
    exact ⟨hkept, hlines.symm⟩

section Found

variable (found : Region.find? text = some region)

include found

theorem block_of_commentsBelow (mode : settings.wholeDocument = true) {comments more : Text}
    (below : Region.CommentsBelow region comments more) : Format.block settings region =
      ⟨(label .code (lines region.before)).filterMap HeaderLine.ofLine?,
        (Block.Below.empty.read .code (lines region.before).length (lines region.block)).statements,
        (lines comments).tail⟩ := by
  rw [Format.block, extent_of_wholeDocument mode, below.split]
  exact Region.parse_upto found below

theorem nonBlankLines_anew (mode : settings.wholeDocument = true) {comments more : Text}
    (below : Region.CommentsBelow region comments more) (pairedMore : PairedReturns more)
    (pairedRendered : PairedReturns (rendered settings unused region)) :
    nonBlankLines (formatted settings unused text) =
      nonBlankLines (rendered settings unused region) ++ nonBlankLines more := by
  obtain ⟨hkept, hrest⟩ := nonBlankLines_dropBlankTail pairedMore
  have hend := wholeBreak_lineBreak region.text
  rw [formatted_of_find? found, replacement_of_wholeDocument mode, Replacement.result,
    List.nil_append, List.append_nil, below.split]
  dsimp only
  split
  · next hnil =>
    rw [hnil, List.nil_append, hkept.dropWhile_break.nonBlankLines_end hend,
      hkept.nonBlankLines_dropWhile, hrest]
    rfl
  · have hstart := head_dropBlankTail below.follows
    rw [(pairedRendered.append hkept).nonBlankLines_end hend,
      pairedRendered.nonBlankLines_append hkept hstart, hrest]

variable (paired : PairedReturns text) (keep : settings.trailingComments = .keep)

include paired keep

theorem nonBlankLines_rendered (unused : List Text) {header : List HeaderLine} {n : Nat}
    {trailing : List Text}
    (parse : Format.block settings region =
      ⟨header, (Block.Below.empty.read .code n (lines region.block)).statements, trailing⟩)
    (freeHeader : ∀ line ∈ Layout.headerLines settings header, '\n' ∉ line ∧ '\r' ∉ line)
    (freeTrailing : ∀ line ∈ trailing, '\n' ∉ line ∧ '\r' ∉ line) :
    PairedReturns (rendered settings unused region) ∧
      nonBlankLines (rendered settings unused region) =
        nonBlank (Layout.headerLines settings header) ++ nonBlank (statementLines settings
          (Statement.prune unused (Block.parse region.block).statements)) ++ nonBlank trailing := by
  set statements := (Block.Below.empty.read .code n (lines region.block)).statements with hread
  have hfree : ∀ line ∈ Layout.blockLines settings ⟨header, statements, trailing⟩
      (Format.group settings (Statement.prune unused statements)),
      '\n' ∉ line ∧ '\r' ∉ line := by
    refine Layout.free_blockLines freeHeader (fun statement member => ?_) freeTrailing
    exact Region.free_statements found paired n statement (List.mem_of_mem_filter member)
  have hsame : statementLines settings (Statement.prune unused statements) =
      statementLines settings (Statement.prune unused (Block.parse region.block).statements) := by
    apply statementLines_unnumbered
    rw [Statement.map_prune_unnumbered, Statement.map_prune_unnumbered,
      Region.parse_block_of_find? found, hread, Block.Below.read_unnumbered .code n 0 _]
  have hlines := nonBlankLines_replaceChar (wholeBreak_lineBreak region.text) hfree
  rw [Layout.nonBlank_blockLines keep, hsame] at hlines
  have hrendered : rendered settings unused region = replaceChar '\n' (lineBreak region.text)
      (joinWith ['\n'] (Layout.blockLines settings ⟨header, statements, trailing⟩
        (Format.group settings (Statement.prune unused statements)))) := by
    rw [rendered, Layout.render, parse]
    rw [keptGroup_eq, parse]
  rw [hrendered]
  exact hlines

theorem nonBlankLines_inPlace (mode : settings.wholeDocument = false) :
    nonBlankLines (formatted settings unused text) =
      nonBlankLines region.before ++ nonBlank (statementLines settings
        (Statement.prune unused (Block.parse region.block).statements)) ++
          nonBlankLines region.after := by
  obtain ⟨header, block, last, run, rest, h⟩ := Region.exists_ofText found
  obtain ⟨-, -, hafter⟩ := Region.paired_parts found paired
  have hextent : extent settings region = (region.block, region.after) := by
    rw [extent, mode]
    rfl
  have hparse : Format.block settings region =
      ⟨[], (Block.Below.empty.read .code 0 (lines region.block)).statements, []⟩ := by
    rw [Format.block, hextent, Region.parse_block_of_find? found]
  obtain ⟨hpaired, hlines⟩ := nonBlankLines_rendered found paired keep unused hparse
    (by simp [Layout.headerLines]) (by simp)
  have hbefore := nonBlankLines_append h.ended_before
  have hnone : nonBlank (Layout.headerLines settings []) = [] := rfl
  rw [hnone, List.nil_append, nonBlank_nil, List.append_nil] at hlines
  rw [formatted_of_find? found, replacement, hextent, mode, ← hlines]
  simp only [List.isEmpty_iff, Bool.false_eq_true, if_false]
  split
  · next hnil =>
    rw [Replacement.result, List.append_nil, hbefore, hafter.nonBlankLines_dropWhile, hnil,
      nonBlankLines_nil, List.append_nil]
  · rw [Replacement.result, List.append_assoc, hbefore,
      hpaired.nonBlankLines_append hafter h.head_after, List.append_assoc]

theorem nonBlankLines_wholeDocument (mode : settings.wholeDocument = true)
    (keepHeader : settings.preserveLeadingComments = true) :
    nonBlankLines (formatted settings unused text) =
      nonBlankLines region.before ++ nonBlank (statementLines settings
        (Statement.prune unused (Block.parse region.block).statements)) ++
          nonBlankLines region.after := by
  obtain ⟨header, block, last, run, rest, h⟩ := Region.exists_ofText found
  obtain ⟨hbefore, -, hafter⟩ := Region.paired_parts found paired
  obtain ⟨comments, more, hbelow⟩ := h.exists_commentsBelow hafter
  have hsplit : region.after = comments ++ more := by
    have hwhole := append_splitTrailingComments region.after
    rw [hbelow.split] at hwhole
    exact hwhole.symm
  rw [hsplit] at hafter
  have hcomments := hafter.of_append_left hbelow.stop
  have hmore := hafter.of_append_right
  have hparse := block_of_commentsBelow found mode hbelow
  have hheader : ∀ line ∈ Layout.headerLines settings
      ((label .code (lines region.before)).filterMap HeaderLine.ofLine?),
        '\n' ∉ line ∧ '\r' ∉ line := by
    intro line member
    rw [headerLines_filterMap] at member
    exact hbefore.free_lines line (mem_of_mem_writtenHeader member)
  obtain ⟨hpaired, hlines⟩ := nonBlankLines_rendered found paired keep unused hparse
    hheader fun line member => hcomments.free_lines line (List.mem_of_mem_tail member)
  rw [Layout.nonBlank_headerLines keepHeader h.cut_before.header, ← hbelow.blank] at hlines
  rw [nonBlankLines_anew found mode hbelow hmore hpaired, hlines, hsplit,
    hcomments.nonBlankLines_append hmore hbelow.follows]
  simp only [List.append_assoc]
  rfl

end Found

/-- Whether a document is written in place or as a whole makes a difference to blank lines and line
breaks only. -/
theorem nonBlankLines_formatted_modes (unused : List Text) (paired : PairedReturns text)
    (keepHeader : settings.preserveLeadingComments = true)
    (keep : settings.trailingComments = .keep) :
    nonBlankLines (formatted { settings with wholeDocument := true } unused text) =
      nonBlankLines (formatted { settings with wholeDocument := false } unused text) := by
  cases found : Region.find? text with
  | none => simp only [formatted, found]
  | some region =>
    have hwhole := @nonBlankLines_wholeDocument { settings with wholeDocument := true } unused
      text region found paired keep rfl keepHeader
    have hplace := @nonBlankLines_inPlace { settings with wholeDocument := false } unused
      text region found paired keep rfl
    exact hwhole.trans hplace.symm

def patchwork : Text :=
  ("// License\r\n\n\"use strict\";\nimport b from \"b\";\r\n\r\n// about a\n" ++
    "import \x7b one, two \x7d from \"a\";\r\n/* below\n\n*/\r\n \nrun();\n\r\n").toList

theorem nonBlankLines_formatted_patchwork :
    let settings : Settings := { maxLineLength := 20 }
    let unused := ["b".toList]
    (Region.find? patchwork).isSome = true ∧ PairedReturns patchwork ∧
      settings.preserveLeadingComments = true ∧ settings.trailingComments = .keep ∧
      nonBlankLines (formatted { settings with wholeDocument := true } unused patchwork) =
        nonBlankLines (formatted { settings with wholeDocument := false } unused patchwork) := by
  intro settings unused
  have hfound : (Region.find? patchwork).isSome = true := by decide +kernel
  have hpaired : PairedReturns patchwork := by decide +kernel
  exact ⟨hfound, hpaired, rfl, rfl, nonBlankLines_formatted_modes unused hpaired rfl rfl⟩

end Format
end ImportBlock
