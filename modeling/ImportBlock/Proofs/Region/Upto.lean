import ImportBlock.Proofs.Region.Leading
import ImportBlock.Proofs.Region.Paired
import ImportBlock.Proofs.Text.Offset

/-! A file read down to the comments below its block, next to the block read alone. -/

namespace ImportBlock

open Text Line

namespace Line

/-- Lines above the imports and what they are read as: blank ones as nothing, a comment line by
line, directives as code. -/
inductive Prologue : List Text → List HeaderLine → Prop where
  | nil : Prologue [] []
  | blank {l : Text} {rest : List Text} {header : List HeaderLine} (blank : isBlank l = true)
      (below : Prologue rest header) : Prologue (l :: rest) header
  | comment {ls rest : List Text} {header : List HeaderLine} (comment : IsWholeComment ls)
      (below : Prologue rest header) :
      Prologue (ls ++ rest) (ls.map HeaderLine.comment ++ header)
  | directive {l : Text} {rest : List Text} {header : List HeaderLine}
      (directive : isDirective (trim l) = true) (below : Prologue rest header) :
      Prologue (l :: rest) (.code l :: header)

inductive TopPrologue : List Text → List HeaderLine → Prop where
  | plain {ls : List Text} {header : List HeaderLine} (lines : Prologue ls header) :
      TopPrologue ls header
  | shebang {l : Text} {ls : List Text} {header : List HeaderLine}
      (shebang : isShebang (trim l) = true) (below : Prologue ls header) :
      TopPrologue (l :: ls) (.code l :: header)

section Prologue

variable {l : Text} {ls rest : List Text} {header : List HeaderLine}

def headerOf (ls : List Text) : List HeaderLine := (label .code ls).filterMap HeaderLine.ofLine?

theorem headerOf_blank (blank : isBlank l = true) : headerOf (l :: rest) = headerOf rest := by
  have hread : Mode.code.read (trim l) = (.blank, .code) := by
    rw [isBlank_iff_trim.mp blank]
    rfl
  rw [headerOf, label, hread]
  rfl

theorem headerOf_code (read : Mode.code.read (trim l) = (.code, .code)) :
    headerOf (l :: rest) = .code l :: headerOf rest := by
  rw [headerOf, label, read]
  rfl

theorem headerOf_comment (run : Mode.CommentRun .code ls) :
    headerOf (ls ++ rest) = ls.map HeaderLine.comment ++ headerOf rest := by
  have hcomments : ∀ lines : List Line, (∀ line ∈ lines, line.isCommentKind = true) →
      lines.filterMap HeaderLine.ofLine? = (lines.map Line.text).map HeaderLine.comment := by
    intro lines kinds
    induction lines with
    | nil => rfl
    | cons line lines ih =>
      obtain ⟨hline, hlines⟩ := List.forall_mem_cons.mp kinds
      obtain ⟨done, hkind⟩ := exists_kind_of_isCommentKind hline
      have hsome : HeaderLine.ofLine? line = some (.comment line.text) := by
        rw [HeaderLine.ofLine?, hkind]
      rw [List.filterMap_cons_some hsome, ih hlines]
      rfl
  rw [headerOf, label_append, run.2, List.filterMap_append, hcomments _ run.1, map_text_label]
  rfl

/-- The relation is what the reader does with the lines that may stand above the imports. -/
theorem prologue_iff : Prologue ls header ↔ Loose isDirective ls ∧ header = headerOf ls := by
  constructor
  · intro h
    induction h with
    | nil => exact ⟨.nil, rfl⟩
    | blank blank _ ih => exact ⟨.blank blank ih.1, by rw [headerOf_blank blank, ih.2]⟩
    | comment comment _ ih =>
      exact ⟨.comment comment ih.1, by rw [headerOf_comment comment.commentRun, ih.2]⟩
    | directive directive _ ih =>
      exact ⟨.other directive ih.1, by rw [headerOf_code (read_directive directive), ih.2]⟩
  · rintro ⟨loose, rfl⟩
    induction loose with
    | nil => exact .nil
    | blank blank _ ih =>
      rw [headerOf_blank blank]
      exact .blank blank ih
    | comment comment _ ih =>
      rw [headerOf_comment comment.commentRun]
      exact .comment comment ih
    | other directive _ ih =>
      rw [headerOf_code (read_directive directive)]
      exact .directive directive ih

theorem topPrologue_iff : TopPrologue ls header ↔ Header ls ∧ header = headerOf ls := by
  constructor
  · rintro (lines | ⟨shebang, below⟩)
    · obtain ⟨hloose, hheader⟩ := prologue_iff.mp lines
      exact ⟨.plain hloose, hheader⟩
    · obtain ⟨hloose, rfl⟩ := prologue_iff.mp below
      exact ⟨.shebang shebang hloose, (headerOf_code (read_shebang shebang)).symm⟩
  · rintro ⟨hheader, rfl⟩
    cases hheader with
    | plain loose => exact .plain (prologue_iff.mpr ⟨loose, rfl⟩)
    | shebang shebang loose =>
      rw [headerOf_code (read_shebang shebang)]
      exact .shebang shebang (prologue_iff.mpr ⟨loose, rfl⟩)

end Prologue

end Line

namespace Region

/-- What is read of a file down to the comments below its block: the header, the statements of the
block in their places in the file, and the whole lines of the comments. -/
structure Extends (region : Region) (comments : Text) (block : Block) : Prop where
  header : TopPrologue (lines region.before) block.header
  statements : block.statements =
    (Block.parse region.block).statements.map (·.lowered (lines region.before).length)
  places : ∀ statement ∈ (Block.parse region.block).statements,
    (statement.lowered (lines region.before).length).lastLine =
      statement.lastLine + (lines region.before).length
  trailing : comments = [] ∧ block.trailing = [] ∨ ∃ first below, WholeBreak first ∧
    comments = first ++ below ∧ block.trailing = lines below

/-- Where the comments directly below the block end. -/
def tail (region : Region) : Nat :=
  region.stop + byteLength (splitTrailingComments region.after).1

variable {text : Text} {region : Region}

theorem stop_le_tail (region : Region) : region.stop ≤ region.tail := Nat.le_add_right _ _

theorem splitAtByte?_tail (found : find? text = some region) :
    splitAtByte? region.tail text =
      some (region.before ++ region.block ++ (splitTrailingComments region.after).1,
        (splitTrailingComments region.after).2) := by
  have htext := text_of_find? found
  rw [Region.text, ← append_splitTrailingComments region.after, ← List.append_assoc] at htext
  rw [tail, stop, ← byteLength_append, ← htext, splitAtByte?_append]

section Closed

variable (closed : region.Closed)

include closed

theorem OfText.last_ne_nil {header block : List Text} {last run rest : Text}
    (h : OfText region header block last run rest) : last ≠ [] := by
  rintro rfl
  have hopen := h.cut.toIsBlock.open_of_blank_last rfl
  have hlines := map_trim_lines_endLines (noFeed_append.mp h.free.2).1 []
  have hnil : lines [] = [] := rfl
  rw [← h.block_eq, hnil, List.map_nil, List.append_nil] at hlines
  rw [Closed, after_of_map_trim .code hlines, hopen] at closed
  contradiction

theorem OfText.map_trim_upto {header block : List Text} {last run rest : Text}
    (h : OfText region header block last run rest) :
    ∃ comments, Mode.CommentRun .code comments ∧
      (lines (region.before ++ region.block ++ (splitTrailingComments region.after).1)).map trim =
        header.map trim ++ ((block ++ [last]).map trim ++ comments.map trim) := by
  have hne := h.last_ne_nil closed
  have hlast := (noFeed_append.mp h.free.2).2 last (List.mem_singleton_self last)
  have hupper : NoFeed (header ++ block) :=
    noFeed_append.mpr ⟨h.free.1, (noFeed_append.mp h.free.2).1⟩
  have hbefore : ∀ lower, region.before ++ region.block ++ lower =
      endLines (header ++ block) ++ (last ++ lower) := by
    intro lower
    rw [h.before_eq, h.block_eq, endLines_append]
    simp only [List.append_assoc]
  have hnone : (lines (region.before ++ region.block ++ [])).map trim =
      header.map trim ++ ((block ++ [last]).map trim ++ ([] : List Text).map trim) := by
    rw [hbefore, List.append_nil, map_trim_lines_endLines hupper, lines_last hlast hne]
    simp
  rw [h.after_eq]
  rcases h.follows with rfl | ⟨below, rfl⟩
  · have hsplit : splitFirst ['\n'] (run ++ []) = none := by
      rw [List.append_nil]
      exact splitFirst_of_not_mem h.feed
    refine ⟨[], Mode.commentRun_nil, ?_⟩
    rw [splitTrailingComments, hsplit]
    exact hnone
  · rcases splitTrailingComments_cases h.feed below with
      hnil | ⟨ls, l, more, hsplit, hlower, hcomments, -⟩
    · refine ⟨[], Mode.commentRun_nil, ?_⟩
      rw [hnil]
      exact hnone
    · obtain ⟨hls, hl⟩ := noFeed_append.mp hlower
      have hend : '\n' ∉ last ++ run := by
        rw [List.mem_append, not_or]
        exact ⟨hlast, h.feed⟩
      have htext : region.before ++ region.block ++ (run ++ '\n' :: (endLines ls ++ l)) =
          endLines (header ++ block ++ [last ++ run] ++ ls) ++ l := by
        rw [hbefore, endLines_append _ ls, endLines_append _ [last ++ run]]
        simp [endLines]
      have hall : NoFeed (header ++ block ++ [last ++ run] ++ ls) := by
        refine noFeed_append.mpr ⟨noFeed_append.mpr ⟨hupper, ?_⟩, hls⟩
        simpa [NoFeed] using hend
      refine ⟨ls ++ [l], hcomments, ?_⟩
      rw [hsplit, htext, map_trim_lines_endLines hall,
        lines_last (hl l (List.mem_singleton_self l)) hcomments.last_ne_nil]
      simp [trim_append_breaks h.breaks]

theorem exists_lines_upto (found : find? text = some region) :
    ∃ header block comments : List Text,
      lines (region.before ++ region.block ++ (splitTrailingComments region.after).1) =
        header ++ (block ++ comments) ∧
      Cut header block [] ∧ Mode.after .code block = .code ∧ Mode.CommentRun .code comments := by
  obtain ⟨header, block, last, run, rest, h⟩ := exists_ofText found
  obtain ⟨comments, hrun, hmap⟩ := h.map_trim_upto closed
  have hsettled : Mode.after .code (block ++ [last]) = .code := by
    rw [← after_of_map_trim .code (h.map_trim_block (h.last_ne_nil closed))]
    exact (isBlock_lines found).after_eq_code closed
  obtain ⟨header', below', hlines, hheader, hbelow⟩ := List.map_eq_append_iff.mp hmap
  obtain ⟨block', comments', rfl, hblock, hcomments⟩ := List.map_eq_append_iff.mp hbelow
  refine ⟨header', block', comments', hlines, ?_, ?_, hrun.of_trim hcomments.symm⟩
  · have hcut := h.cut.of_trim hheader.symm hblock.symm rfl
    exact ⟨hcut.toIsBlock, hcut.settled, hcut.header, by simp [label]⟩
  · rw [after_of_map_trim .code hblock, hsettled]

end Closed

section Found

variable (found : find? text = some region) (paired : PairedReturns text)

include found paired

theorem extends_commentsBelow {comments more : Text} (below : CommentsBelow region comments more) :
    Extends region comments (Block.parse (region.before ++ region.block ++ comments)) := by
  obtain ⟨header, block, last, run, rest, h⟩ := exists_ofText found
  have hblock := parse_block_of_find? found
  rw [parse_upto found below]
  refine ⟨?_, ?_, ?_, ?_⟩
  · exact topPrologue_iff.mpr ⟨header_iff.mpr ⟨h.cut_before.header, h.cut_before.settled⟩, rfl⟩
  · have hread := Block.Below.read_lowered .empty .code 0 (lines region.before).length
      (lines region.block)
    rw [Nat.zero_add] at hread
    rw [hblock]
    exact congrArg Block.Below.statements hread
  · intro statement member
    rw [hblock] at member
    have hnumbered : ∀ line ∈ (label .code (lines region.block)).zipIdx 0, True :=
      fun _ _ => trivial
    have hlines := (Block.Below.forall_lines (p := fun _ => True) hnumbered).2
    exact Statement.lastLine_lowered (hlines statement member).1 _
  · -- The comments begin with the break that ends the block, which is one of their text's.
    have hpaired : PairedReturns comments := by
      have hafter := (paired_parts found paired).2.2
      rw [← append_splitTrailingComments region.after, below.split] at hafter
      exact hafter.of_append_left below.stop
    rcases hpaired.exists_break below.start with rfl | ⟨first, lower, whole, rfl⟩
    · exact .inl ⟨rfl, rfl⟩
    · exact .inr ⟨first, lower, whole, rfl, by
        have hlines := lines_line whole List.not_mem_nil (by simp) lower
        rw [List.nil_append] at hlines
        rw [hlines, List.tail_cons]⟩

/-- The file down to the comments below its block is read as the block is, with the header above
it and the comments. -/
theorem parse_upto_tail : region.stop ≤ region.tail ∧ region.tail ≤ byteLength text ∧
    ∃ comments rest,
      splitAtByte? region.tail text = some (region.before ++ region.block ++ comments, rest) ∧
        Extends region comments (Block.parse (region.before ++ region.block ++ comments)) := by
  obtain ⟨header, block, last, run, rest, h⟩ := exists_ofText found
  obtain ⟨comments, more, below⟩ := h.exists_commentsBelow (paired_parts found paired).2.2
  have hcut := splitAtByte?_tail found
  rw [below.split] at hcut
  obtain ⟨htext, htail⟩ := eq_append_of_splitAtByte? hcut
  refine ⟨stop_le_tail region, ?_, comments, more, hcut, extends_commentsBelow found paired below⟩
  rw [htext, byteLength_append, ← htail]
  exact Nat.le_add_right _ _

end Found

/-- Blank lines are kept inside comments only, and statements have the numbers of their lines in
the file. -/
theorem parse_upto_tail_commented :
    let before := "#! node\r\n\r\n'use strict';\n/* a\r\n\r\n*/ // b\r\n".toList
    let block := "import a from 'a';\r\n\n// c\r\nimport \x7b\n  b \x7d from 'b';".toList
    let comments := "\r\n// d\n/* e\r\n\n*/".toList
    let rest := "\r\n \r\n// f\nrun();".toList
    let text := before ++ block ++ comments ++ rest
    let region : Region := ⟨before, block, comments ++ rest⟩
    find? text = some region ∧ PairedReturns text ∧
      splitAtByte? region.tail text = some (before ++ block ++ comments, rest) ∧
      Extends region comments (Block.parse (before ++ block ++ comments)) ∧
      Block.parse (before ++ block ++ comments) =
        ⟨[.code "#! node".toList, .code "'use strict';".toList, .comment "/* a".toList,
            .comment [], .comment "*/ // b".toList],
          [⟨[], ["import a from 'a';".toList], 6⟩,
            ⟨["// c".toList], ["import \x7b".toList, "  b \x7d from 'b';".toList], 9⟩],
          ["// d".toList, "/* e".toList, [], "*/".toList]⟩ := by
  intro before block comments rest text region
  have hfound : find? text = some region := by decide +kernel
  have hpaired : PairedReturns text := by decide +kernel
  have hcut : splitAtByte? region.tail text = some (before ++ block ++ comments, rest) := by
    decide +kernel
  obtain ⟨-, -, comments', rest', hcut', hextends⟩ := parse_upto_tail hfound hpaired
  rw [hcut, Option.some.injEq, Prod.mk.injEq] at hcut'
  obtain rfl : comments = comments' := List.append_cancel_left hcut'.1
  exact ⟨hfound, hpaired, hcut, hextends, by decide +kernel⟩

end Region
end ImportBlock
