import ImportBlock.Proofs.Declaration.Wrapped
import ImportBlock.Proofs.Format.Preservation
import ImportBlock.Proofs.Format.Written
import ImportBlock.Proofs.Layout.NonBlank

/-! When no two statements of a formatted text are alike. -/

namespace ImportBlock

open Text Line Layout

namespace Format

variable {settings : Settings} {statements : List Statement} {text : Text} {region : Region}

theorem flatten_writtenGroups (settings : Settings) (statements : List Statement) :
    (writtenGroups settings statements).flatten =
      (arranged settings statements).flatten.map (Statement.written settings) := by
  rw [writtenGroups, List.map_flatten]

theorem lines_written_of_rawText {left right : Statement} (hleft : NoFeed left.lines)
    (hright : NoFeed right.lines) (nleft : left.lines ≠ []) (nright : right.lines ≠ [])
    (same : left.rawText = right.rawText) :
    (left.written settings).lines = (right.written settings).lines := by
  have hlines := joinWith_injective hleft hright nleft nright same
  rw [Statement.written, Statement.written, wrap_of_lines hlines]
  dsimp only
  rw [hlines]

/-- The written statements differ if and only if no two texts are written alike. -/
theorem nodup_writtenGroups_iff (valid : settings.validate = .ok ())
    (free : ∀ statement ∈ statements, NoFeed statement.lines ∧ statement.lines ≠ [])
    (written : ∀ statement ∈ statements, NoFeed (statement.written settings).lines) :
    ((writtenGroups settings statements).flatten.map Statement.rawText).Nodup ↔
      ∀ left ∈ statements, ∀ right ∈ statements,
        (left.written settings).lines = (right.written settings).lines →
          left.rawText = right.rawText := by
  have hnodup := nodup_arranged valid free
  have hmem : ∀ statement ∈ (arranged settings statements).flatten, statement ∈ statements := by
    intro statement member
    obtain ⟨group, hgroup, hstatement⟩ := List.mem_flatten.mp member
    exact mem_of_mem_arranged hgroup statement hstatement
  have hlines : ∀ left ∈ statements, ∀ right ∈ statements, left.rawText = right.rawText →
      (left.written settings).lines = (right.written settings).lines :=
    fun left hleft right hright => lines_written_of_rawText (free left hleft).1
      (free right hright).1 (free left hleft).2 (free right hright).2
  rw [flatten_writtenGroups, List.map_map, List.nodup_map_iff_inj_on hnodup.of_map]
  constructor
  · -- Each statement stands for one of the same text that is kept.
    intro injective left hleft right hright same
    obtain ⟨left', hleft', hsameLeft⟩ := exists_mem_arranged valid hleft
    obtain ⟨right', hright', hsameRight⟩ := exists_mem_arranged valid hright
    have hwritten : (left'.written settings).lines = (right'.written settings).lines := by
      rw [hlines left' (hmem left' hleft') left hleft hsameLeft, same,
        hlines right' (hmem right' hright') right hright hsameRight]
    have hequal := injective left' hleft' right' hright'
      (congrArg (joinWith ['\n']) hwritten)
    rw [← hsameLeft, hequal, hsameRight]
  · intro apart left hleft right hright same
    have hwritten := joinWith_injective (written left (hmem left hleft))
      (written right (hmem right hright)) (written_ne_nil (free left (hmem left hleft)).2)
      (written_ne_nil (free right (hmem right hright)).2) same
    exact List.inj_on_of_nodup_map hnodup hleft hright
      (apart left (hmem left hleft) right (hmem right hright) hwritten)

theorem map_rawText_read
    (whole : ∀ statement ∈ (writtenGroups settings statements).flatten, statement.Whole) :
    (Block.Below.empty.read .code 0 (groupLines (gap settings) false
        (clearFirst (writtenGroups settings statements)))).statements.map Statement.rawText =
      (writtenGroups settings statements).flatten.map Statement.rawText := by
  obtain ⟨readBack, hread, hsame⟩ := Block.Below.read_groupLines Block.Below.empty 0 false
    (blank_gap settings) (whole_clearFirst whole) rfl
  have hraw : Statement.rawText ∘ Statement.bare = Statement.rawText :=
    funext Statement.rawText_bare
  have hbare := congrArg (·.flatten.map Statement.rawText) (Tidy.map_bare_eq hsame)
  simp only [← List.map_flatten, List.map_map, hraw] at hbare
  rw [hread]
  simpa [Block.Below.empty] using hbare

section Found

variable (found : Region.find? text = some region) (paired : PairedReturns text)

include found paired

theorem free_source_of_paired : ∀ statement ∈ (Block.parse region.block).statements,
    ∀ line ∈ statement.source, '\n' ∉ line ∧ '\r' ∉ line := by
  rw [Region.parse_block_of_find? found]
  exact Region.free_statements found paired 0

variable (closed : region.Closed) (valid : settings.validate = .ok ())
  (mode : settings.wholeDocument = false)
  (declared : ∀ statement ∈ (Block.parse region.block).statements, statement.IsDeclared settings)

include closed valid mode declared

/-- The written statements are found in the formatted text as they were written. -/
theorem exists_region_formatted : ∃ new,
    Region.find? (formatted settings [] text) = some new ∧
      (Block.parse new.block).statements.map Statement.rawText =
        (writtenGroups settings (Block.parse region.block).statements).flatten.map
          Statement.rawText := by
  obtain ⟨header, block, last, run, rest, h⟩ := Region.exists_ofText found
  have hformatted := formatted_of_closed found closed valid mode
  have hne := (Region.parse_block_of_found found).2.2.1
  have hfree := free_source_of_paired found paired
  have hstatements := whole_of_closed found closed
  generalize (Block.parse region.block).statements = statements at *
  have hwhole : ∀ statement ∈ (writtenGroups settings statements).flatten, statement.Whole := by
    intro statement member
    obtain ⟨original, horiginal, rfl⟩ := exists_of_mem_writtenGroups member
    exact (declared original horiginal).whole_written (hstatements original horiginal)
  have hwritten : ∀ statement ∈ (writtenGroups settings statements).flatten,
      ∀ line ∈ statement.source, '\n' ∉ line ∧ '\r' ∉ line := by
    intro statement member
    obtain ⟨original, horiginal, rfl⟩ := exists_of_mem_writtenGroups member
    exact free_statementLines (hfree original horiginal)
  have hlines : ∀ line ∈ groupLines (gap settings) false (writtenGroups settings statements),
      '\n' ∉ line ∧ '\r' ∉ line := noFeed_groupLines hwritten
  rw [groupLines_clearFirst] at hlines
  have hblock := isBlock_groupLines (blank_gap settings) (whole_clearFirst hwhole)
    (clearFirst_ne_nil (writtenGroups_ne_nil valid hne)) (firstComments_clearFirst _)
  have hafter := (Mode.BlockRun.groupLines false (blank_gap settings)
    (whole_clearFirst hwhole)).after
  have hnew := h.find?_replaced (wholeBreak_lineBreak text) (commentRun_firstComments hwhole) hblock
    hafter (fun line member => (hlines line member).1)
    fun line member => (hlines line (List.mem_append_right _ member)).2
  refine ⟨⟨region.before ++ (firstComments (writtenGroups settings statements)).flatMap
    (· ++ lineBreak text), joinWith (lineBreak text) (groupLines (gap settings) false
      (clearFirst (writtenGroups settings statements))), region.after⟩, ?_, ?_⟩
  · rw [hformatted, writtenLines, groupLines_clearFirst, joinWith_append_lines _ _ hblock.ne_nil]
    simpa only [Region.text, List.append_assoc] using hnew
  · rw [Region.parse_block_of_find? hnew, lines_joinWith_break (wholeBreak_lineBreak text)
      (fun line member => hlines line (List.mem_append_right _ member))
      (hblock.endsFilled hafter), map_rawText_read hwhole]

/-- No two statements of the formatted text are alike if and only if none of different text were
written in the same lines. -/
theorem nodup_formatted_iff : ∃ new, Region.find? (formatted settings [] text) = some new ∧
    (((Block.parse new.block).statements.map Statement.rawText).Nodup ↔
      ∀ left ∈ (Block.parse region.block).statements,
        ∀ right ∈ (Block.parse region.block).statements,
          (left.written settings).lines = (right.written settings).lines →
            left.rawText = right.rawText) := by
  obtain ⟨new, hnew, hstatements⟩ :=
    exists_region_formatted found paired closed valid mode declared
  have hfree := free_source_of_paired found paired
  have hwhole := whole_of_closed found closed
  refine ⟨new, hnew, ?_⟩
  rw [hstatements]
  refine nodup_writtenGroups_iff valid (fun statement member => ⟨fun line hline => ?_, ?_⟩)
    fun statement member line hline => ?_
  · exact (hfree statement member line (List.mem_append_right _ hline)).1
  · exact (hwhole statement member).lines.ne_nil
  · exact (free_statementLines (hfree statement member) line (List.mem_append_right _ hline)).1

end Found

def named (before after : Gap) : Declaration where
  space := .blank
  front? := some {
    type? := none
    clause := .bundle (.braces (.more before ⟨none, .ofWord "p", none⟩ .empty
      (.last before ⟨none, .ofWord "q", none⟩ after)))
    before := .blank
    after := .blank }
  source := { Declaration.lodash.source with
    text := ['x']
    closed := by decide
    line := by decide
    noFrom := by decide }
  semicolon? := some .empty

def oneLine : Declaration := named Space.blank.toGap Space.blank.toGap

def noted : Region where
  before := endLines ["// top".toList]
  block := joinWith ['\n'] (["import \x7b p, q \x7d from \"x\"; // wanted",
    "import \x7b p, q \x7d from \"x\";", "import \x7b p, q \x7d from \"x\";"].map String.toList)
  after := "\nrun();\n".toList

theorem nodup_formatted_noted :
    let settings : Settings := { maxLineLength := 20 }
    Region.find? noted.text = some noted ∧ PairedReturns noted.text ∧ noted.Closed ∧
      settings.validate = .ok () ∧ settings.wholeDocument = false ∧
      (∀ statement ∈ (Block.parse noted.block).statements, statement.IsDeclared settings) ∧
      ∃ new, Region.find? (formatted settings [] noted.text) = some new ∧
        ((Block.parse new.block).statements.map Statement.rawText).Nodup := by
  intro settings
  have hfound : Region.find? noted.text = some noted := by decide +kernel
  have hpaired : PairedReturns noted.text := by decide +kernel
  have hclosed : noted.Closed := by decide +kernel
  have hdeclared : ∀ statement ∈ (Block.parse noted.block).statements,
      statement.IsDeclared settings :=
    Statement.isDeclared_of_texts [(oneLine, .remark Declaration.wanted),
      (oneLine, .blank .empty), (oneLine, .blank .empty)]
      (by decide +kernel) (by decide +kernel)
  obtain ⟨new, hnew, hiff⟩ := nodup_formatted_iff hfound hpaired hclosed rfl rfl hdeclared
  exact ⟨hfound, hpaired, hclosed, rfl, rfl, hdeclared, new, hnew,
    hiff.mpr (by decide +kernel)⟩

def renditions : Region where
  before := []
  block := joinWith ['\n'] (["import \x7b p, q \x7d from \"x\";", "import \x7b", "  p,", "  q",
    "\x7d from \"x\";"].map String.toList)
  after := ['\n']

/-- Both are written in the same lines. -/
theorem repeated_renditions :
    let settings : Settings := { maxLineLength := 20 }
    let written := "import \x7b\n  p,\n  q\n\x7d from \"x\";".toList
    Region.find? renditions.text = some renditions ∧ PairedReturns renditions.text ∧
      renditions.Closed ∧ settings.validate = .ok () ∧ settings.wholeDocument = false ∧
      (∀ statement ∈ (Block.parse renditions.block).statements, statement.IsDeclared settings) ∧
      ∃ new, Region.find? (formatted settings [] renditions.text) = some new ∧
        (Block.parse new.block).statements.map Statement.rawText = [written, written] := by
  intro settings written
  have hfound : Region.find? renditions.text = some renditions := by decide +kernel
  have hdeclared : ∀ statement ∈ (Block.parse renditions.block).statements,
      statement.IsDeclared settings :=
    Statement.isDeclared_of_texts [(oneLine, .blank .empty),
      (named ⟨"\n  ".toList, forall_of_all (by decide)⟩ ⟨['\n'], forall_of_all (by decide)⟩,
        .blank .empty)]
      (by decide +kernel) (by decide +kernel)
  have hformatted : formatted settings [] renditions.text =
      joinWith ['\n'] [written, written] ++ ['\n'] := by
    rw [formatted_of_find? hfound, replacement, rendered, keptGroup_eq, group_eq_insertionSort]
    decide +kernel
  refine ⟨hfound, by decide +kernel, by decide +kernel, rfl, rfl, hdeclared,
    ⟨[], joinWith ['\n'] [written, written], ['\n']⟩, ?_, by decide +kernel⟩
  rw [hformatted]
  decide +kernel

end Format
end ImportBlock
