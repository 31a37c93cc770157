import ImportBlock.Proofs.Format.Tail
import ImportBlock.Proofs.Format.Written
import ImportBlock.Proofs.Layout.Separators
import ImportBlock.Proofs.Region.Upto

/-! A document that is written anew, down to the line break that ends it. -/

namespace ImportBlock

open Text Line Layout

namespace Mode

theorem read_blank {mode : Mode} (settled : (mode.read []).2 = .code) :
    (mode.read []).1 = .blank := by
  cases mode with
  | code => rfl
  | comment => contradiction
  | statement depth =>
    simp [read, afterStatementLine, closesStatement, codePart, beforeSlashes] at settled

end Mode

namespace Line

theorem lastFilled_of_label {mode : Mode} {texts : List Text} (settled : mode.after texts = .code)
    (kinds : ∀ line ∈ label mode texts, line.kind ≠ .blank) : LastFilled texts := by
  intro last h
  obtain ⟨front, rfl⟩ := List.getLast?_eq_some_iff.mp h
  rw [← Bool.not_eq_true]
  intro hblank
  have hkind := kinds ⟨((mode.after front).read (trim last)).1, last⟩
    (by simp [label_append, label])
  rw [Mode.after_append, Mode.after, Mode.after, isBlank_iff_trim.mp hblank] at settled
  rw [isBlank_iff_trim.mp hblank] at hkind
  exact hkind (Mode.read_blank settled)

end Line

namespace Layout

variable {settings : Settings} {header : List Text}

theorem lastFilled_headerLines (settings : Settings) (allHeader : AllHeader (label .code header))
    (settled : Mode.after .code header = .code) :
    LastFilled (headerLines settings ((label .code header).filterMap HeaderLine.ofLine?)) := by
  obtain ⟨hlabel, hafter⟩ := label_writtenHeader settings allHeader settled
  rw [headerLines_filterMap]
  change LastFilled (writtenHeader settings header)
  refine lastFilled_of_label hafter fun line member hblank => ?_
  rw [hlabel] at member
  have hkept := (List.mem_filter.mp member).2
  simp [isKept, hblank] at hkept

theorem lastFilled_comments {comments : List Text} (run : Mode.CommentRun .code comments) :
    LastFilled comments := by
  refine lastFilled_of_label run.2 fun line member hblank => ?_
  obtain ⟨done, hkind⟩ := exists_kind_of_isCommentKind (run.1 line member)
  rw [hkind] at hblank
  contradiction

theorem lastFilled_wholeLines {ls : List Text} (whole : Statement.WholeLines ls) :
    LastFilled ls := by
  obtain ⟨first, rest, hlabel, hfirst, hrest⟩ := whole.label_eq
  refine lastFilled_of_label whole.after_eq fun line member hblank => ?_
  rw [hlabel] at member
  rcases List.mem_cons.mp member with rfl | hmem
  · rw [hfirst] at hblank
    contradiction
  · rw [hrest line hmem] at hblank
    contradiction

theorem lastFilled_statementLines (settings : Settings) {statement : Statement}
    (whole : statement.Whole) : LastFilled (statementLines settings statement) := by
  rw [statementLines]
  cases hwrap : wrap settings statement with
  | none => exact (lastFilled_wholeLines whole.lines).append_of_ne_nil whole.lines.ne_nil _
  | some ls =>
    obtain ⟨before, inside, after, -, -, rfl⟩ := exists_of_wrap hwrap
    refine LastFilled.append_of_ne_nil ?_ (List.cons_ne_nil _ _) _
    exact fun line h => filled_bracedLines line (List.mem_of_getLast? h)

theorem lastFilled_flatMap {statements : List Statement} {f : Statement → List Text}
    (filled : ∀ statement ∈ statements, LastFilled (f statement)) :
    LastFilled (statements.flatMap f) := by
  induction statements with
  | nil => simp [LastFilled]
  | cons statement rest ih =>
    obtain ⟨hstatement, hrest⟩ := List.forall_mem_cons.mp filled
    rw [List.flatMap_cons]
    exact hstatement.append (ih hrest)

theorem lastFilled_blockLines {block : Block} {group : Category → List Statement}
    (header : LastFilled (headerLines settings block.header))
    (whole : ∀ category, ∀ statement ∈ group category, statement.Whole)
    (trailing : LastFilled block.trailing) : LastFilled (blockLines settings block group) := by
  have hlines : ∀ category, ∀ statement ∈ group category, statement.lines ≠ [] :=
    fun category statement member => (whole category statement member).lines.ne_nil
  rw [blockLines_eq_intercalate settings block hlines]
  refine LastFilled.append (LastFilled.intercalate fun part member => ?_) ?_
  · rcases mem_sections member with ⟨rfl, hne⟩ | ⟨category, hne, rfl⟩
    · exact ⟨hne, header⟩
    · refine ⟨linesOfGroup_ne_nil hne (hlines category), ?_⟩
      exact lastFilled_flatMap fun statement hstatement => lastFilled_statementLines settings
        (whole category statement ((Statement.sublist_distinct _).subset hstatement))
  · rw [keptTrailing]
    split
    · exact trailing
    · simp [LastFilled]

end Layout

namespace Text

theorem endsInText_joinWith {separator : Text} (whole : WholeBreak separator) {ls : List Text}
    (free : NoFeed ls) (filled : LastFilled ls) :
    joinWith separator ls = [] ∨ EndsInText (joinWith separator ls) := by
  rcases List.eq_nil_or_concat' ls with rfl | ⟨init, last, rfl⟩
  · exact .inl rfl
  · right
    refine ⟨init.flatMap (· ++ separator), last, joinWith_append_singleton separator init last, ?_,
      free last (by simp), filled last List.getLast?_concat⟩
    rcases List.eq_nil_or_concat' init with rfl | ⟨front, line, rfl⟩
    · exact .inl rfl
    · obtain ⟨gap, -, rfl⟩ := whole.exists_gap
      exact .inr ⟨front.flatMap (· ++ (gap ++ ['\n'])) ++ (line ++ gap), by simp⟩

theorem endsInText_append {header kept : Text} (upper : header = [] ∨ EndsInText header)
    (lower : kept = [] ∨ EndsInText kept) :
    let body := if header = [] then kept.dropWhile isBreak else kept
    header ++ body = [] ∨ EndsInText (header ++ body) := by
  intro body
  rcases upper with hnil | hends
  · have hbody : body = kept.dropWhile isBreak := if_pos hnil
    rw [hbody, hnil, List.nil_append]
    rcases lower with rfl | hsome
    · exact .inl rfl
    · exact .inr hsome.dropWhile_isBreak
  · have hbody : body = kept := if_neg hends.ne_nil
    rw [hbody]
    rcases lower with rfl | hsome
    · rw [List.append_nil]
      exact .inr hends
    · exact .inr (hsome.append header)

end Text

namespace Format

/-- A document in two parts: what is written anew of `upto`, and what is left of `rest` without the
blank lines at its end. With nothing written no line break stands above it either. -/
structure WrittenAnew (settings : Settings) (unused : List Text) (separator upto rest : Text)
    (header body : Text) : Prop where
  whole : WholeBreak separator
  written : header = joinWith separator (blockLines settings (Block.parse upto)
    (Format.group settings (Statement.prune unused (Block.parse upto).statements)))
  kept : ∃ kept, Trimmed rest kept ∧
    body = if header = [] then kept.dropWhile isBreak else kept
  ends : header ++ body = [] ∨ EndsInText (header ++ body)

variable {settings : Settings} {unused : List Text} {text : Text} {region : Region}

section Found

variable (found : Region.find? text = some region) (closed : region.Closed)

include found closed

/-- The lines that are written anew hold no line breaks, and the last of them is not blank. -/
theorem lastFilled_upto (settings : Settings) (unused : List Text) :
    let block := Block.parse
      (region.before ++ region.block ++ (splitTrailingComments region.after).1)
    let lines := blockLines settings block
      (Format.group settings (Statement.prune unused block.statements))
    NoFeed lines ∧ LastFilled lines := by
  obtain ⟨header, block, comments, hlines, hcut, hafter, hrun⟩ :=
    Region.exists_lines_upto closed found
  have hfree := noFeed_lines
    (region.before ++ region.block ++ (splitTrailingComments region.after).1)
  rw [Block.parse_of_isBlock hlines hcut.settled hcut.header hcut.toIsBlock hrun fun _ => hafter]
  rw [hlines] at hfree
  obtain ⟨hheader, hbelow⟩ := noFeed_append.mp hfree
  obtain ⟨hblock, hcomments⟩ := noFeed_append.mp hbelow
  set statements := (Block.Below.empty.read .code header.length block).statements with hread
  have hkept : ∀ category,
      ∀ statement ∈ Format.group settings (Statement.prune unused statements) category,
        statement ∈ statements :=
    fun category statement member => List.mem_of_mem_filter (mem_group.mp member).1
  refine ⟨?_, ?_⟩
  · refine not_mem_blockLines (by decide) (by decide) ?_ ?_ hcomments
    · intro line member
      rw [headerLines_filterMap] at member
      exact hheader line (mem_of_mem_writtenHeader member)
    · intro category statement member line hline
      exact hblock line (Block.Below.mem_of_mem_source header.length hcut.inside
        (hkept category statement member) hline)
  · have hwhole : ∀ statement ∈ statements, statement.Whole :=
      (Block.Below.fits_read hcut.inside hafter).whole
    exact lastFilled_blockLines (lastFilled_headerLines settings hcut.header hcut.settled)
      (fun category statement member => hwhole statement (hkept category statement member))
      (lastFilled_comments hrun)

theorem rendered_upto (unused : List Text) (mode : settings.wholeDocument = true) :
    let block := Block.parse
      (region.before ++ region.block ++ (splitTrailingComments region.after).1)
    rendered settings unused region = joinWith (lineBreak text) (blockLines settings block
      (Format.group settings (Statement.prune unused block.statements))) := by
  intro block
  have hblock : Format.block settings region = block := by
    rw [Format.block, extent_of_wholeDocument mode]
  have hgroup : keptGroup settings unused region =
      Format.group settings (Statement.prune unused block.statements) := by
    rw [keptGroup_eq, hblock]
  have hfree := (lastFilled_upto found closed settings unused).1
  rw [rendered, hgroup, hblock, render, replaceChar_joinWith _ hfree, Region.text_of_find? found]

/-- A document that is written anew keeps what stands below its imports and ends in one line
break. -/
theorem formatted_writtenAnew (unused : List Text) (mode : settings.wholeDocument = true) :
    ∃ upto rest header body, splitAtByte? region.tail text = some (upto, rest) ∧
      WrittenAnew settings unused (lineBreak text) upto rest header body ∧
      formatted settings unused text = header ++ body ++ lineBreak text := by
  obtain ⟨hfree, hfilled⟩ := lastFilled_upto found closed settings unused
  have hrendered := rendered_upto found closed unused mode
  have hwhole := wholeBreak_lineBreak text
  set header := rendered settings unused region with hheader
  set kept := dropBlankTail (splitTrailingComments region.after).2 with hkept
  have htrimmed : Trimmed (splitTrailingComments region.after).2 kept := trimmed_iff.mpr hkept
  have hends : header = [] ∨ EndsInText header := by
    rw [hrendered]
    exact endsInText_joinWith hwhole hfree hfilled
  refine ⟨_, _, header, if header = [] then kept.dropWhile isBreak else kept,
    Region.splitAtByte?_tail found,
    ⟨hwhole, hrendered, ⟨kept, htrimmed, rfl⟩, endsInText_append hends htrimmed.endsInText⟩, ?_⟩
  rw [formatted_of_find? found, replacement_of_wholeDocument mode, Replacement.result,
    List.nil_append, List.append_nil, Region.text_of_find? found]

end Found

/-- With the only import unused nothing is left above the code, and white space behind the code
stays down to its line break. -/
theorem formatted_writtenAnew_pruned :
    let settings : Settings := { wholeDocument := true, trailingComments := .discard }
    let region : Region := ⟨[], "import b from 'b';".toList,
      "\r\n// b\r\n\n\rrun();\t\r\t\r\r\n \t\n\r".toList⟩
    Region.find? region.text = some region ∧ region.Closed ∧ settings.wholeDocument = true ∧
      (∃ upto rest header body, splitAtByte? region.tail region.text = some (upto, rest) ∧
        WrittenAnew settings ["b".toList] (lineBreak region.text) upto rest header body ∧
        formatted settings ["b".toList] region.text = header ++ body ++ lineBreak region.text) ∧
      formatted settings ["b".toList] region.text = "run();\t\r\t\r\n".toList := by
  intro settings region
  have hfound : Region.find? region.text = some region := by decide +kernel
  have hclosed : region.Closed := by decide +kernel
  refine ⟨hfound, hclosed, rfl, formatted_writtenAnew hfound hclosed _ rfl, ?_⟩
  rw [formatted_of_find? hfound, replacement, rendered, keptGroup_eq, group_eq_insertionSort]
  decide +kernel

end Format
end ImportBlock
