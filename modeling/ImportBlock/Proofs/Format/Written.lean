import ImportBlock.Proofs.Format.Wrapping
import ImportBlock.Proofs.Region.Replaced
import ImportBlock.Proofs.Region.Unfinished

namespace ImportBlock

open Text Layout

namespace Text

theorem replaceChar_joinWith (new : Text) {ls : List Text} (free : NoFeed ls) :
    replaceChar '\n' new (joinWith ['\n'] ls) = joinWith new ls := by
  have hline : ∀ l : Text, '\n' ∉ l → replaceChar '\n' new l = l := by
    intro l hl
    rw [replaceChar]
    induction l with
    | nil => rfl
    | cons c rest ih =>
      rw [List.mem_cons, not_or] at hl
      rw [List.flatMap_cons, if_neg (Ne.symm hl.1), ih hl.2]
      rfl
  induction ls with
  | nil => rfl
  | cons l rest ih =>
    obtain ⟨hl, hrest⟩ := noFeed_cons.mp free
    by_cases hnil : rest = []
    · rw [hnil, joinWith, joinWith, hline l hl]
    · have happend : ∀ upper lower : Text, replaceChar '\n' new (upper ++ lower) =
          replaceChar '\n' new upper ++ replaceChar '\n' new lower :=
        fun upper lower => List.flatMap_append
      have hfeed : replaceChar '\n' new ['\n'] = new := List.append_nil new
      rw [joinWith_cons hnil, joinWith_cons hnil, happend, happend, hline l hl, hfeed, ih hrest]

theorem joinWith_ne_nil_of_mem {separator line : Text} {ls : List Text} (member : line ∈ ls)
    (ne : line ≠ []) : joinWith separator ls ≠ [] := by
  obtain ⟨c, rest, rfl⟩ := List.exists_cons_of_ne_nil ne
  exact List.ne_nil_of_mem (mem_joinWith separator member List.mem_cons_self)

end Text

namespace Statement.WholeLines

variable {ls : List Text}

theorem isBlock (h : WholeLines ls) : Region.IsBlock ls where
  opens := by
    obtain ⟨first, rest, hlabel, hfirst, -⟩ := h.label_eq
    exact ⟨first, rest, hlabel, hfirst⟩
  inside := (Mode.BlockRun.of_wholeLines h).inside
  ends := (Mode.BlockRun.of_wholeLines h).ends

theorem endsFilled (h : WholeLines ls) : EndsFilled ls := h.isBlock.endsFilled h.after_eq

end Statement.WholeLines

namespace Layout

theorem endsFilled_groupLines {gap : List Text} {started : Bool} {groups : List (List Statement)}
    (ne : groups.flatten ≠ [])
    (filled : ∀ statement ∈ groups.flatten, EndsFilled statement.source) :
    EndsFilled (groupLines gap started groups) := by
  induction groups generalizing started with
  | nil => contradiction
  | cons group groups ih =>
    have hrest : groups.flatten ≠ [] → ∀ started, EndsFilled (groupLines gap started groups) :=
      fun ne started => ih ne fun statement member =>
        filled statement (List.mem_append_right _ member)
    rw [groupLines]
    by_cases hnil : groups.flatten = []
    · have hgroup : group ≠ [] := by
        rintro rfl
        exact ne hnil
      obtain ⟨init, last, rfl⟩ := (List.eq_nil_or_concat' group).resolve_left hgroup
      have hlast := filled last (by simp)
      have hbelow : groupLines gap true groups = [] := by
        rw [groupLines_started, groupLines_of_flatten hnil, hnil]
        rfl
      rw [if_neg (by simp), hbelow, List.append_nil, List.flatMap_append, List.flatMap_singleton]
      exact (hlast.append _).append _
    · split
      · exact hrest hnil started
      · exact (hrest hnil true).append _

end Layout

namespace Format

variable {settings : Settings} {statements : List Statement} {text : Text} {region : Region}

def writtenLines (settings : Settings) (statements : List Statement) : List Text :=
  groupLines (gap settings) false (writtenGroups settings statements)

theorem endsFilled_written (settings : Settings) {statement : Statement} (whole : statement.Whole) :
    EndsFilled (statement.written settings).lines := by
  cases hwrap : wrap settings statement with
  | none =>
    rw [written_eq_self hwrap]
    exact whole.lines.endsFilled
  | some ls =>
    obtain ⟨before, inside, after, -, -, rfl⟩ := exists_of_wrap hwrap
    rw [Statement.written, hwrap]
    exact ⟨_, '}' :: trimEnd after, rfl, List.cons_ne_nil _ _⟩

theorem exists_ne_nil_written (settings : Settings) {statement : Statement}
    (filled : ∃ line ∈ statement.lines, line ≠ []) :
    ∃ line ∈ (statement.written settings).lines, line ≠ [] := by
  cases hwrap : wrap settings statement with
  | none => rwa [written_eq_self hwrap]
  | some ls =>
    obtain ⟨before, inside, after, -, -, rfl⟩ := exists_of_wrap hwrap
    rw [Statement.written, hwrap]
    exact ⟨before ++ ['{'], List.mem_cons_self, by simp⟩

theorem noFeed_writtenLines (free : ∀ statement ∈ statements, NoFeed statement.source) :
    NoFeed (writtenLines settings statements) := by
  intro line member
  rcases mem_of_mem_groupLines member with hgap | ⟨statement, hstatement, hline⟩
  · rw [gap] at hgap
    split at hgap
    · simp [List.mem_singleton.mp hgap]
    · contradiction
  · obtain ⟨original, horiginal, rfl⟩ := exists_of_mem_writtenGroups hstatement
    exact not_mem_statementLines (by decide) (by decide) (free original horiginal) line hline

theorem rendered_of_parse (mode : settings.wholeDocument = false)
    (parse : Block.parse region.block = ⟨[], statements, []⟩)
    (ne : ∀ statement ∈ statements, statement.lines ≠ [])
    (free : ∀ statement ∈ statements, NoFeed statement.source) :
    rendered settings [] region =
      joinWith (lineBreak region.text) (writtenLines settings statements) := by
  have hblock : Format.block settings region = ⟨[], statements, []⟩ := by
    rw [block_of_inPlace mode, parse]
  have hkept : keptGroup settings [] region = Format.group settings statements := by
    rw [keptGroup_eq, hblock, Statement.prune_nil]
  have hlines : blockLines settings ⟨[], statements, []⟩ (Format.group settings statements) =
      writtenLines settings statements := by
    rw [blockLines_eq _ fun statement member => written_ne_nil (ne statement member)]
    cases htrailing : settings.trailingComments <;>
      simp [keptTrailing, htrailing, headerLines, writtenLines, writtenGroups]
  rw [rendered, hkept, hblock, render, hlines, replaceChar_joinWith _ (noFeed_writtenLines free)]

section Closed

variable (found : Region.find? text = some region) (closed : region.Closed)

include found closed

theorem after_of_closed : Mode.after .code (lines region.block) = .code :=
  (Region.isBlock_lines found).after_eq_code closed

theorem whole_of_closed :
    ∀ statement ∈ (Block.parse region.block).statements, statement.Whole := by
  rw [Region.parse_block_of_find? found]
  exact (Block.Below.fits_read (Region.isBlock_lines found).inside
    (after_of_closed found closed)).whole

theorem endsFilled_writtenLines (valid : settings.validate = .ok ()) :
    EndsFilled (writtenLines settings (Block.parse region.block).statements) := by
  have hne := (Region.parse_block_of_found found).2.2.1
  refine endsFilled_groupLines (writtenGroups_ne_nil valid hne) fun statement member => ?_
  obtain ⟨original, horiginal, rfl⟩ := exists_of_mem_writtenGroups member
  exact (endsFilled_written settings (whole_of_closed found closed original horiginal)).append _

theorem formatted_of_closed (valid : settings.validate = .ok ())
    (mode : settings.wholeDocument = false) : formatted settings [] text =
      region.before ++ (joinWith (lineBreak text)
        (writtenLines settings (Block.parse region.block).statements) ++ region.after) := by
  have hparse := Region.parse_block_of_find? found
  have hwhole := whole_of_closed found closed
  have hfree := Region.noFeed_source_of_find? found
  have hfilled := endsFilled_writtenLines found closed valid
  rw [hparse] at hwhole hfree hfilled ⊢
  have hrendered := rendered_of_parse mode hparse
    (fun statement member => (hwhole statement member).lines.ne_nil) hfree
  rw [Region.text_of_find? found] at hrendered
  have hsome : rendered settings [] region ≠ [] := hrendered ▸ hfilled.joinWith_ne_nil _
  rw [formatted_of_find? found, replacement_inPlace mode hsome, Replacement.result, hrendered,
    List.append_assoc]

end Closed

end Format
end ImportBlock
