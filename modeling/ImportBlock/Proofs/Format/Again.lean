import ImportBlock.Proofs.Layout.Lines
import ImportBlock.Proofs.Region.Lines

namespace ImportBlock

open Text Line Layout

namespace Format

/-- The groups in the lines they are written in. -/
def writtenGroups (settings : Settings) (statements : List Statement) : List (List Statement) :=
  (arranged settings statements).map (·.map (Statement.written settings))

/-- Each statement is written in lines that are read as the same statement, and no two statements
are written alike. -/
structure Tidy (settings : Settings) (statements : List Statement) : Prop where
  whole : ∀ statement ∈ statements, (statement.written settings).Whole
  normal : ∀ statement ∈ statements, (statement.written settings).normal = statement.normal
  again : ∀ statement ∈ statements, Layout.wrap settings (statement.written settings) = none
  apart : ∀ left ∈ statements, ∀ right ∈ statements,
    (left.written settings).rawText = (right.written settings).rawText →
      left.rawText = right.rawText
  free : ∀ statement ∈ statements, ∀ line ∈ (statement.written settings).source,
    '\n' ∉ line ∧ '\r' ∉ line

variable {settings : Settings} {statements : List Statement}

theorem written_eq_self {statement : Statement} (none : Layout.wrap settings statement = none) :
    statement.written settings = statement := by
  rw [Statement.written, none]
  rfl

theorem wrap_of_lines {left right : Statement} (same : left.lines = right.lines) :
    Layout.wrap settings left = Layout.wrap settings right := by
  simp only [Layout.wrap, same]

theorem exists_of_mem_writtenGroups {statement : Statement}
    (member : statement ∈ (writtenGroups settings statements).flatten) :
    ∃ original ∈ statements, statement = original.written settings := by
  rcases List.mem_flatten.mp member with ⟨group, hgroup, hmem⟩
  rcases List.mem_map.mp hgroup with ⟨group', hgroup', rfl⟩
  rcases List.mem_map.mp hmem with ⟨original, horiginal, rfl⟩
  exact ⟨original, mem_of_mem_arranged hgroup' original horiginal, rfl⟩

theorem writtenGroups_ne_nil (valid : settings.validate = .ok ()) (ne : statements ≠ []) :
    (writtenGroups settings statements).flatten ≠ [] := by
  rcases List.exists_cons_of_ne_nil ne with ⟨statement, rest, rfl⟩
  rcases exists_mem_arranged valid List.mem_cons_self with ⟨kept, hkept, -⟩
  rcases List.mem_flatten.mp hkept with ⟨group, hgroup, hmem⟩
  have hwritten : kept.written settings ∈ (writtenGroups settings (statement :: rest)).flatten :=
    List.mem_flatten.mpr ⟨group.map (Statement.written settings),
      List.mem_map_of_mem hgroup, List.mem_map_of_mem hmem⟩
  exact List.ne_nil_of_mem hwritten

theorem noFeed_groupLines {started : Bool} {groups : List (List Statement)}
    (free : ∀ statement ∈ groups.flatten, ∀ line ∈ statement.source, '\n' ∉ line ∧ '\r' ∉ line) :
    ∀ line ∈ groupLines (gap settings) started groups, '\n' ∉ line ∧ '\r' ∉ line := by
  intro line member
  rcases mem_of_mem_groupLines member with hgap | ⟨statement, hstatement, hline⟩
  · rw [gap] at hgap
    split at hgap
    · rw [List.mem_singleton.mp hgap]
      simp
    · contradiction
  · exact free statement hstatement line hline

namespace Tidy

variable (tidy : Tidy settings statements)

include tidy

theorem ne_nil : ∀ statement ∈ statements, (statement.written settings).lines ≠ [] :=
  fun statement member => (tidy.whole statement member).lines.ne_nil

theorem whole_writtenGroups : ∀ statement ∈ (writtenGroups settings statements).flatten,
    statement.Whole := by
  intro statement member
  rcases exists_of_mem_writtenGroups member with ⟨original, horiginal, rfl⟩
  exact tidy.whole original horiginal

theorem free_writtenGroups : ∀ statement ∈ (writtenGroups settings statements).flatten,
    ∀ line ∈ statement.source, '\n' ∉ line ∧ '\r' ∉ line := by
  intro statement member
  rcases exists_of_mem_writtenGroups member with ⟨original, horiginal, rfl⟩
  exact tidy.free original horiginal

theorem free_firstComments : ∀ line ∈ firstComments (writtenGroups settings statements),
    '\n' ∉ line ∧ '\r' ∉ line := by
  intro line member
  rcases mem_firstComments member with ⟨original, horiginal, hmem⟩
  exact tidy.free_writtenGroups original horiginal line hmem

theorem free_written : ∀ line ∈ groupLines (gap settings) false
    (clearFirst (writtenGroups settings statements)), '\n' ∉ line ∧ '\r' ∉ line := by
  apply noFeed_groupLines
  intro statement member line hline
  rcases mem_source_clearFirst member hline with ⟨original, horiginal, hmem⟩
  exact tidy.free_writtenGroups original horiginal line hmem

theorem after_written : Mode.after .code
    (groupLines (gap settings) false (clearFirst (writtenGroups settings statements))) = .code :=
  (Mode.BlockRun.groupLines false (blank_gap settings)
    (whole_clearFirst tidy.whole_writtenGroups)).after

theorem isBlock_written (valid : settings.validate = .ok ()) (ne : statements ≠ []) :
    Region.IsBlock (groupLines (gap settings) false
      (clearFirst (writtenGroups settings statements))) :=
  isBlock_groupLines (blank_gap settings) (whole_clearFirst tidy.whole_writtenGroups)
    (clearFirst_ne_nil (writtenGroups_ne_nil valid ne)) (firstComments_clearFirst _)

theorem exists_groups (n : Nat) :
    ∃ groups : List (List Statement), (Block.Below.empty.read .code n (groupLines (gap settings)
        false (clearFirst (writtenGroups settings statements)))).statements = groups.flatten ∧
      groups.map (·.map Statement.unnumbered) =
        (clearFirst (writtenGroups settings statements)).map (·.map Statement.unnumbered) := by
  obtain ⟨groups, hread, hsame⟩ := Block.Below.read_groupLines Block.Below.empty n false
    (blank_gap settings) (whole_clearFirst tidy.whole_writtenGroups) rfl
  refine ⟨groups, ?_, hsame⟩
  rw [hread]
  exact List.append_nil _

theorem isArranged_writtenGroups : IsArranged settings (writtenGroups settings statements) := by
  have hmem : ∀ statement ∈ (arranged settings statements).flatten, statement ∈ statements := by
    intro statement member
    rcases List.mem_flatten.mp member with ⟨group, hgroup, hstatement⟩
    exact mem_of_mem_arranged hgroup statement hstatement
  exact (isArranged_arranged settings statements).map
    (fun statement member => tidy.normal statement (hmem statement member))
    fun left hleft right hright => tidy.apart left (hmem left hleft) right (hmem right hright)

section ReadBack

variable {groups : List (List Statement)}
  (same : groups.map (·.map Statement.unnumbered) =
    (clearFirst (writtenGroups settings statements)).map (·.map Statement.unnumbered))

include same

omit tidy in
theorem map_bare_eq : groups.map (·.map Statement.bare) =
    (writtenGroups settings statements).map (·.map Statement.bare) := by
  have hbare : ∀ gs : List (List Statement), gs.map (·.map Statement.bare) =
      (gs.map (·.map Statement.unnumbered)).map (·.map Statement.bare) := by
    intro gs
    simp only [List.map_map, Function.comp_def]
    rfl
  rw [hbare groups, same, ← hbare, Layout.map_bare_clearFirst]

omit tidy in
theorem exists_lines_eq {statement : Statement} (member : statement ∈ groups.flatten) :
    ∃ original ∈ statements, statement.lines = (original.written settings).lines := by
  have hflat := congrArg List.flatten (map_bare_eq same)
  rw [← List.map_flatten, ← List.map_flatten] at hflat
  have hbare : statement.bare ∈ groups.flatten.map Statement.bare := List.mem_map_of_mem member
  rw [hflat] at hbare
  rcases List.mem_map.mp hbare with ⟨other, hother, heq⟩
  rcases exists_of_mem_writtenGroups hother with ⟨original, horiginal, rfl⟩
  exact ⟨original, horiginal, (congrArg Statement.lines heq).symm⟩

theorem arranged_readBack (valid : settings.validate = .ok ()) :
    arranged settings groups.flatten = groups := by
  apply arranged_flatten _ valid
  apply IsArranged.of_bare
  rw [map_bare_eq same]
  exact tidy.isArranged_writtenGroups.map (fun _ _ => rfl) fun _ _ _ _ => id

theorem written_readBack {statement : Statement} (member : statement ∈ groups.flatten) :
    statement.written settings = statement := by
  rcases exists_lines_eq same member with ⟨original, horiginal, hlines⟩
  apply written_eq_self
  rw [wrap_of_lines hlines]
  exact tidy.again original horiginal

theorem ne_nil_readBack :
    ∀ statement ∈ groups.flatten, (statement.written settings).lines ≠ [] := by
  intro statement member
  rcases exists_lines_eq same member with ⟨original, horiginal, hlines⟩
  rw [tidy.written_readBack same member, hlines]
  exact tidy.ne_nil original horiginal

/-- Written once more, the groups come out as they are. -/
theorem writtenGroups_readBack (valid : settings.validate = .ok ()) :
    writtenGroups settings groups.flatten = groups := by
  rw [writtenGroups, tidy.arranged_readBack same valid]
  conv_rhs => rw [← List.map_id groups]
  refine List.map_congr_left fun group hgroup => ?_
  rw [id_eq]
  conv_rhs => rw [← List.map_id group]
  exact List.map_congr_left fun statement member =>
    tidy.written_readBack same (List.mem_flatten.mpr ⟨group, hgroup, member⟩)

theorem prune_readBack {unused : List Text} {all : List Statement}
    (kept : statements = Statement.prune unused all) :
    Statement.prune unused groups.flatten = groups.flatten := by
  rw [Statement.prune, List.filter_eq_self]
  intro statement member
  rcases exists_lines_eq same member with ⟨original, horiginal, hlines⟩
  have hnormal : statement.normal = original.normal := by
    rw [← tidy.normal original horiginal, Statement.normal, Statement.normal, hlines]
  rw [kept, Statement.prune, List.mem_filter] at horiginal
  have hused := horiginal.2
  rw [Statement.isUnused] at hused ⊢
  rwa [hnormal]

end ReadBack
end Tidy
end Format
end ImportBlock
