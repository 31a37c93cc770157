import ImportBlock.Proofs.Layout.Header
import ImportBlock.Proofs.Layout.Wrap
import ImportBlock.Proofs.Text.Paired

namespace ImportBlock

open Text Line

namespace Statement

theorem map_distinct_unnumbered (statements : List Statement) :
    (distinct statements).map unnumbered = distinct (statements.map unnumbered) := by
  induction statements with
  | nil => rfl
  | cons statement rest ih =>
    rw [List.map_cons, distinct, distinct, List.map_cons, ← ih, List.filter_map]
    rfl

theorem map_prune_unnumbered (unused : List Text) (statements : List Statement) :
    (prune unused statements).map unnumbered = prune unused (statements.map unnumbered) := by
  rw [prune, prune, List.filter_map]
  rfl

end Statement

namespace Format

theorem map_group_unnumbered (settings : Settings) (statements : List Statement)
    (category : Category) : (group settings statements category).map Statement.unnumbered =
      group settings (statements.map Statement.unnumbered) category := by
  rw [group, SortOrder.sort, List.map_mergeSort, group, SortOrder.sort, Category.members,
    Category.members, List.filter_map]
  · rfl
  · intro left _ right _
    cases settings.sortBy <;> rfl

theorem map_arranged_unnumbered (settings : Settings) (statements : List Statement) :
    (arranged settings statements).map (·.map Statement.unnumbered) =
      arranged settings (statements.map Statement.unnumbered) := by
  rw [arranged, arranged, List.map_map]
  refine List.map_congr_left fun category _ => ?_
  rw [Function.comp_apply, Statement.map_distinct_unnumbered, map_group_unnumbered]

/-- The lines of the statements as they are written, without gaps. -/
def statementLines (settings : Settings) (statements : List Statement) : List Text :=
  (arranged settings statements).flatten.flatMap (Layout.statementLines settings)

theorem statementLines_unnumbered {settings : Settings} {left right : List Statement}
    (same : left.map Statement.unnumbered = right.map Statement.unnumbered) :
    statementLines settings left = statementLines settings right := by
  have hlines : ∀ statements : List Statement, statementLines settings statements =
      statementLines settings (statements.map Statement.unnumbered) := by
    intro statements
    rw [statementLines, statementLines, ← map_arranged_unnumbered, ← List.map_flatten,
      List.flatMap_map]
    rfl
  rw [hlines left, same, ← hlines right]

end Format

namespace Block.Below

theorem read_unnumbered (mode : Mode) (m n : Nat) (texts : List Text) :
    (empty.read mode m texts).statements.map Statement.unnumbered =
      (empty.read mode n texts).statements.map Statement.unnumbered := by
  have hzero : ∀ k, (empty.read mode k texts).statements.map Statement.unnumbered =
      (empty.read mode 0 texts).statements.map Statement.unnumbered := by
    intro k
    have hread := read_lowered empty mode 0 k texts
    rw [Nat.zero_add] at hread
    change empty.read mode k texts = _ at hread
    rw [hread, lowered, List.map_map]
    rfl
  rw [hzero m, hzero n]

end Block.Below

namespace Layout

variable {settings : Settings}

theorem nonBlank_addGroup (lines : List Text) (group : List Statement) :
    nonBlank (addGroup settings lines group) = nonBlank lines ++
      nonBlank ((Statement.distinct group).flatMap (statementLines settings)) := by
  rw [addGroup]
  split
  · next hnil => simp [List.isEmpty_iff.mp hnil, Statement.distinct, nonBlank]
  · have hgap : nonBlank (if settings.emptyLineBetweenGroups && !lines.isEmpty then [[]]
        else []) = [] := by
      split <;> rfl
    dsimp only
    rw [nonBlank_append, nonBlank_append, hgap, List.append_nil]

theorem nonBlank_foldl_addGroup (lines : List Text) (groups : List (List Statement)) :
    nonBlank (groups.foldl (addGroup settings) lines) = nonBlank lines ++
      nonBlank ((groups.map Statement.distinct).flatten.flatMap (statementLines settings)) := by
  induction groups generalizing lines with
  | nil => simp [nonBlank]
  | cons group groups ih =>
    rw [List.foldl_cons, ih, nonBlank_addGroup, List.map_cons, List.flatten_cons,
      List.flatMap_append, nonBlank_append, List.append_assoc]

theorem nonBlank_blockLines (keep : settings.trailingComments = .keep) (block : Block)
    (statements : List Statement) :
    nonBlank (blockLines settings block (Format.group settings statements)) =
      nonBlank (headerLines settings block.header) ++
        nonBlank (Format.statementLines settings statements) ++ nonBlank block.trailing := by
  rw [blockLines, keep]
  dsimp only
  rw [nonBlank_append, nonBlank_foldl_addGroup, List.map_map]
  rfl

theorem nonBlank_filter_label (mode : Mode) (texts : List Text) :
    nonBlank (((label mode texts).filter (·.kind != .blank)).map Line.text) = nonBlank texts := by
  induction texts generalizing mode with
  | nil => rfl
  | cons text rest ih =>
    rw [label, List.filter_cons]
    by_cases hblank : (mode.read (trim text)).1 = .blank
    · have htext := (Mode.read_trim_eq_blank_iff.mp hblank).2
      simp only [hblank, bne_self_eq_false, Bool.false_eq_true, if_false, ih]
      simp [nonBlank, htext]
    · have hkeep : ((mode.read (trim text)).1 != .blank) = true := by simpa using hblank
      simp only [hkeep, if_true, List.map_cons]
      rw [← List.singleton_append, nonBlank_append, ih, ← nonBlank_append, List.singleton_append]

theorem nonBlank_headerLines (keep : settings.preserveLeadingComments = true) {header : List Text}
    (allHeader : AllHeader (label .code header)) :
    nonBlank (headerLines settings ((label .code header).filterMap HeaderLine.ofLine?)) =
      nonBlank header := by
  have hkept : (label .code header).filter (isKept settings) =
      (label .code header).filter (·.kind != .blank) := by
    refine List.filter_congr fun line member => ?_
    rw [isKept_of_inHeader ((allHeader_iff.mp allHeader).1 line member), keep]
    rfl
  rw [headerLines_filterMap, hkept, nonBlank_filter_label]

section Free

variable {statements : List Statement}

theorem free_statementLines {statement : Statement}
    (free : ∀ line ∈ statement.source, '\n' ∉ line ∧ '\r' ∉ line) :
    ∀ line ∈ statementLines settings statement, '\n' ∉ line ∧ '\r' ∉ line := by
  intro line member
  exact ⟨not_mem_statementLines (by decide) (by decide) (fun l hl => (free l hl).1) line member,
    not_mem_statementLines (by decide) (by decide) (fun l hl => (free l hl).2) line member⟩

theorem mem_of_mem_foldl_addGroup {lines : List Text} {groups : List (List Statement)} {line : Text}
    (member : line ∈ groups.foldl (addGroup settings) lines) :
    line ∈ lines ∨ line = [] ∨ ∃ group ∈ groups, ∃ statement ∈ group,
      line ∈ statementLines settings statement := by
  induction groups generalizing lines with
  | nil => exact .inl member
  | cons group groups ih =>
    rcases ih member with hline | hnil | ⟨other, hother, hline⟩
    · rw [addGroup] at hline
      split at hline
      · exact .inl hline
      · rcases List.mem_append.mp hline with hupper | hstatement
        · rcases List.mem_append.mp hupper with hline | hgap
          · exact .inl hline
          · split at hgap
            · exact .inr (.inl (List.mem_singleton.mp hgap))
            · contradiction
        · obtain ⟨statement, hmem, hline⟩ := List.mem_flatMap.mp hstatement
          exact .inr (.inr ⟨group, List.mem_cons_self, statement,
            (Statement.sublist_distinct group).subset hmem, hline⟩)
    · exact .inr (.inl hnil)
    · exact .inr (.inr ⟨other, List.mem_cons_of_mem group hother, hline⟩)

theorem not_mem_blockLines {block : Block} {group : Category → List Statement} {c : Char}
    (space : c ≠ ' ') (comma : c ≠ ',')
    (header : ∀ line ∈ headerLines settings block.header, c ∉ line)
    (source : ∀ category, ∀ statement ∈ group category, ∀ line ∈ statement.source, c ∉ line)
    (trailing : ∀ line ∈ block.trailing, c ∉ line) :
    ∀ line ∈ blockLines settings block group, c ∉ line := by
  have hlines : ∀ line ∈ (settings.importOrder.map group).foldl
      (addGroup settings) (headerLines settings block.header), c ∉ line := by
    intro line member
    rcases mem_of_mem_foldl_addGroup member with
      hheader | rfl | ⟨statements, hgroup, statement, hmem, hline⟩
    · exact header line hheader
    · simp
    · obtain ⟨category, -, rfl⟩ := List.mem_map.mp hgroup
      exact not_mem_statementLines space comma (source category statement hmem) line hline
  intro line member
  rw [blockLines] at member
  split at member
  · rcases List.mem_append.mp member with hline | htrailing
    · exact hlines line hline
    · exact trailing line htrailing
  · exact hlines line member

theorem free_blockLines {block : Block}
    (header : ∀ line ∈ headerLines settings block.header, '\n' ∉ line ∧ '\r' ∉ line)
    (source : ∀ statement ∈ statements, ∀ line ∈ statement.source, '\n' ∉ line ∧ '\r' ∉ line)
    (trailing : ∀ line ∈ block.trailing, '\n' ∉ line ∧ '\r' ∉ line) :
    ∀ line ∈ blockLines settings block (Format.group settings statements),
      '\n' ∉ line ∧ '\r' ∉ line := by
  have hsource : ∀ category, ∀ statement ∈ Format.group settings statements category,
      ∀ line ∈ statement.source, '\n' ∉ line ∧ '\r' ∉ line :=
    fun _ statement member => source statement (Format.mem_group.mp member).1
  intro line member
  constructor
  · exact not_mem_blockLines (by decide) (by decide) (fun l hl => (header l hl).1)
      (fun category statement hmem l hl => (hsource category statement hmem l hl).1)
      (fun l hl => (trailing l hl).1) line member
  · exact not_mem_blockLines (by decide) (by decide) (fun l hl => (header l hl).2)
      (fun category statement hmem l hl => (hsource category statement hmem l hl).2)
      (fun l hl => (trailing l hl).2) line member

end Free

end Layout
end ImportBlock
