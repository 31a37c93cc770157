import ImportBlock.Proofs.Format.Preservation
import ImportBlock.Proofs.Format.Written
import ImportBlock.Proofs.Region.Unfinished

/-! In alphabetical order a block is written alike, however its statements stood. -/

namespace ImportBlock

open Text

namespace Block

theorem free_of_mem_parse {text : Text} {statement : Statement}
    (member : statement ∈ (parse text).statements) :
    NoFeed statement.lines ∧ statement.lines ≠ [] := by
  have hfree : ∀ line ∈ ((Line.label .code (Text.lines text)).zipIdx.dropWhile
      (·.1.kind != .opening)).takeWhile (·.1.kind != .code), '\n' ∉ line.1.text := by
    intro line hline
    have hlabel := List.fst_mem_of_mem_zipIdx
      ((List.dropWhile_suffix _).subset ((List.takeWhile_prefix _).subset hline))
    have htext := List.mem_map_of_mem (f := Line.text) hlabel
    rw [Line.map_text_label] at htext
    exact noFeed_lines text _ htext
  obtain ⟨-, hstatements⟩ := Below.forall_lines (p := ('\n' ∉ ·)) hfree
  exact (hstatements statement member).symm

end Block

namespace SortOrder

theorem alphabeticalLe_antisymm {left right : Text} (h₁ : alphabeticalLe left right = true)
    (h₂ : alphabeticalLe right left = true) : left = right := by
  rw [alphabeticalLe] at h₁ h₂
  by_cases heq : toLower left = toLower right
  · rw [if_pos heq] at h₁
    rw [if_pos heq.symm] at h₂
    exact Text.le_antisymm h₁ h₂
  · rw [if_neg heq] at h₁
    rw [if_neg (Ne.symm heq)] at h₂
    exact absurd (Text.le_antisymm h₁ h₂) heq

theorem map_normal_eq_of_perm {left right : List Statement}
    (hleft : left.Pairwise (SortOrder.alphabetical.le · · = true))
    (hright : right.Pairwise (SortOrder.alphabetical.le · · = true))
    (perm : (left.map Statement.normal).Perm (right.map Statement.normal)) :
    left.map Statement.normal = right.map Statement.normal := by
  have hordered : ∀ {statements : List Statement},
      statements.Pairwise (SortOrder.alphabetical.le · · = true) →
        (statements.map Statement.normal).Pairwise (alphabeticalLe · · = true) := by
    intro statements sorted
    rw [List.pairwise_map]
    exact sorted
  exact perm.eq_of_pairwise (fun _ _ _ _ => alphabeticalLe_antisymm) (hordered hleft)
    (hordered hright)

end SortOrder

namespace Statement

variable {statements left right : List Statement}

theorem normal_of_lines {one other : Statement} (same : one.lines = other.lines) :
    one.normal = other.normal := by
  rw [normal, normal, same]

theorem map_lines_of_normal (same : left.map normal = right.map normal)
    (determined : ∀ one ∈ left, ∀ other ∈ right, one.normal = other.normal →
      one.lines = other.lines) : left.map lines = right.map lines := by
  induction left generalizing right with
  | nil => rw [List.map_eq_nil_iff.mp same.symm]
  | cons first rest ih =>
    obtain ⟨first', rest', rfl, hfirst, hrest⟩ := List.map_eq_cons_iff.mp same.symm
    rw [List.map_cons, List.map_cons,
      determined first List.mem_cons_self first' List.mem_cons_self hfirst.symm,
      ih hrest.symm fun one hone other hother =>
        determined one (List.mem_cons_of_mem first hone) other (List.mem_cons_of_mem first' hother)]

theorem nodup_lines_distinct (statements : List Statement) :
    ((distinct statements).map lines).Nodup := by
  have hnodup := nodup_distinct statements
  have hraw : rawText = joinWith ['\n'] ∘ lines := rfl
  rw [hraw, ← List.map_map] at hnodup
  exact hnodup.of_map _

theorem mem_lines_distinct (free : ∀ statement ∈ statements,
    NoFeed statement.lines ∧ statement.lines ≠ []) {ls : List Text} :
    ls ∈ (distinct statements).map lines ↔ ls ∈ statements.map lines := by
  constructor
  · exact fun member => ((sublist_distinct statements).map lines).subset member
  · intro member
    obtain ⟨statement, hstatement, rfl⟩ := List.mem_map.mp member
    obtain ⟨kept, hkept, same⟩ := exists_mem_distinct hstatement
    have hfree := free kept ((sublist_distinct statements).subset hkept)
    obtain ⟨hfeed, hne⟩ := free statement hstatement
    exact List.mem_map.mpr ⟨kept, hkept, joinWith_injective hfree.1 hfeed hfree.2 hne same⟩

/-- Whichever of several statements of one text is kept, the lines kept are the same. -/
theorem lines_distinct_perm
    (hleft : ∀ statement ∈ left, NoFeed statement.lines ∧ statement.lines ≠ [])
    (hright : ∀ statement ∈ right, NoFeed statement.lines ∧ statement.lines ≠ [])
    (perm : (left.map lines).Perm (right.map lines)) :
    ((distinct left).map lines).Perm ((distinct right).map lines) := by
  rw [List.perm_ext_iff_of_nodup (nodup_lines_distinct left) (nodup_lines_distinct right)]
  intro ls
  rw [mem_lines_distinct hleft, mem_lines_distinct hright, perm.mem_iff]

end Statement

namespace Format

variable {settings : Settings} {left right : List Statement}

theorem lines_group_perm (perm : (left.map Statement.lines).Perm (right.map Statement.lines))
    (category : Category) : ((group settings left category).map Statement.lines).Perm
      ((group settings right category).map Statement.lines) := by
  have hmembers : ∀ statements : List Statement,
      (category.members settings.groupByScope statements).map Statement.lines =
        (statements.map Statement.lines).filter fun ls =>
          (Category.ofNormal (Statement.normal ⟨[], ls, 0⟩)).group settings.groupByScope ==
            category := by
    intro statements
    rw [List.filter_map]
    rfl
  have hsort : ∀ statements : List Statement, ((group settings statements category).map
      Statement.lines).Perm ((category.members settings.groupByScope statements).map
        Statement.lines) := fun statements => (List.mergeSort_perm _ _).map _
  refine (hsort left).trans (.trans ?_ (hsort right).symm)
  rw [hmembers, hmembers]
  exact perm.filter _

section Read

variable (read : ∀ statement ∈ left ++ right, ∃ text, statement ∈ (Block.parse text).statements)
  (perm : (left.map Statement.lines).Perm (right.map Statement.lines))

include read perm

theorem lines_distinct_group_perm (category : Category) :
    ((Statement.distinct (group settings left category)).map Statement.lines).Perm
      ((Statement.distinct (group settings right category)).map Statement.lines) := by
  have hfree : ∀ statement ∈ left ++ right, NoFeed statement.lines ∧ statement.lines ≠ [] := by
    intro statement member
    obtain ⟨text, hread⟩ := read statement member
    exact Block.free_of_mem_parse hread
  rw [List.forall_mem_append] at hfree
  exact Statement.lines_distinct_perm
    (fun statement member => hfree.1 statement (mem_group.mp member).1)
    (fun statement member => hfree.2 statement (mem_group.mp member).1)
    (lines_group_perm perm category)

variable (alphabetical : settings.sortBy = .alphabetical)

include alphabetical

theorem map_normal_distinct_group (category : Category) :
    (Statement.distinct (group settings left category)).map Statement.normal =
      (Statement.distinct (group settings right category)).map Statement.normal := by
  have hsorted : ∀ statements : List Statement,
      (Statement.distinct (group settings statements category)).Pairwise
        (SortOrder.alphabetical.le · · = true) := by
    intro statements
    have hgroup : IsGroup settings category
        (Statement.distinct (group settings statements category)) := isGroup_distinct
    exact alphabetical ▸ hgroup.sorted
  have hperm : ((Statement.distinct (group settings left category)).map Statement.lines).Perm
      ((Statement.distinct (group settings right category)).map Statement.lines) :=
    lines_distinct_group_perm read perm category
  have hlines := hperm.map fun ls => Statement.normal ⟨[], ls, 0⟩
  rw [List.map_map, List.map_map] at hlines
  exact SortOrder.map_normal_eq_of_perm (hsorted left) (hsorted right) hlines

theorem map_lines_distinct_group
    (determined : ∀ one ∈ left, ∀ other ∈ left, one.normal = other.normal →
      one.rawText = other.rawText) (category : Category) :
    (Statement.distinct (group settings left category)).map Statement.lines =
      (Statement.distinct (group settings right category)).map Statement.lines := by
  refine Statement.map_lines_of_normal
    (map_normal_distinct_group read perm alphabetical category) ?_
  intro one hone other hother same
  have hleft := (mem_group.mp ((Statement.sublist_distinct _).subset hone)).1
  have hright := (mem_group.mp ((Statement.sublist_distinct _).subset hother)).1
  -- A statement on the left has the lines of the one on the right.
  obtain ⟨twin, htwin, hlines⟩ :=
    List.mem_map.mp (perm.mem_iff.mpr (List.mem_map_of_mem hright))
  rw [← hlines]
  obtain ⟨text, hone⟩ := read one (List.mem_append_left _ hleft)
  obtain ⟨text', htext'⟩ := read twin (List.mem_append_left _ htwin)
  obtain ⟨hfeed, hne⟩ := Block.free_of_mem_parse hone
  obtain ⟨hfeed', hne'⟩ := Block.free_of_mem_parse htext'
  refine joinWith_injective hfeed hfeed' hne hne' (determined one hleft twin htwin ?_)
  rw [same, Statement.normal_of_lines hlines]

end Read

theorem render_eq_of_map_lines {header : List HeaderLine} {trailing : List Text}
    (filled : ∀ statement ∈ left ++ right, statement.lines ≠ [])
    (bare : ∀ statement ∈ left ++ right, statement.comments = [])
    (same : (arranged settings left).map (·.map Statement.lines) =
      (arranged settings right).map (·.map Statement.lines)) :
    Layout.render settings ⟨header, left, trailing⟩ (group settings left) =
      Layout.render settings ⟨header, right, trailing⟩ (group settings right) := by
  rw [List.forall_mem_append] at filled bare
  have hplain : ∀ statements : List Statement, (∀ statement ∈ statements, statement.comments = []) →
      (writtenGroups settings statements).map (·.map Statement.unnumbered) =
        ((arranged settings statements).map (·.map Statement.lines)).map
          (·.map fun ls => Statement.written settings ⟨[], ls, 0⟩) := by
    intro statements none
    rw [writtenGroups, List.map_map, List.map_map]
    refine List.map_congr_left fun group hgroup => ?_
    simp only [Function.comp_apply, List.map_map]
    refine List.map_congr_left fun statement member => ?_
    have hnone := none statement (mem_of_mem_arranged hgroup statement member)
    rcases statement with ⟨comments, ls, first⟩
    subst hnone
    rfl
  have hgroups := (hplain left bare.1).trans ((congrArg _ same).trans (hplain right bare.2).symm)
  rw [Layout.render, Layout.render,
    Layout.blockLines_eq _ fun statement member =>
      Layout.written_ne_nil (filled.1 statement member),
    Layout.blockLines_eq _ fun statement member =>
      Layout.written_ne_nil (filled.2 statement member)]
  congr 3
  exact Layout.groupLines_unnumbered _ hgroups

/-- Statements in any order are written in the one order of their normal forms. They are written
alike where none has comments and each normal form has one text. -/
theorem written_reordered (alphabetical : settings.sortBy = .alphabetical)
    (read : ∀ statement ∈ left ++ right, ∃ text, statement ∈ (Block.parse text).statements)
    (perm : (left.map Statement.lines).Perm (right.map Statement.lines)) :
    (arranged settings left).map (·.map Statement.normal) =
        (arranged settings right).map (·.map Statement.normal) ∧
      ((∀ statement ∈ left ++ right, statement.comments = []) →
        (∀ one ∈ left, ∀ other ∈ left, one.normal = other.normal → one.rawText = other.rawText) →
          ∀ header trailing,
            Layout.render settings ⟨header, left, trailing⟩ (group settings left) =
              Layout.render settings ⟨header, right, trailing⟩ (group settings right)) := by
  refine ⟨?_, fun bare determined header trailing => ?_⟩
  · simp only [arranged, List.map_map]
    exact List.map_congr_left fun category _ =>
      map_normal_distinct_group read perm alphabetical category
  · refine render_eq_of_map_lines (fun statement member => ?_) bare ?_
    · obtain ⟨text, hread⟩ := read statement member
      exact (Block.free_of_mem_parse hread).2
    · simp only [arranged, List.map_map]
      exact List.map_congr_left fun category _ =>
        map_lines_distinct_group read perm alphabetical determined category

def mingled : List Text :=
  ["import b from \"b\";", "import B from \"b\";", "import  b from \"b\";",
    "import \x7b x, y \x7d from \"./x\";", "import b from \"b\";"].map String.toList

def unmingled : List Text := mingled.take 2 ++ mingled.drop 3

theorem written_reordered_mingled :
    let settings : Settings := { maxLineLength := 20 }
    let statements := fun ls : List Text => (Block.parse (endLines ls)).statements
    settings.sortBy = .alphabetical ∧
      ((statements mingled).map Statement.lines).Perm
        ((statements mingled.reverse).map Statement.lines) ∧
      (arranged settings (statements mingled)).map (·.map Statement.normal) =
        (arranged settings (statements mingled.reverse)).map (·.map Statement.normal) ∧
      ((statements unmingled).map Statement.lines).Perm
        ((statements unmingled.reverse).map Statement.lines) ∧
      (∀ statement ∈ statements unmingled ++ statements unmingled.reverse,
        statement.comments = []) ∧
      (∀ one ∈ statements unmingled, ∀ other ∈ statements unmingled,
        one.normal = other.normal → one.rawText = other.rawText) ∧
      ∀ header trailing, Layout.render settings ⟨header, statements unmingled, trailing⟩
          (group settings (statements unmingled)) =
        Layout.render settings ⟨header, statements unmingled.reverse, trailing⟩
          (group settings (statements unmingled.reverse)) := by
  intro settings statements
  have hread : ∀ left right : List Text, ∀ statement ∈ statements left ++ statements right,
      ∃ text, statement ∈ (Block.parse text).statements := by
    intro left right statement member
    rcases List.mem_append.mp member with h | h
    · exact ⟨_, h⟩
    · exact ⟨_, h⟩
  have hmingled : ((statements mingled).map Statement.lines).Perm
      ((statements mingled.reverse).map Statement.lines) := by decide +kernel
  have hunmingled : ((statements unmingled).map Statement.lines).Perm
      ((statements unmingled.reverse).map Statement.lines) := by decide +kernel
  have hbare : ∀ statement ∈ statements unmingled ++ statements unmingled.reverse,
      statement.comments = [] := by decide +kernel
  have hdetermined : ∀ one ∈ statements unmingled, ∀ other ∈ statements unmingled,
      one.normal = other.normal → one.rawText = other.rawText := by decide +kernel
  exact ⟨rfl, hmingled, (written_reordered rfl (hread _ _) hmingled).1, hunmingled, hbare,
    hdetermined, (written_reordered rfl (hread _ _) hunmingled).2 hbare hdetermined⟩

end Format
end ImportBlock
