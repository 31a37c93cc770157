import Mathlib.Data.List.Perm.Basic
import ImportBlock.Proofs.Layout.Lines

namespace ImportBlock

namespace Statement

def uncommented (statement : Statement) : Statement := { statement with comments := [] }

theorem filter_distinct_append_repeated_perm (seen : List Text) (statements : List Statement) :
    ((distinct statements).filter (!seen.contains ·.rawText) ++ repeated seen statements).Perm
      statements := by
  induction statements generalizing seen with
  | nil => exact .nil
  | cons statement rest ih =>
    by_cases hseen : seen.contains statement.rawText = true
    · have hfilter : (distinct (statement :: rest)).filter (!seen.contains ·.rawText) =
          (distinct rest).filter (!seen.contains ·.rawText) := by
        rw [distinct, List.filter_cons_of_neg (by simpa using hseen), List.filter_filter]
        refine List.filter_congr fun other _ => ?_
        by_cases hsame : other.rawText = statement.rawText
        · simp [hsame, List.contains_iff_mem.mp hseen]
        · simp [hsame]
      rw [hfilter, repeated, if_pos hseen]
      exact List.perm_middle.trans ((ih seen).cons statement)
    · have hfilter : (distinct (statement :: rest)).filter (!seen.contains ·.rawText) =
          statement ::
            (distinct rest).filter (!(statement.rawText :: seen).contains ·.rawText) := by
        rw [distinct, List.filter_cons_of_pos (by simpa using hseen), List.filter_filter]
        congr 1
        refine List.filter_congr fun other _ => ?_
        rw [List.contains_cons, Bool.not_or, Bool.and_comm]
        rfl
      rw [hfilter, repeated, if_neg hseen]
      exact (ih (statement.rawText :: seen)).cons statement

/-- Each statement is the first of its text, or is left out. -/
theorem distinct_append_repeated_perm (statements : List Statement) :
    (distinct statements ++ repeated [] statements).Perm statements := by
  have hkeep : (distinct statements).filter (!([] : List Text).contains ·.rawText) =
      distinct statements := List.filter_eq_self.mpr fun _ _ => rfl
  have hperm := filter_distinct_append_repeated_perm [] statements
  rwa [hkeep] at hperm

end Statement

namespace Format

variable {settings : Settings}

theorem flatten_members_perm (byScope : Bool) {categories : List Category}
    (nodup : categories.Nodup) (statements : List Statement) :
    (categories.map (·.members byScope statements)).flatten.Perm
      (statements.filter fun statement =>
        categories.contains ((Category.ofNormal statement.normal).group byScope)) := by
  induction categories with
  | nil => simp
  | cons category rest ih =>
    obtain ⟨hfirst, hrest⟩ := List.nodup_cons.mp nodup
    rw [List.map_cons, List.flatten_cons]
    refine ((ih hrest).append_left _).trans ?_
    have hperm := List.filter_append_perm
      (fun statement => (Category.ofNormal statement.normal).group byScope == category)
      (statements.filter fun statement =>
        (category :: rest).contains ((Category.ofNormal statement.normal).group byScope))
    rw [List.filter_filter, List.filter_filter] at hperm
    refine .trans (.of_eq ?_) hperm
    congr 1
    · refine List.filter_congr fun statement _ => ?_
      generalize (Category.ofNormal statement.normal).group byScope = found
      rw [List.contains_cons]
      cases found == category <;> rfl
    · refine List.filter_congr fun statement _ => ?_
      generalize (Category.ofNormal statement.normal).group byScope = found
      by_cases hsame : found = category
      · simpa [hsame] using hfirst
      · simp [hsame]

theorem flatten_groups_perm (valid : settings.validate = .ok ()) (statements : List Statement) :
    (settings.importOrder.map (group settings statements)).flatten.Perm statements := by
  have hmembers := flatten_members_perm settings.groupByScope
    (Settings.nodup_of_validate valid) statements
  have hall : (statements.filter fun statement => settings.importOrder.contains
      ((Category.ofNormal statement.normal).group settings.groupByScope)) = statements := by
    rw [List.filter_eq_self]
    intro statement _
    exact List.contains_iff_mem.mpr (Settings.mem_of_validate valid _)
  rw [hall] at hmembers
  refine .trans ?_ hmembers
  rw [← List.flatMap_def, ← List.flatMap_def]
  exact List.Perm.flatMap_left _ fun category _ => List.mergeSort_perm _ _

/-- The statements that are left out. -/
def repeats (settings : Settings) (statements : List Statement) : List Statement :=
  (settings.importOrder.map (group settings statements)).flatMap (Statement.repeated [])

theorem arranged_append_repeats_perm (valid : settings.validate = .ok ())
    (statements : List Statement) :
    ((arranged settings statements).flatten ++ repeats settings statements).Perm statements := by
  have hparts : (arranged settings statements).flatten =
      (settings.importOrder.map (group settings statements)).flatMap Statement.distinct := by
    rw [arranged, List.flatMap_def, List.map_map]
    rfl
  rw [hparts, repeats]
  refine (List.flatMap_append_perm _ _ _).trans (.trans ?_ (flatten_groups_perm valid statements))
  rw [List.flatten_eq_flatMap]
  exact List.Perm.flatMap_left _ fun group _ => Statement.distinct_append_repeated_perm group

end Format

namespace Layout

theorem groupLines_perm (gap : List Text) (started : Bool) (groups : List (List Statement)) :
    (groupLines gap started groups).Perm
      (groupLines gap started (groups.map (·.map Statement.uncommented)) ++
        groups.flatten.flatMap Statement.comments) := by
  induction groups generalizing started with
  | nil => exact .nil
  | cons group groups ih =>
    have hempty : (group.map Statement.uncommented).isEmpty = group.isEmpty := by simp
    rw [List.map_cons, groupLines, groupLines, hempty]
    split
    · next hnil =>
      rw [List.isEmpty_iff.mp hnil]
      exact ih started
    · have hsource : (group.flatMap Statement.source).Perm
          ((group.map Statement.uncommented).flatMap Statement.source ++
            group.flatMap Statement.comments) := by
        rw [List.flatMap_map]
        exact ((List.flatMap_append_perm group Statement.comments Statement.lines).symm).trans
          List.perm_append_comm
      rw [List.perm_iff_count]
      intro line
      have hhere := hsource.count_eq line
      have hbelow := (ih true).count_eq line
      simp only [List.count_append, List.flatten_cons, List.flatMap_append] at hhere hbelow ⊢
      omega

end Layout
end ImportBlock
