import Mathlib.Data.List.Perm.Subperm
import Mathlib.Data.List.Forall2
import ImportBlock.Format
import ImportBlock.Proofs.SortOrder

/-! Sorted groups without repeats, one for each category, and their way through sorting again. -/

namespace ImportBlock

namespace Statement

theorem sublist_distinct (statements : List Statement) :
    (distinct statements).Sublist statements := by
  induction statements with
  | nil => exact .slnil
  | cons statement rest ih => exact (List.filter_sublist.trans ih).cons_cons statement

theorem nodup_distinct (statements : List Statement) :
    ((distinct statements).map rawText).Nodup := by
  induction statements with
  | nil => exact List.nodup_nil
  | cons statement rest ih =>
    rw [distinct, List.map_cons, List.nodup_cons]
    constructor
    · intro member
      obtain ⟨other, hother, same⟩ := List.mem_map.mp member
      simpa [same] using (List.mem_filter.mp hother).2
    · exact ih.sublist (List.filter_sublist.map rawText)

theorem distinct_of_nodup {statements : List Statement} (h : (statements.map rawText).Nodup) :
    distinct statements = statements := by
  induction statements with
  | nil => rfl
  | cons statement rest ih =>
    rw [List.map_cons, List.nodup_cons] at h
    rw [distinct, ih h.2, List.filter_eq_self.mpr]
    intro other member
    rw [bne_iff_ne]
    intro same
    exact h.1 (List.mem_map.mpr ⟨other, member, same⟩)

theorem exists_mem_distinct {statements : List Statement} {statement : Statement}
    (member : statement ∈ statements) :
    ∃ kept ∈ distinct statements, kept.rawText = statement.rawText := by
  induction statements with
  | nil => contradiction
  | cons first rest ih =>
    by_cases same : statement.rawText = first.rawText
    · exact ⟨first, List.mem_cons_self, same.symm⟩
    · have hrest : statement ∈ rest := by
        rcases List.mem_cons.mp member with rfl | hmem
        · exact absurd rfl same
        · exact hmem
      obtain ⟨kept, hkept, heq⟩ := ih hrest
      refine ⟨kept, List.mem_cons_of_mem first (List.mem_filter.mpr ⟨hkept, ?_⟩), heq⟩
      rw [bne_iff_ne, heq]
      exact same

def bare (statement : Statement) : Statement := ⟨[], statement.lines, 0⟩

@[simp] theorem normal_bare (statement : Statement) :
    statement.bare.normal = statement.normal := rfl

@[simp] theorem rawText_bare (statement : Statement) :
    statement.bare.rawText = statement.rawText := rfl

end Statement

namespace Settings

theorem perm_of_validate {settings : Settings} (valid : settings.validate = .ok ()) :
    settings.importOrder.Perm Category.all := by
  rw [validate] at valid
  split at valid
  · contradiction
  · next horder =>
    rw [not_or, not_not, not_not, List.all_eq_true] at horder
    have hsub : Category.all ⊆ settings.importOrder := by
      intro category member
      exact List.contains_iff_mem.mp (horder.2 category member)
    exact ((List.subperm_of_subset (by decide) hsub).perm_of_length_le (by rw [horder.1]; rfl)).symm

theorem nodup_of_validate {settings : Settings} (valid : settings.validate = .ok ()) :
    settings.importOrder.Nodup :=
  (perm_of_validate valid).nodup_iff.mpr (by decide)

theorem mem_of_validate {settings : Settings} (valid : settings.validate = .ok ())
    (category : Category) : category ∈ settings.importOrder :=
  (perm_of_validate valid).mem_iff.mpr (by cases category <;> decide)

end Settings

namespace Format

/-- The groups as they are written, in their order. -/
def arranged (settings : Settings) (statements : List Statement) : List (List Statement) :=
  settings.importOrder.map fun category => Statement.distinct (group settings statements category)

/-- Sorted statements of one category, each text once. -/
structure IsGroup (settings : Settings) (category : Category) (group : List Statement) : Prop where
  category : ∀ statement ∈ group,
    (Category.ofNormal statement.normal).group settings.groupByScope = category
  sorted : group.Pairwise (settings.sortBy.le · · = true)
  distinct : (group.map Statement.rawText).Nodup

def IsArranged (settings : Settings) (groups : List (List Statement)) : Prop :=
  List.Forall₂ (IsGroup settings) settings.importOrder groups

variable {settings : Settings} {category : Category} {statements group : List Statement}
  {groups : List (List Statement)}

theorem mem_group {statement : Statement} :
    statement ∈ Format.group settings statements category ↔ statement ∈ statements ∧
      (Category.ofNormal statement.normal).group settings.groupByScope = category := by
  rw [Format.group, SortOrder.mem_sort, Category.members, List.mem_filter, beq_iff_eq]

/-- A form of the groups that closed terms are evaluated in. -/
theorem group_eq_insertionSort (settings : Settings) (statements : List Statement) :
    Format.group settings statements = fun category =>
      (category.members settings.groupByScope statements).insertionSort
        (settings.sortBy.le · · = true) := by
  funext category
  rw [Format.group, SortOrder.sort_eq_insertionSort]

theorem isGroup_distinct :
    IsGroup settings category (Statement.distinct (Format.group settings statements category)) where
  category := by
    intro statement member
    exact (mem_group.mp ((Statement.sublist_distinct _).subset member)).2
  sorted := (SortOrder.pairwise_sort _ _).sublist (Statement.sublist_distinct _)
  distinct := Statement.nodup_distinct _

theorem isArranged_arranged (settings : Settings) (statements : List Statement) :
    IsArranged settings (arranged settings statements) := by
  rw [IsArranged, arranged, List.forall₂_map_right_iff, List.forall₂_same]
  intro category _
  exact isGroup_distinct

theorem mem_of_mem_arranged (member : group ∈ arranged settings statements) :
    ∀ statement ∈ group, statement ∈ statements := by
  obtain ⟨category, -, rfl⟩ := List.mem_map.mp member
  intro statement hmem
  exact (mem_group.mp ((Statement.sublist_distinct _).subset hmem)).1

theorem exists_mem_arranged (valid : settings.validate = .ok ()) {statement : Statement}
    (member : statement ∈ statements) :
    ∃ kept ∈ (arranged settings statements).flatten, kept.rawText = statement.rawText := by
  obtain ⟨kept, hkept, same⟩ :=
    Statement.exists_mem_distinct
      (mem_group.mpr ⟨member, rfl⟩ : statement ∈ Format.group settings statements _)
  exact ⟨kept, List.mem_flatten.mpr
    ⟨_, List.mem_map.mpr ⟨_, Settings.mem_of_validate valid _, rfl⟩, hkept⟩, same⟩

theorem IsGroup.map {f : Statement → Statement} (h : IsGroup settings category group)
    (normal : ∀ statement ∈ group, (f statement).normal = statement.normal)
    (injective : ∀ left ∈ group, ∀ right ∈ group,
      (f left).rawText = (f right).rawText → left.rawText = right.rawText) :
    IsGroup settings category (group.map f) where
  category := by
    intro statement member
    obtain ⟨other, hother, rfl⟩ := List.mem_map.mp member
    rw [normal other hother]
    exact h.category other hother
  sorted := by
    refine List.pairwise_map.mpr (h.sorted.imp_of_mem ?_)
    intro left right hleft hright hle
    rwa [SortOrder.le_of_normal _ (normal left hleft) (normal right hright)]
  distinct := by
    rw [List.map_map]
    refine List.pairwise_map.mpr ((List.pairwise_map.mp h.distinct).imp_of_mem ?_)
    intro left right hleft hright hne same
    exact hne (injective left hleft right hright same)

theorem IsGroup.of_bare (h : IsGroup settings category (group.map Statement.bare)) :
    IsGroup settings category group where
  category := by
    intro statement member
    exact h.category statement.bare (List.mem_map_of_mem member)
  sorted := by
    apply (List.pairwise_map.mp h.sorted).imp
    intro left right hle
    rwa [SortOrder.le_of_normal _ left.normal_bare right.normal_bare] at hle
  distinct := by
    simpa only [List.map_map, Function.comp_def, Statement.rawText_bare] using h.distinct

theorem IsArranged.map {f : Statement → Statement} (h : IsArranged settings groups)
    (normal : ∀ statement ∈ groups.flatten, (f statement).normal = statement.normal)
    (injective : ∀ left ∈ groups.flatten, ∀ right ∈ groups.flatten,
      (f left).rawText = (f right).rawText → left.rawText = right.rawText) :
    IsArranged settings (groups.map (·.map f)) := by
  rw [IsArranged] at h ⊢
  generalize settings.importOrder = categories at h
  induction h with
  | nil => exact .nil
  | @cons category group categories rest hgroup _ ih =>
    have hfirst : ∀ statement ∈ group, statement ∈ (group :: rest).flatten := by
      intro statement member
      exact List.mem_append_left _ member
    have hrest : ∀ statement ∈ rest.flatten, statement ∈ (group :: rest).flatten := by
      intro statement member
      exact List.mem_append_right _ member
    refine .cons (hgroup.map ?_ ?_) (ih ?_ ?_)
    · exact fun statement member => normal statement (hfirst statement member)
    · exact fun left hleft right hright =>
        injective left (hfirst left hleft) right (hfirst right hright)
    · exact fun statement member => normal statement (hrest statement member)
    · exact fun left hleft right hright =>
        injective left (hrest left hleft) right (hrest right hright)

theorem IsArranged.of_bare (h : IsArranged settings (groups.map (·.map Statement.bare))) :
    IsArranged settings groups := by
  rw [IsArranged, List.forall₂_map_right_iff] at h
  exact h.imp fun _ _ => IsGroup.of_bare

theorem members_append (upper lower : List Statement) (category : Category) :
    category.members settings.groupByScope (upper ++ lower) =
      category.members settings.groupByScope upper ++
        category.members settings.groupByScope lower :=
  List.filter_append upper lower

theorem members_eq_nil {other : Category} (h : ∀ statement ∈ statements,
    (Category.ofNormal statement.normal).group settings.groupByScope ≠ other) :
    other.members settings.groupByScope statements = [] := by
  rw [Category.members, List.filter_eq_nil_iff]
  intro statement member
  simpa using h statement member

theorem IsGroup.members_eq (h : IsGroup settings category group) :
    category.members settings.groupByScope group = group := by
  rw [Category.members, List.filter_eq_self]
  intro statement member
  simpa using h.category statement member

theorem members_flatten {categories : List Category}
    (h : List.Forall₂ (IsGroup settings) categories groups) (nodup : categories.Nodup) :
    categories.map (·.members settings.groupByScope groups.flatten) = groups := by
  induction h with
  | nil => rfl
  | @cons category group categories rest hgroup hrest ih =>
    -- No statement of a later group has the first category, and none of the first a later one.
    obtain ⟨hfirst, hnodup⟩ := List.nodup_cons.mp nodup
    have hother : ∀ statement ∈ rest.flatten,
        (Category.ofNormal statement.normal).group settings.groupByScope ∈ categories := by
      intro statement member
      obtain ⟨other, hother, hmem⟩ := List.mem_flatten.mp member
      obtain ⟨index, hindex, rfl⟩ := List.getElem_of_mem hother
      have hlength := hrest.length_eq
      rw [(hrest.get (by omega) hindex).category statement hmem]
      exact List.getElem_mem _
    rw [List.map_cons, List.flatten_cons]
    congr 1
    · rw [members_append, hgroup.members_eq, members_eq_nil, List.append_nil]
      exact fun statement member heq => hfirst (heq ▸ hother statement member)
    · conv_rhs => rw [← ih hnodup]
      refine List.map_congr_left fun other member => ?_
      rw [members_append, members_eq_nil, List.nil_append]
      rintro statement hmem rfl
      rw [hgroup.category statement hmem] at member
      exact hfirst member

theorem arranged_flatten (h : IsArranged settings groups) (valid : settings.validate = .ok ()) :
    arranged settings groups.flatten = groups := by
  have hmembers := members_flatten h (Settings.nodup_of_validate valid)
  have hsorted : ∀ group ∈ groups, Statement.distinct (settings.sortBy.sort group) = group := by
    intro group member
    obtain ⟨index, hindex, rfl⟩ := List.getElem_of_mem member
    have hgroup := h.get (by rw [h.length_eq]; exact hindex) hindex
    simp only [List.get_eq_getElem] at hgroup
    rw [SortOrder.sort_of_pairwise hgroup.sorted, Statement.distinct_of_nodup hgroup.distinct]
  calc
    arranged settings groups.flatten =
        (settings.importOrder.map (·.members settings.groupByScope groups.flatten)).map
          fun group => Statement.distinct (settings.sortBy.sort group) := by
      rw [List.map_map]
      rfl
    _ = groups.map fun group => Statement.distinct (settings.sortBy.sort group) := by rw [hmembers]
    _ = groups := by
      conv_rhs => rw [← List.map_id groups]
      exact List.map_congr_left hsorted

end Format
end ImportBlock
