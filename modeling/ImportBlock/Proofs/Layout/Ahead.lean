import ImportBlock.Proofs.Layout.Lines

namespace ImportBlock

open Text Layout

namespace SortOrder

variable {order : SortOrder} {statement next : Statement} {lower : List Statement}

theorem orderedInsert_append_of_le (le : order.le statement next = true) (upper : List Statement) :
    (upper ++ next :: lower).orderedInsert (order.le · · = true) statement =
      upper.orderedInsert (order.le · · = true) statement ++ next :: lower := by
  induction upper with
  | nil => exact if_pos le
  | cons first upper ih =>
    rw [List.cons_append, List.orderedInsert, List.orderedInsert, ih]
    split <;> rfl

theorem orderedInsert_append_of_not_le (le : ¬ order.le statement next = true)
    {upper : List Statement} (above : ∀ other ∈ upper, ¬ order.le statement other = true) :
    (upper ++ next :: lower).orderedInsert (order.le · · = true) statement =
      upper ++ next :: lower.orderedInsert (order.le · · = true) statement := by
  induction upper with
  | nil => exact if_neg le
  | cons first upper ih =>
    rw [List.forall_mem_cons] at above
    rw [List.cons_append, List.orderedInsert, if_neg above.1, ih above.2]
    rfl

theorem mem_sort_filter {p : Statement → Bool}
    (member : statement ∈ order.sort (lower.filter p)) : statement ∈ lower ∧ p statement = true :=
  List.mem_filter.mp (mem_sort.mp member)

/-- The statement that comes last goes below those that compare less or equal, for sorting is
stable, and above the others. -/
theorem sort_concat (order : SortOrder) (others : List Statement) (last : Statement) :
    order.sort (others ++ [last]) = order.sort (others.filter (order.le · last)) ++
      last :: order.sort (others.filter (!order.le · last)) := by
  induction others with
  | nil => simp [sort_eq_insertionSort]
  | cons statement rest ih =>
    rw [List.cons_append, sort_cons, ih, List.filter_cons, List.filter_cons]
    by_cases hle : order.le statement last = true
    · rw [if_pos hle, if_neg (by simp [hle]), sort_cons, orderedInsert_append_of_le hle]
    · rw [if_neg hle, if_pos (by simpa using hle), sort_cons, orderedInsert_append_of_not_le hle]
      intro other member hother
      exact hle (order.le_trans _ _ _ hother (mem_sort_filter member).2)

end SortOrder

theorem Statement.distinct_append {upper lower : List Statement}
    (apart : ∀ left ∈ upper, ∀ right ∈ lower, left.rawText ≠ right.rawText) :
    distinct (upper ++ lower) = distinct upper ++ distinct lower := by
  induction upper with
  | nil => rfl
  | cons statement rest ih =>
    rw [List.forall_mem_cons] at apart
    rw [List.cons_append, distinct, distinct, ih apart.2, List.filter_append, List.cons_append]
    congr 2
    rw [List.filter_eq_self]
    intro other member
    rw [bne_iff_ne]
    exact (apart.1 other ((sublist_distinct lower).subset member)).symm

namespace Settings

def groupOf (settings : Settings) (statement : Statement) : Category :=
  (Category.ofNormal statement.normal).group settings.groupByScope

def rank (settings : Settings) (statement : Statement) : Nat :=
  settings.importOrder.idxOf (settings.groupOf statement)

/-- The statement belongs to an earlier group than the last one, or to the same group and does not
compare greater. -/
def ahead (settings : Settings) (last statement : Statement) : Bool :=
  settings.rank statement < settings.rank last ||
    settings.rank statement == settings.rank last && settings.sortBy.le statement last

end Settings

namespace Layout

variable {gap : List Text}

theorem groupLines_append (upper lower : List (List Statement)) (started : Bool) :
    groupLines gap started (upper ++ lower) = groupLines gap started upper ++
      groupLines gap (started || !upper.flatten.isEmpty) lower := by
  induction upper generalizing started with
  | nil => simp [groupLines]
  | cons group upper ih =>
    rw [List.cons_append, groupLines, groupLines, ih, ih]
    cases group with
    | nil => rfl
    | cons statement rest => simp

theorem exists_gap_above (gap : List Text) (above : List (List Statement))
    (upper : List Statement) : ∃ before, (before = [] ∨ before = gap) ∧
      groupLines gap false above ++ (if !above.flatten.isEmpty then gap else []) ++
        upper.flatMap Statement.source = groupLines gap false (above ++ [upper]) ++ before := by
  rw [groupLines_append, Bool.false_or]
  cases upper with
  | nil =>
    refine ⟨if !above.flatten.isEmpty then gap else [], by split <;> simp, ?_⟩
    simp [groupLines]
  | cons statement rest => exact ⟨[], .inl rfl, by simp [groupLines]⟩

theorem exists_gap_below (gap : List Text) (lower : List Statement)
    (below : List (List Statement)) : ∃ after, (after = [] ∨ after = gap) ∧
      lower.flatMap Statement.source ++ groupLines gap true below =
        after ++ groupLines gap false (lower :: below) := by
  cases lower with
  | nil =>
    refine ⟨if below.flatten.isEmpty then [] else gap, by split <;> simp, ?_⟩
    rw [groupLines_started]
    rfl
  | cons statement rest => exact ⟨[], .inl rfl, by simp [groupLines]⟩

theorem groupLines_cut (gap : List Text) (above below : List (List Statement))
    (upper lower : List Statement) (statement : Statement) :
    ∃ before after, (before = [] ∨ before = gap) ∧ (after = [] ∨ after = gap) ∧
      groupLines gap false (above ++ (upper ++ statement :: lower) :: below) =
        groupLines gap false (above ++ [upper]) ++ before ++ statement.source ++
          (after ++ groupLines gap false (lower :: below)) := by
  obtain ⟨before, hbefore, habove⟩ := exists_gap_above gap above upper
  obtain ⟨after, hafter, hbelow⟩ := exists_gap_below gap lower below
  refine ⟨before, after, hbefore, hafter, ?_⟩
  have hne : (upper ++ statement :: lower).isEmpty = false := by simp
  rw [← habove, ← hbelow, groupLines_append, Bool.false_or, groupLines, hne]
  simp

theorem infix_groupLines {groups : List (List Statement)} {statement : Statement}
    (member : statement ∈ groups.flatten) (started : Bool) :
    statement.source <:+: groupLines gap started groups := by
  induction groups generalizing started with
  | nil => contradiction
  | cons group groups ih =>
    rw [List.flatten_cons, List.mem_append] at member
    rw [groupLines]
    split
    · next hempty =>
      rw [List.isEmpty_iff.mp hempty] at member
      exact ih (member.resolve_left List.not_mem_nil) started
    · rcases member with hgroup | hgroups
      · obtain ⟨upper, lower, rfl⟩ := List.append_of_mem hgroup
        refine ⟨(if started then gap else []) ++ upper.flatMap Statement.source,
          lower.flatMap Statement.source ++ groupLines gap true groups, by simp⟩
      · exact (ih hgroups true).trans (List.suffix_append _ _).isInfix

end Layout

namespace Settings

variable {settings : Settings} {last statement : Statement} {before after : List Category}

section Order

variable (order : settings.importOrder = before ++ settings.groupOf last :: after)
  (nodup : settings.importOrder.Nodup)

include order nodup

theorem groupOf_not_mem : settings.groupOf last ∉ before ∧ settings.groupOf last ∉ after := by
  rw [order] at nodup
  exact ⟨fun member => List.disjoint_of_nodup_append nodup member List.mem_cons_self,
    (List.nodup_cons.mp (List.Nodup.of_append_right nodup)).1⟩

theorem rank_last : settings.rank last = before.length := by
  have hlast := (groupOf_not_mem order nodup).1
  rw [rank, order, List.idxOf_append_of_notMem hlast, List.idxOf_cons_self, Nat.add_zero]

theorem ahead_of_before (member : settings.groupOf statement ∈ before) :
    settings.ahead last statement = true := by
  have hlast := rank_last order nodup
  have hrank : settings.rank statement < before.length := by
    rw [rank, order, List.idxOf_append_of_mem member]
    exact List.idxOf_lt_length_iff.mpr member
  simp [ahead, hlast, hrank]

theorem ahead_of_after (member : settings.groupOf statement ∈ after) :
    settings.ahead last statement = false := by
  have hlast := rank_last order nodup
  have hne : settings.groupOf last ≠ settings.groupOf statement := fun same =>
    (groupOf_not_mem order nodup).2 (same ▸ member)
  rw [order] at nodup
  have hbefore : settings.groupOf statement ∉ before := fun hmem =>
    List.disjoint_of_nodup_append nodup hmem (List.mem_cons_of_mem _ member)
  have hrank : before.length < settings.rank statement := by
    rw [rank, order, List.idxOf_append_of_notMem hbefore, List.idxOf_cons_ne _ hne]
    omega
  have hless : ¬ settings.rank statement < before.length := by omega
  have hequal : settings.rank statement ≠ before.length := by omega
  simp [ahead, hlast, hless, hequal]

end Order

theorem ahead_of_same (same : settings.groupOf statement = settings.groupOf last) :
    settings.ahead last statement = settings.sortBy.le statement last := by
  simp [ahead, rank, same]

end Settings

namespace Format

variable {settings : Settings} {statements others : List Statement} {last : Statement}

theorem members_filter {category : Category} {p q : Statement → Bool}
    (same : ∀ statement ∈ statements, settings.groupOf statement = category →
      p statement = q statement) :
    category.members settings.groupByScope (statements.filter p) =
      (category.members settings.groupByScope statements).filter q := by
  rw [Category.members, Category.members, List.filter_filter, List.filter_filter]
  refine List.filter_congr fun statement member => ?_
  by_cases hgroup : settings.groupOf statement = category
  · rw [same statement member hgroup, Bool.and_comm]
  · have hne : ((Category.ofNormal statement.normal).group settings.groupByScope == category) =
        false := beq_false_of_ne hgroup
    rw [hne, Bool.false_and, Bool.and_false]

theorem group_filter_of_pos {category : Category} {p : Statement → Bool}
    (h : ∀ statement ∈ statements, settings.groupOf statement = category → p statement = true) :
    Format.group settings (statements.filter p) category =
      Format.group settings statements category := by
  have hmembers := members_filter h
  rw [List.filter_true] at hmembers
  rw [Format.group, Format.group, hmembers]

theorem group_filter_of_neg {category : Category} {p : Statement → Bool}
    (h : ∀ statement ∈ statements, settings.groupOf statement = category → p statement = false) :
    Format.group settings (statements.filter p) category = [] := by
  have hmembers := members_filter h
  rw [List.filter_false] at hmembers
  rw [Format.group, hmembers]
  exact List.mergeSort_nil

theorem group_concat_of_ne {category : Category} (ne : settings.groupOf last ≠ category) :
    Format.group settings (others ++ [last]) category = Format.group settings others category := by
  have hnone : category.members settings.groupByScope [last] = [] :=
    members_eq_nil (by simpa [Settings.groupOf] using ne)
  rw [Format.group, Format.group, members_append, hnone, List.append_nil]

theorem arranged_cut {before after : List Category} {category : Category}
    (order : settings.importOrder = before ++ category :: after)
    {upper lower : Category → List Statement}
    (above : ∀ other ∈ before, Format.group settings statements other = upper other)
    (below : ∀ other ∈ after, Format.group settings statements other = lower other) :
    arranged settings statements = (before.map fun other => Statement.distinct (upper other)) ++
      Statement.distinct (Format.group settings statements category) ::
        after.map fun other => Statement.distinct (lower other) := by
  rw [arranged, order, List.map_append, List.map_cons]
  congr 1
  · exact List.map_congr_left fun other member => by rw [above other member]
  · congr 1
    exact List.map_congr_left fun other member => by rw [below other member]

section Concat

variable (apart : ∀ statement ∈ others, statement.rawText ≠ last.rawText)
  (normal : ∀ left ∈ others, ∀ right ∈ others, left.rawText = right.rawText →
    left.normal = right.normal)

include apart normal

theorem distinct_group_concat :
    Statement.distinct (Format.group settings (others ++ [last]) (settings.groupOf last)) =
      Statement.distinct (Format.group settings (others.filter (settings.ahead last))
        (settings.groupOf last)) ++
      last :: Statement.distinct (Format.group settings (others.filter (!settings.ahead last ·))
        (settings.groupOf last)) := by
  have hlast : (settings.groupOf last).members settings.groupByScope [last] = [last] := by
    simp [Category.members, Settings.groupOf]
  have hahead : (settings.groupOf last).members settings.groupByScope
      (others.filter (settings.ahead last)) = _ :=
    members_filter fun statement _ => Settings.ahead_of_same
  have hbehind : (settings.groupOf last).members settings.groupByScope
      (others.filter (!settings.ahead last ·)) = _ :=
    members_filter fun statement _ same => congrArg (!·) (Settings.ahead_of_same same)
  have hmem : ∀ statement ∈ (settings.groupOf last).members settings.groupByScope others,
      statement ∈ others := fun statement member => (List.mem_filter.mp member).1
  rw [Format.group, Format.group, Format.group, members_append, hlast, SortOrder.sort_concat,
    hahead, hbehind]
  generalize (settings.groupOf last).members settings.groupByScope others = members at hmem
  have hupper : ∀ statement ∈ settings.sortBy.sort (members.filter (settings.sortBy.le · last)),
      statement ∈ others ∧ settings.sortBy.le statement last = true := by
    intro statement member
    exact (SortOrder.mem_sort_filter member).imp_left (hmem statement)
  have hlower : ∀ statement ∈ settings.sortBy.sort (members.filter (!settings.sortBy.le · last)),
      statement ∈ others ∧ settings.sortBy.le statement last = false := by
    intro statement member
    obtain ⟨hmember, hle⟩ := SortOrder.mem_sort_filter member
    exact ⟨hmem statement hmember, by simpa using hle⟩
  rw [← List.singleton_append, Statement.distinct_append, Statement.distinct_append]
  · rfl
  · intro left hleft right hright
    rw [List.mem_singleton.mp hleft]
    exact (apart right (hlower right hright).1).symm
  · intro left hleft right hright
    obtain ⟨hothers, hle⟩ := hupper left hleft
    rcases List.mem_append.mp hright with hright | hright
    · rw [List.mem_singleton.mp hright]
      exact apart left hothers
    · obtain ⟨hothers', hnot⟩ := hlower right hright
      intro same
      have hsame := settings.sortBy.le_of_normal (normal left hothers right hothers' same)
        (rfl : last.normal = last.normal)
      rw [hle, hnot] at hsame
      contradiction

/-- Arranging with one more statement at the end is arranging what comes before it and what comes
after, with the statement between. -/
theorem arranged_concat (valid : settings.validate = .ok ()) :
    ∃ above below upper lower none none', (∀ group ∈ none ++ none', group = []) ∧
      arranged settings (others ++ [last]) = above ++ (upper ++ last :: lower) :: below ∧
      arranged settings (others.filter (settings.ahead last)) = above ++ upper :: none ∧
      arranged settings (others.filter (!settings.ahead last ·)) = none' ++ lower :: below := by
  obtain ⟨before, after, horder⟩ :=
    List.append_of_mem (Settings.mem_of_validate valid (settings.groupOf last))
  have hnodup := Settings.nodup_of_validate valid
  obtain ⟨hbefore, hafter⟩ := Settings.groupOf_not_mem horder hnodup
  have hearly : ∀ category ∈ before, ∀ statement ∈ others,
      settings.groupOf statement = category → settings.ahead last statement = true := by
    rintro category member statement - rfl
    exact Settings.ahead_of_before horder hnodup member
  have hlate : ∀ category ∈ after, ∀ statement ∈ others,
      settings.groupOf statement = category → settings.ahead last statement = false := by
    rintro category member statement - rfl
    exact Settings.ahead_of_after horder hnodup member
  refine ⟨before.map fun category => Statement.distinct (Format.group settings others category),
    after.map fun category => Statement.distinct (Format.group settings others category),
    Statement.distinct (Format.group settings (others.filter (settings.ahead last))
      (settings.groupOf last)),
    Statement.distinct (Format.group settings (others.filter (!settings.ahead last ·))
      (settings.groupOf last)),
    after.map fun _ => [], before.map fun _ => [], by simp, ?_, ?_, ?_⟩
  · rw [← distinct_group_concat apart normal]
    exact arranged_cut horder
      (fun category member => group_concat_of_ne fun same => hbefore (same ▸ member))
      fun category member => group_concat_of_ne fun same => hafter (same ▸ member)
  · exact arranged_cut horder (fun category member => group_filter_of_pos (hearly category member))
      fun category member => group_filter_of_neg (hlate category member)
  · refine arranged_cut horder (fun category member => group_filter_of_neg ?_)
      fun category member => group_filter_of_pos ?_
    · exact fun statement hmem same => by simp [hearly category member statement hmem same]
    · exact fun statement hmem same => by simp [hlate category member statement hmem same]

end Concat
end Format
end ImportBlock
