import ImportBlock.Proofs.Format.Preservation
import ImportBlock.Proofs.Format.Written
import ImportBlock.Proofs.Layout.Ahead

/-! Where a statement that never ends goes, and what goes above it and below. -/

namespace ImportBlock

open Text Layout

namespace Format

variable {settings : Settings} {statements : List Statement} {text : Text} {region : Region}

theorem exists_infix_writtenLines (valid : settings.validate = .ok ()) {statement : Statement}
    (member : statement ∈ statements) : ∃ kept ∈ statements, kept.rawText = statement.rawText ∧
      (kept.written settings).source <:+: writtenLines settings statements := by
  obtain ⟨kept, hkept, hsame⟩ := exists_mem_arranged valid member
  obtain ⟨group, hgroup, hmem⟩ := List.mem_flatten.mp hkept
  refine ⟨kept, mem_of_mem_arranged hgroup kept hmem, hsame, infix_groupLines ?_ false⟩
  exact List.mem_flatten.mpr ⟨_, List.mem_map_of_mem hgroup, List.mem_map_of_mem hmem⟩

/-- The last statement is written between those that come before it and those that come after. -/
theorem writtenLines_concat (valid : settings.validate = .ok ()) {others : List Statement}
    {last : Statement} (apart : ∀ statement ∈ others, statement.rawText ≠ last.rawText)
    (normal : ∀ left ∈ others, ∀ right ∈ others, left.rawText = right.rawText →
      left.normal = right.normal) :
    ∃ above below, (above = [] ∨ above = gap settings) ∧ (below = [] ∨ below = gap settings) ∧
      writtenLines settings (others ++ [last]) =
        writtenLines settings (others.filter (settings.ahead last)) ++ above ++
          (last.written settings).source ++
            (below ++ writtenLines settings (others.filter (!settings.ahead last ·))) := by
  obtain ⟨before, after, upper, lower, none, none', hnone, hall, hahead, hbehind⟩ :=
    arranged_concat apart normal valid
  obtain ⟨above, below, habove, hbelow, hlines⟩ := groupLines_cut (gap settings)
    (before.map (·.map (Statement.written settings)))
    (after.map (·.map (Statement.written settings))) (upper.map (Statement.written settings))
    (lower.map (Statement.written settings)) (last.written settings)
  have hempty : ∀ {groups : List (List Statement)}, (∀ group ∈ groups, group = []) →
      (groups.map (·.map (Statement.written settings))).flatten = [] := by
    intro groups nil
    simpa using nil
  rw [List.forall_mem_append] at hnone
  have hupper : writtenLines settings (others.filter (settings.ahead last)) =
      groupLines (gap settings) false ((before.map (·.map (Statement.written settings))) ++
        [upper.map (Statement.written settings)]) := by
    rw [writtenLines, writtenGroups, hahead, List.append_cons, List.map_append, groupLines_append,
      groupLines_of_flatten (hempty hnone.1), List.append_nil, List.map_append]
    rfl
  have hlower : writtenLines settings (others.filter (!settings.ahead last ·)) =
      groupLines (gap settings) false (lower.map (Statement.written settings) ::
        after.map (·.map (Statement.written settings))) := by
    rw [writtenLines, writtenGroups, hbehind, List.map_append, groupLines_append,
      groupLines_of_flatten (hempty hnone.2), hempty hnone.2]
    rfl
  refine ⟨above, below, habove, hbelow, ?_⟩
  rw [hupper, hlower, ← hlines, writtenLines, writtenGroups, hall]
  simp only [List.map_append, List.map_cons]

/-- The last statement of the block is left open at the end of the text. What its group or its
order puts ahead of it is written above its first line, and all else below its last one. -/
structure SortedAround (settings : Settings) (region : Region) (others : List Statement)
    (last : Statement) (above below : List Text) : Prop
    extends Block.LeftOpen (Block.parse region.block) others last where
  bottom : ∀ c ∈ region.after, isBreak c = true
  gaps : (above = [] ∨ above = gap settings) ∧ (below = [] ∨ below = gap settings)
  result : formatted settings [] region.text = region.before ++ joinWith (lineBreak region.text)
    (writtenLines settings (others.filter (settings.ahead last)) ++ above ++
      (last.written settings).source ++
        (below ++ writtenLines settings (others.filter (!settings.ahead last ·)))) ++ region.after
  complete : ∀ statement ∈ others, ∃ kept ∈ others, kept.rawText = statement.rawText ∧
    (kept.written settings).source <:+: writtenLines settings
      (others.filter (settings.ahead last · == settings.ahead last statement))

theorem exists_sortedAround (found : Region.find? text = some region)
    (unfinished : ¬ region.Closed) (valid : settings.validate = .ok ())
    (mode : settings.wholeDocument = false) :
    ∃ others last above below, SortedAround settings region others last above below := by
  obtain ⟨others, last, hopen⟩ := Region.exists_leftOpen found unfinished
  have hnormal : ∀ left ∈ others, ∀ right ∈ others, left.rawText = right.rawText →
      left.normal = right.normal := by
    intro left hleft right hright
    have hleft' : left ∈ others ++ [last] := List.mem_append_left _ hleft
    have hright' : right ∈ others ++ [last] := List.mem_append_left _ hright
    exact normal_of_rawText (hopen.free_lines left hleft') (hopen.free_lines right hright')
      (hopen.ne_nil left hleft') (hopen.ne_nil right hright')
  obtain ⟨above, below, habove, hbelow, hwritten⟩ :=
    writtenLines_concat valid hopen.apart hnormal
  have hrendered := rendered_of_parse mode hopen.block_eq hopen.ne_nil hopen.free
  have hsome : rendered settings [] region ≠ [] := by
    obtain ⟨line, hline, hfull⟩ := exists_ne_nil_written settings hopen.exists_ne_nil
    rw [hrendered, hwritten]
    exact joinWith_ne_nil_of_mem (by simp [Statement.source, hline]) hfull
  refine ⟨others, last, above, below, {
    toLeftOpen := hopen
    bottom := Region.break_of_unfinished found unfinished
    gaps := ⟨habove, hbelow⟩
    result := ?_
    complete := ?_ }⟩
  · rw [Region.text_of_find? found, formatted_of_find? found, replacement_inPlace mode hsome,
      Replacement.result, hrendered, Region.text_of_find? found, hwritten]
  · intro statement member
    have hfilter : statement ∈
        others.filter (settings.ahead last · == settings.ahead last statement) :=
      List.mem_filter.mpr ⟨member, beq_self_eq_true _⟩
    obtain ⟨kept, hkept, hsame, hinfix⟩ := exists_infix_writtenLines valid hfilter
    exact ⟨kept, (List.mem_filter.mp hkept).1, hsame, hinfix⟩

def halfTyped : Region where
  before := []
  block := joinWith ['\n'] (["import a from \"a\";", "import z from \"z\";", "import m, \x7b",
    "  n", "run();"].map String.toList)
  after := ['\n']

theorem exists_sortedAround_halfTyped :
    let settings : Settings := { }
    Region.find? halfTyped.text = some halfTyped ∧ ¬ halfTyped.Closed ∧
      settings.validate = .ok () ∧ settings.wholeDocument = false ∧
      ∃ others last above below, SortedAround settings halfTyped others last above below := by
  intro settings
  have hfound : Region.find? halfTyped.text = some halfTyped := by decide +kernel
  have hunfinished : ¬ halfTyped.Closed := by decide +kernel
  exact ⟨hfound, hunfinished, rfl, rfl, exists_sortedAround hfound hunfinished rfl rfl⟩

/-- The clause without its end takes the code below it above an import. -/
theorem formatted_halfTyped :
    let settings : Settings := { }
    Region.find? halfTyped.text = some halfTyped ∧ ¬ halfTyped.Closed ∧
      settings.validate = .ok () ∧ settings.wholeDocument = false ∧
      (Block.parse halfTyped.block).statements.map Statement.rawText =
        ["import a from \"a\";", "import z from \"z\";", "import m, \x7b\n  n\nrun();"].map
          String.toList ∧
      lines (formatted settings [] halfTyped.text) =
        ["import a from \"a\";", "import m, \x7b", "  n", "run();", "import z from \"z\";"].map
          String.toList := by
  intro settings
  have hfound : Region.find? halfTyped.text = some halfTyped := by decide +kernel
  have hgroup : keptGroup settings [] halfTyped = fun category =>
      (category.members settings.groupByScope (Statement.prune []
        (Format.block settings halfTyped).statements)).insertionSort
          (settings.sortBy.le · · = true) := by
    funext category
    rw [keptGroup_eq, Format.group, SortOrder.sort_eq_insertionSort]
  refine ⟨hfound, by decide +kernel, rfl, rfl, by decide +kernel, ?_⟩
  rw [formatted_of_find? hfound, replacement, rendered, hgroup]
  decide +kernel

end Format
end ImportBlock
