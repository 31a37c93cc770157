import Mathlib.Data.List.Chain
import ImportBlock.Proofs.Layout.NonBlank

/-! Where the blank lines of a written block stand: between its header and its groups, and nowhere
else. -/

namespace ImportBlock

open Text

namespace Layout

def linesOfGroup (settings : Settings) (group : List Statement) : List Text :=
  (Statement.distinct group).flatMap (statementLines settings)

/-- What gaps stand between: the header, if any of it is written, and the groups that have
statements. -/
def sections (settings : Settings) (header : List Text) (groups : List (List Statement)) :
    List (List Text) :=
  (if header.isEmpty then [] else [header]) ++
    (groups.filter (!·.isEmpty)).map (linesOfGroup settings)

def LastFilled (lines : List Text) : Prop := ∀ line ∈ lines.getLast?, isBlank line = false

/-- No blank line stands at either end, nor below another one. -/
structure WellSpaced (lines : List Text) : Prop where
  first : ∀ line ∈ lines.head?, isBlank line = false
  last : LastFilled lines
  apart : lines.IsChain fun upper lower => isBlank upper = false ∨ isBlank lower = false

/-- Lines to be written that are neither blank nor broken, each statement having one at least. -/
structure Filled (block : Block) (group : Category → List Statement) : Prop where
  header : ∀ line ∈ block.header, isBlank line.text = false ∧ '\n' ∉ line.text
  source : ∀ category, ∀ statement ∈ group category, ∀ line ∈ statement.source,
    isBlank line = false ∧ '\n' ∉ line
  lines : ∀ category, ∀ statement ∈ group category, statement.lines ≠ []
  trailing : ∀ line ∈ block.trailing, isBlank line = false ∧ '\n' ∉ line

/-- The block is written in these lines. One blank line parts each two of its sections, or none
does, and there is no other; the comments of a statement stand right above it. -/
structure Separated (settings : Settings) (block : Block) (group : Category → List Statement)
    (header : List Text) (groups : List (List Statement)) (lines : List Text) : Prop where
  written : render settings block group = joinWith ['\n'] lines
  free : NoFeed lines
  parted : lines = (gap settings).intercalate (sections settings header groups) ++
    keptTrailing settings block.trailing
  filled : ∀ part ∈ sections settings header groups,
    part ≠ [] ∧ ∀ line ∈ part, isBlank line = false
  trailing : ∀ line ∈ keptTrailing settings block.trailing, isBlank line = false
  blanks : lines.countP isBlank =
    if settings.emptyLineBetweenGroups then (sections settings header groups).length - 1 else 0
  spaced : WellSpaced lines
  together : ∀ earlier statement later, earlier ++ statement :: later ∈ groups →
    (∀ other ∈ earlier, other.rawText ≠ statement.rawText) →
      statement.comments ++ (wrap settings statement).getD statement.lines <:+: lines

section Wrapping

variable {settings : Settings} {before inside after : Text}

theorem filled_items {separator : Char} {text member : Text}
    (mem : member ∈ items separator text) : isBlank member = false := by
  obtain ⟨hmap, hne⟩ := List.mem_filter.mp mem
  obtain ⟨part, -, rfl⟩ := List.mem_map.mp hmap
  rw [← Bool.not_eq_true, isBlank_iff_trim, trim_trim]
  simpa using hne

theorem filled_bracedLines :
    ∀ line ∈ bracedLines before inside after, isBlank line = false := by
  intro line member
  rw [bracedLines, List.cons_append, List.mem_cons, List.mem_append, List.mem_singleton] at member
  rcases member with rfl | hmember | rfl
  · exact isBlank_eq_false_of_mem (c := '{') (by simp) (by decide)
  · obtain ⟨text, htext, hline⟩ := exists_of_mem_memberLines hmember
    obtain ⟨c, hc, hstays⟩ := List.all_eq_false.mp (filled_items htext)
    apply isBlank_eq_false_of_mem (c := c)
    · rcases hline with rfl | rfl <;> simp [hc]
    · simpa using hstays
  · exact isBlank_eq_false_of_mem List.mem_cons_self (by decide)

theorem filled_statementLines {statement : Statement}
    (filled : ∀ line ∈ statement.source, isBlank line = false) :
    ∀ line ∈ statementLines settings statement, isBlank line = false := by
  intro line member
  rcases List.mem_append.mp member with hcomment | hline
  · exact filled line (List.mem_append_left _ hcomment)
  · cases hwrap : wrap settings statement with
    | none =>
      rw [hwrap] at hline
      exact filled line (List.mem_append_right _ hline)
    | some ls =>
      obtain ⟨before, inside, after, -, -, rfl⟩ := exists_of_wrap hwrap
      rw [hwrap, Option.getD_some] at hline
      exact filled_bracedLines line hline

end Wrapping

section Sections

variable {settings : Settings} {header : List Text} {groups : List (List Statement)}
  {group : List Statement}

theorem linesOfGroup_ne_nil (ne : group ≠ [])
    (lines : ∀ statement ∈ group, statement.lines ≠ []) : linesOfGroup settings group ≠ [] := by
  cases group with
  | nil => contradiction
  | cons statement rest =>
    have hfirst : statementLines settings statement ≠ [] :=
      Statement.source_ne_nil (written_ne_nil (lines statement List.mem_cons_self))
    simp [linesOfGroup, Statement.distinct, hfirst]

theorem intercalate_concat {gap : List Text} {parts : List (List Text)} (ne : parts ≠ [])
    (last : List Text) :
    gap.intercalate (parts ++ [last]) = gap.intercalate parts ++ gap ++ last := by
  induction parts with
  | nil => contradiction
  | cons part parts ih =>
    by_cases hnil : parts = []
    · subst hnil
      simp [List.intercalate_cons_of_ne_nil]
    · rw [List.cons_append, List.intercalate_cons_of_ne_nil (by simp), ih hnil,
        List.intercalate_cons_of_ne_nil hnil]
      simp only [List.append_assoc]

theorem intercalate_ne_nil {gap : List Text} {parts : List (List Text)} (ne : parts ≠ [])
    (filled : ∀ part ∈ parts, part ≠ []) : gap.intercalate parts ≠ [] := by
  obtain ⟨part, rest, rfl⟩ := List.exists_cons_of_ne_nil ne
  have hpart := filled part List.mem_cons_self
  by_cases hnil : rest = []
  · simpa [hnil] using hpart
  · rw [List.intercalate_cons_of_ne_nil hnil]
    simp [hpart]

theorem infix_intercalate {gap part : List Text} {parts : List (List Text)}
    (member : part ∈ parts) : part <:+: gap.intercalate parts := by
  induction parts with
  | nil => contradiction
  | cons first rest ih =>
    by_cases hnil : rest = []
    · subst hnil
      rw [List.mem_singleton.mp member]
      simp
    · rw [List.intercalate_cons_of_ne_nil hnil]
      rcases List.mem_cons.mp member with rfl | hrest
      · exact (List.prefix_append _ _).isInfix.trans (List.prefix_append _ _).isInfix
      · exact (ih hrest).trans (List.suffix_append _ _).isInfix

theorem addGroup_intercalate {above : List (List Text)} (filled : ∀ part ∈ above, part ≠ [])
    (group : List Statement) : addGroup settings ((gap settings).intercalate above) group =
      (gap settings).intercalate
        (above ++ if group.isEmpty then [] else [linesOfGroup settings group]) := by
  rw [addGroup]
  split
  · rw [List.append_nil]
  · by_cases hnil : above = []
    · subst hnil
      simp [linesOfGroup]
    · have hsome : ((gap settings).intercalate above).isEmpty = false :=
        List.isEmpty_eq_false_iff.mpr (intercalate_ne_nil hnil filled)
      rw [intercalate_concat hnil, hsome, gap, linesOfGroup]
      simp

theorem foldl_addGroup_intercalate (settings : Settings) {above : List (List Text)}
    (filled : ∀ part ∈ above, part ≠ [])
    (lines : ∀ group ∈ groups, ∀ statement ∈ group, statement.lines ≠ []) :
    groups.foldl (addGroup settings) ((gap settings).intercalate above) =
      (gap settings).intercalate
        (above ++ (groups.filter (!·.isEmpty)).map (linesOfGroup settings)) := by
  induction groups generalizing above with
  | nil => simp
  | cons group groups ih =>
    obtain ⟨hgroup, hgroups⟩ := List.forall_mem_cons.mp lines
    rw [List.foldl_cons, addGroup_intercalate filled]
    by_cases hnil : group = []
    · subst hnil
      simpa using ih filled hgroups
    · have hempty : group.isEmpty = false := List.isEmpty_eq_false_iff.mpr hnil
      have hbelow : ∀ part ∈ above ++ [linesOfGroup settings group], part ≠ [] := by
        intro part member
        rcases List.mem_append.mp member with habove | hlast
        · exact filled part habove
        · rw [List.mem_singleton.mp hlast]
          exact linesOfGroup_ne_nil hnil hgroup
      simpa [hempty] using ih hbelow hgroups

/-- What is written of a block: its sections, gaps between them, and the comments kept below. -/
theorem blockLines_eq_intercalate (settings : Settings) (block : Block)
    {group : Category → List Statement}
    (lines : ∀ category, ∀ statement ∈ group category, statement.lines ≠ []) :
    blockLines settings block group =
      (gap settings).intercalate (sections settings (headerLines settings block.header)
        (settings.importOrder.map group)) ++ keptTrailing settings block.trailing := by
  set header := headerLines settings block.header with hheader
  have hfilled : ∀ part ∈ (if header.isEmpty then [] else [header]), part ≠ [] := by
    split
    · simp
    · next hsome => simpa using hsome
  have habove : (gap settings).intercalate (if header.isEmpty then [] else [header]) = header := by
    split
    · next hnil => simp [List.isEmpty_iff.mp hnil]
    · simp
  have hlines : ∀ statements ∈ settings.importOrder.map group, ∀ statement ∈ statements,
      statement.lines ≠ [] := by
    intro statements member
    obtain ⟨category, -, rfl⟩ := List.mem_map.mp member
    exact lines category
  have hfold := foldl_addGroup_intercalate settings hfilled hlines
  rw [habove] at hfold
  rw [blockLines, ← hheader, hfold, sections, keptTrailing]
  cases settings.trailingComments <;> simp

end Sections

section Blanks

variable {settings : Settings} {upper lower part : List Text} {parts : List (List Text)}

namespace LastFilled

theorem append (above : LastFilled upper) (below : LastFilled lower) :
    LastFilled (upper ++ lower) := by
  intro line h
  rw [List.getLast?_append, Option.mem_def, Option.or_eq_some_iff] at h
  rcases h with hlower | ⟨-, hupper⟩
  · exact below line hlower
  · exact above line hupper

theorem append_of_ne_nil (below : LastFilled lower) (ne : lower ≠ []) (upper : List Text) :
    LastFilled (upper ++ lower) := by
  intro line h
  rw [List.getLast?_append_of_ne_nil _ ne] at h
  exact below line h

theorem intercalate {gap : List Text} (filled : ∀ part ∈ parts, part ≠ [] ∧ LastFilled part) :
    LastFilled (gap.intercalate parts) := by
  induction parts with
  | nil => simp [LastFilled]
  | cons part parts ih =>
    obtain ⟨⟨-, hpart⟩, hparts⟩ := List.forall_mem_cons.mp filled
    by_cases hnil : parts = []
    · subst hnil
      simpa using hpart
    · rw [List.intercalate_cons_of_ne_nil hnil]
      exact (ih hparts).append_of_ne_nil
        (intercalate_ne_nil hnil fun part member => (hparts part member).1) _

end LastFilled

namespace WellSpaced

theorem of_filled (filled : ∀ line ∈ part, isBlank line = false) : WellSpaced part where
  first := fun line h => filled line (List.mem_of_mem_head? h)
  last := fun line h => filled line (List.mem_of_getLast? h)
  apart := by
    refine List.Pairwise.isChain (List.pairwise_of_forall_mem_list ?_)
    intro upper hupper lower hlower
    exact .inl (filled upper hupper)

theorem append (above : WellSpaced upper) (below : WellSpaced lower) :
    WellSpaced (upper ++ lower) where
  first := by
    intro line h
    rw [List.head?_append, Option.mem_def, Option.or_eq_some_iff] at h
    rcases h with hupper | ⟨-, hlower⟩
    · exact above.first line hupper
    · exact below.first line hlower
  last := above.last.append below.last
  apart := List.isChain_append.mpr
    ⟨above.apart, below.apart, fun line h _ _ => .inl (above.last line h)⟩

theorem append_gap (above : WellSpaced upper) (below : WellSpaced lower) (someUpper : upper ≠ [])
    (someLower : lower ≠ []) : WellSpaced (upper ++ gap settings ++ lower) := by
  rw [gap]
  split
  · have hfirst : (upper ++ [[]] ++ lower).head? = upper.head? := by
      rw [List.append_assoc, List.head?_append_of_ne_nil _ someUpper]
    refine ⟨fun line h => above.first line (hfirst ▸ h), below.last.append_of_ne_nil someLower _,
      List.isChain_append.mpr ⟨List.isChain_append.mpr ⟨above.apart, by simp, ?_⟩, below.apart, ?_⟩⟩
    · exact fun line h _ _ => .inl (above.last line h)
    · exact fun _ _ line h => .inr (below.first line h)
  · rw [List.append_nil]
    exact above.append below

theorem intercalate
    (filled : ∀ part ∈ parts, part ≠ [] ∧ ∀ line ∈ part, isBlank line = false) :
    WellSpaced ((gap settings).intercalate parts) := by
  induction parts with
  | nil => exact of_filled (by simp)
  | cons part parts ih =>
    obtain ⟨⟨hne, hpart⟩, hparts⟩ := List.forall_mem_cons.mp filled
    by_cases hnil : parts = []
    · subst hnil
      simpa using of_filled hpart
    · rw [List.intercalate_cons_of_ne_nil hnil]
      exact (of_filled hpart).append_gap (ih hparts) hne
        (intercalate_ne_nil hnil fun part member => (hparts part member).1)

end WellSpaced

theorem countP_isBlank_intercalate
    (filled : ∀ part ∈ parts, ∀ line ∈ part, isBlank line = false) :
    ((gap settings).intercalate parts).countP isBlank =
      if settings.emptyLineBetweenGroups then parts.length - 1 else 0 := by
  induction parts with
  | nil => simp
  | cons part parts ih =>
    obtain ⟨hpart, hparts⟩ := List.forall_mem_cons.mp filled
    have hnone : part.countP isBlank = 0 := by
      rw [List.countP_eq_zero]
      exact fun line member => by simp [hpart line member]
    by_cases hnil : parts = []
    · subst hnil
      simpa using hnone
    · have hlength : 0 < parts.length := List.length_pos_iff.mpr hnil
      rw [List.intercalate_cons_of_ne_nil hnil, List.countP_append, List.countP_append, hnone,
        ih hparts, gap]
      split
      · simp [isBlank]
        omega
      · simp

end Blanks

theorem mem_distinct_append {statement : Statement} {earlier later : List Statement}
    (first : ∀ other ∈ earlier, other.rawText ≠ statement.rawText) :
    statement ∈ Statement.distinct (earlier ++ statement :: later) := by
  induction earlier with
  | nil => exact List.mem_cons_self
  | cons other earlier ih =>
    obtain ⟨hother, hearlier⟩ := List.forall_mem_cons.mp first
    refine List.mem_cons_of_mem other (List.mem_filter.mpr ⟨ih hearlier, ?_⟩)
    simpa using Ne.symm hother

section Separated

variable {settings : Settings} {block : Block} {group : Category → List Statement}

theorem mem_sections {header part : List Text}
    (member : part ∈ sections settings header (settings.importOrder.map group)) :
    part = header ∧ header ≠ [] ∨
      ∃ category, group category ≠ [] ∧ part = linesOfGroup settings (group category) := by
  rcases List.mem_append.mp member with hheader | hgroup
  · split at hheader
    · contradiction
    · next hsome => exact .inl ⟨List.mem_singleton.mp hheader, by simpa using hsome⟩
  · obtain ⟨statements, hstatements, rfl⟩ := List.mem_map.mp hgroup
    obtain ⟨hmem, hsome⟩ := List.mem_filter.mp hstatements
    obtain ⟨category, -, rfl⟩ := List.mem_map.mp hmem
    exact .inr ⟨category, by simpa using hsome, rfl⟩

theorem mem_headerLines {header : List HeaderLine} {text : Text}
    (member : text ∈ headerLines settings header) : ∃ line ∈ header, line.text = text := by
  obtain ⟨line, hline, hkept⟩ := List.mem_filterMap.mp member
  refine ⟨line, hline, ?_⟩
  cases line with
  | comment original =>
    dsimp only at hkept
    split at hkept
    · exact Option.some.inj hkept
    · contradiction
  | code original => exact Option.some.inj hkept

theorem Filled.sections (settings : Settings) (filled : Filled block group) :
    ∀ part ∈ sections settings (headerLines settings block.header)
      (settings.importOrder.map group), part ≠ [] ∧ ∀ line ∈ part, isBlank line = false := by
  intro part member
  rcases mem_sections member with ⟨rfl, hne⟩ | ⟨category, hne, rfl⟩
  · refine ⟨hne, fun line hline => ?_⟩
    obtain ⟨original, horiginal, rfl⟩ := mem_headerLines hline
    exact (filled.header original horiginal).1
  · refine ⟨linesOfGroup_ne_nil hne (filled.lines category), fun line hline => ?_⟩
    obtain ⟨statement, hstatement, hline⟩ := List.mem_flatMap.mp hline
    have hsource := filled.source category statement
      ((Statement.sublist_distinct _).subset hstatement)
    exact filled_statementLines (fun text htext => (hsource text htext).1) line hline

/-- A block with filled lines is written with its blank lines in their places. -/
theorem render_separated (settings : Settings) (filled : Filled block group) :
    Separated settings block group (headerLines settings block.header)
      (settings.importOrder.map group) (blockLines settings block group) := by
  have hparted := blockLines_eq_intercalate settings block filled.lines
  have hsections := filled.sections settings
  have htrailing : ∀ line ∈ keptTrailing settings block.trailing, isBlank line = false :=
    fun line member => (filled.trailing line (mem_of_mem_keptTrailing member)).1
  refine ⟨rfl, ?_, hparted, hsections, htrailing, ?_, ?_, ?_⟩
  · refine not_mem_blockLines (by decide) (by decide) (fun line member => ?_)
      (fun category statement member line hline =>
        (filled.source category statement member line hline).2)
      fun line member => (filled.trailing line member).2
    obtain ⟨original, horiginal, rfl⟩ := mem_headerLines member
    exact (filled.header original horiginal).2
  · have hnone : (keptTrailing settings block.trailing).countP isBlank = 0 := by
      rw [List.countP_eq_zero]
      exact fun line member => by simp [htrailing line member]
    rw [hparted, List.countP_append, hnone,
      countP_isBlank_intercalate fun part member => (hsections part member).2, Nat.add_zero]
  · rw [hparted]
    exact (WellSpaced.intercalate hsections).append (WellSpaced.of_filled htrailing)
  · intro earlier statement later member first
    have hstatement : statementLines settings statement <:+:
        linesOfGroup settings (earlier ++ statement :: later) := by
      rw [linesOfGroup, List.flatMap_def]
      exact List.infix_of_mem_flatten (List.mem_map_of_mem (mem_distinct_append first))
    have hgroup : linesOfGroup settings (earlier ++ statement :: later) ∈
        sections settings (headerLines settings block.header)
          (settings.importOrder.map group) := by
      refine List.mem_append_right _ (List.mem_map_of_mem (List.mem_filter.mpr ⟨member, ?_⟩))
      simp
    rw [hparted]
    exact (hstatement.trans (infix_intercalate hgroup)).trans (List.prefix_append _ _).isInfix

/-- A group without statements is no section, and neither is a header that is not written. -/
theorem render_separated_crowded :
    let settings : Settings :=
      { importOrder := [.relative, .scoped, .package], maxLineLength := 20
        preserveLeadingComments := false }
    let block : Block := ⟨[.comment "// top".toList], [], ["// end".toList]⟩
    let group : Category → List Statement := fun
      | .relative =>
        [⟨["// first".toList], ["import \x7b a, b \x7d from './a';".toList], 0⟩,
          ⟨["// again".toList], ["import \x7b a, b \x7d from './a';".toList], 2⟩]
      | .scoped => []
      | .package => [⟨[], ["import \x7b".toList, "\tc".toList, "\x7d from 'c';".toList], 4⟩]
    let lines : List Text :=
      ["// first", "import \x7b", "  a,", "  b", "\x7d from './a';", "", "import \x7b", "\tc",
        "\x7d from 'c';", "// end"].map String.toList
    Filled block group ∧
      Separated settings block group [] (settings.importOrder.map group) lines := by
  intro settings block group lines
  have hlines : blockLines settings block group = lines := by decide +kernel
  have hfilled : Filled block group :=
    ⟨by decide +kernel, fun category => by cases category <;> decide +kernel,
      fun category => by cases category <;> decide +kernel, by decide +kernel⟩
  have hseparated := render_separated settings hfilled
  rw [hlines] at hseparated
  exact ⟨hfilled, hseparated⟩

end Separated

end Layout
end ImportBlock
