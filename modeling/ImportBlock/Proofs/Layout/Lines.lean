import ImportBlock.Proofs.Block.Statements
import ImportBlock.Proofs.Layout.Groups
import ImportBlock.Proofs.Region.Cut

namespace ImportBlock

open Text Line

namespace Statement

/-- The statement in the lines it is written in. -/
def written (settings : Settings) (statement : Statement) : Statement :=
  { statement with lines := (Layout.wrap settings statement).getD statement.lines }

def unnumbered (statement : Statement) : Statement := { statement with firstLine := 0 }

theorem source_ne_nil {statement : Statement} (h : statement.lines ≠ []) :
    statement.source ≠ [] := by
  simp [source, h]

end Statement

namespace Layout

def gap (settings : Settings) : List Text := if settings.emptyLineBetweenGroups then [[]] else []

theorem blank_gap (settings : Settings) : ∀ text ∈ gap settings, isBlank text = true := by
  rw [gap]
  split <;> simp [isBlank]

def spaced (settings : Settings) (above : List Text) : List Text :=
  above ++ if above.isEmpty then [] else gap settings

def keptTrailing (settings : Settings) (comments : List Text) : List Text :=
  match settings.trailingComments with
  | .keep => comments
  | .discard => []

/-- The groups one below the other, a gap above each of them once something has been written. -/
def groupLines (gap : List Text) : Bool → List (List Statement) → List Text
  | _, [] => []
  | started, group :: groups =>
    if group.isEmpty then groupLines gap started groups
    else
      (if started then gap else []) ++ group.flatMap Statement.source ++ groupLines gap true groups

def firstComments : List (List Statement) → List Text
  | [] => []
  | [] :: groups => firstComments groups
  | (statement :: _) :: _ => statement.comments

def clearFirst : List (List Statement) → List (List Statement)
  | [] => []
  | [] :: groups => [] :: clearFirst groups
  | (statement :: rest) :: groups => ({ statement with comments := [] } :: rest) :: groups

section KeptTrailing

variable {settings : Settings} {comments : List Text}

theorem mem_of_mem_keptTrailing {text : Text} (member : text ∈ keptTrailing settings comments) :
    text ∈ comments := by
  rw [keptTrailing] at member
  split at member
  · exact member
  · contradiction

theorem keptTrailing_keptTrailing (settings : Settings) (comments : List Text) :
    keptTrailing settings (keptTrailing settings comments) = keptTrailing settings comments := by
  simp only [keptTrailing]
  split <;> rfl

theorem commentRun_keptTrailing (settings : Settings) (run : Mode.CommentRun .code comments) :
    Mode.CommentRun .code (keptTrailing settings comments) := by
  rw [keptTrailing]
  split
  · exact run
  · exact Mode.commentRun_nil

end KeptTrailing

section GroupLines

variable {gap : List Text} {groups : List (List Statement)}

theorem groupLines_started (gap : List Text) (groups : List (List Statement)) :
    groupLines gap true groups =
      (if groups.flatten.isEmpty then [] else gap) ++ groupLines gap false groups := by
  induction groups with
  | nil => rfl
  | cons group groups ih =>
    rw [groupLines, groupLines]
    cases group with
    | nil => exact ih
    | cons statement rest => simp

theorem groupLines_of_flatten (nil : groups.flatten = [])
    (started : Bool) : groupLines gap started groups = [] := by
  induction groups with
  | nil => rfl
  | cons group groups ih =>
    obtain ⟨hgroup, hgroups⟩ := List.append_eq_nil_iff.mp nil
    rw [groupLines, hgroup]
    exact ih hgroups

theorem groupLines_spaced (settings : Settings) (above : List Text) (ne : groups.flatten ≠ []) :
    above ++ groupLines (Layout.gap settings) (!above.isEmpty) groups =
      spaced settings above ++ groupLines (Layout.gap settings) false groups := by
  have hne : groups.flatten.isEmpty = false := by simpa using ne
  rw [spaced]
  cases above.isEmpty
  · simp [groupLines_started, hne]
  · simp

theorem groupLines_clearFirst (gap : List Text) (groups : List (List Statement)) :
    groupLines gap false groups =
      firstComments groups ++ groupLines gap false (clearFirst groups) := by
  induction groups with
  | nil => rfl
  | cons group groups ih =>
    cases group with
    | nil => exact ih
    | cons statement rest => simp [groupLines, firstComments, clearFirst, Statement.source]

theorem map_bare_clearFirst (groups : List (List Statement)) :
    (clearFirst groups).map (·.map Statement.bare) = groups.map (·.map Statement.bare) := by
  induction groups with
  | nil => rfl
  | cons group groups ih =>
    cases group with
    | nil => simp only [clearFirst, List.map_cons, ih]
    | cons statement rest => rfl

theorem firstComments_clearFirst (groups : List (List Statement)) :
    firstComments (clearFirst groups) = [] := by
  induction groups with
  | nil => rfl
  | cons group groups ih =>
    cases group with
    | nil => exact ih
    | cons statement rest => rfl

theorem flatten_clearFirst {first : Statement} {rest : List Statement}
    (h : groups.flatten = first :: rest) : firstComments groups = first.comments ∧
      (clearFirst groups).flatten = { first with comments := [] } :: rest := by
  induction groups with
  | nil => simp at h
  | cons group groups ih =>
    cases group with
    | nil => exact ih h
    | cons statement more =>
      rw [List.flatten_cons, List.cons_append, List.cons.injEq] at h
      rcases h with ⟨rfl, rfl⟩
      exact ⟨rfl, rfl⟩

theorem firstComments_unnumbered (groups : List (List Statement)) :
    firstComments (groups.map (·.map Statement.unnumbered)) = firstComments groups := by
  induction groups with
  | nil => rfl
  | cons group groups ih =>
    cases group with
    | nil => exact ih
    | cons statement rest => rfl

theorem groupLines_unnumbered {groups' : List (List Statement)} (started : Bool)
    (same : groups'.map (·.map Statement.unnumbered) = groups.map (·.map Statement.unnumbered)) :
    groupLines gap started groups' = groupLines gap started groups := by
  induction groups generalizing groups' started with
  | nil => rw [List.map_eq_nil_iff.mp same]
  | cons group groups ih =>
    rcases List.map_eq_cons_iff.mp same with ⟨group', rest, rfl, hgroup, hrest⟩
    have hempty : group'.isEmpty = group.isEmpty := by
      simpa using congrArg List.isEmpty hgroup
    have hsource : group'.flatMap Statement.source = group.flatMap Statement.source := by
      have hflat := congrArg (·.flatMap Statement.source) hgroup
      simp only [List.flatMap_map] at hflat
      exact hflat
    simp only [groupLines, hempty, hsource, ih _ hrest]

theorem mem_of_mem_groupLines {started : Bool} {text : Text}
    (h : text ∈ groupLines gap started groups) :
    text ∈ gap ∨ ∃ statement ∈ groups.flatten, text ∈ statement.source := by
  induction groups generalizing started with
  | nil => simp [groupLines] at h
  | cons group groups ih =>
    have hrest : ∀ started, text ∈ groupLines gap started groups →
        text ∈ gap ∨ ∃ statement ∈ (group :: groups).flatten, text ∈ statement.source := by
      intro started member
      rcases ih member with hgap | ⟨statement, hstatement, htext⟩
      · exact .inl hgap
      · exact .inr ⟨statement, List.mem_append_right _ hstatement, htext⟩
    rw [groupLines] at h
    split at h
    · exact hrest started h
    · rcases List.mem_append.mp h with hupper | hlower
      · rcases List.mem_append.mp hupper with hgap | hsource
        · split at hgap
          · exact .inl hgap
          · contradiction
        · rcases List.mem_flatMap.mp hsource with ⟨statement, hstatement, htext⟩
          exact .inr ⟨statement, List.mem_append_left _ hstatement, htext⟩
      · exact hrest true hlower

theorem mem_clearFirst {statement : Statement} (h : statement ∈ (clearFirst groups).flatten) :
    statement ∈ groups.flatten ∨
      ∃ original ∈ groups.flatten, statement = { original with comments := [] } := by
  cases hgroups : groups.flatten with
  | nil =>
    have hbare := congrArg List.flatten (map_bare_clearFirst groups)
    rw [← List.map_flatten, ← List.map_flatten, hgroups] at hbare
    rw [List.map_eq_nil_iff.mp hbare] at h
    contradiction
  | cons first rest =>
    rw [(flatten_clearFirst hgroups).2] at h
    rcases List.mem_cons.mp h with rfl | hmem
    · exact .inr ⟨first, List.mem_cons_self, rfl⟩
    · exact .inl (List.mem_cons_of_mem first hmem)

theorem mem_source_clearFirst {statement : Statement} {text : Text}
    (h : statement ∈ (clearFirst groups).flatten) (line : text ∈ statement.source) :
    ∃ original ∈ groups.flatten, text ∈ original.source := by
  rcases mem_clearFirst h with hmem | ⟨original, horiginal, rfl⟩
  · exact ⟨statement, hmem, line⟩
  · exact ⟨original, horiginal, List.mem_append_right _ line⟩

theorem mem_firstComments {text : Text} (h : text ∈ firstComments groups) :
    ∃ original ∈ groups.flatten, text ∈ original.source := by
  induction groups with
  | nil => simp [firstComments] at h
  | cons group groups ih =>
    cases group with
    | nil => exact ih h
    | cons statement rest => exact ⟨statement, List.mem_cons_self, List.mem_append_left _ h⟩

theorem whole_clearFirst (h : ∀ statement ∈ groups.flatten, statement.Whole) :
    ∀ statement ∈ (clearFirst groups).flatten, statement.Whole := by
  intro statement member
  rcases mem_clearFirst member with hmem | ⟨original, horiginal, rfl⟩
  · exact h statement hmem
  · exact ⟨Mode.commentRun_nil, (h original horiginal).lines⟩

theorem commentRun_firstComments (h : ∀ statement ∈ groups.flatten, statement.Whole) :
    Mode.CommentRun .code (firstComments groups) := by
  induction groups with
  | nil => exact Mode.commentRun_nil
  | cons group groups ih =>
    cases group with
    | nil => exact ih h
    | cons statement rest => exact (h statement List.mem_cons_self).comments

theorem clearFirst_ne_nil (h : groups.flatten ≠ []) : (clearFirst groups).flatten ≠ [] := by
  rcases List.exists_cons_of_ne_nil h with ⟨first, rest, hgroups⟩
  rw [(flatten_clearFirst hgroups).2]
  exact List.cons_ne_nil _ _

end GroupLines

section AddGroup

variable {settings : Settings}

theorem foldl_addGroup {groups : List (List Statement)} (lines : List Text)
    (ne : ∀ statement ∈ groups.flatten, (statement.written settings).lines ≠ []) :
    groups.foldl (addGroup settings) lines = lines ++ groupLines (gap settings) (!lines.isEmpty)
      (groups.map fun group => (Statement.distinct group).map (Statement.written settings)) := by
  induction groups generalizing lines with
  | nil => simp [groupLines]
  | cons group groups ih =>
    have hrest : ∀ statement ∈ groups.flatten, (statement.written settings).lines ≠ [] :=
      fun statement member => ne statement (List.mem_append_right _ member)
    rw [List.foldl_cons, ih _ hrest, List.map_cons, groupLines]
    cases group with
    | nil => rfl
    | cons statement rest =>
      have hsource : (statement.written settings).source ≠ [] :=
        Statement.source_ne_nil (ne statement (by simp))
      have hstatement : statementLines settings statement ≠ [] := hsource
      have hlines : (Statement.distinct (statement :: rest)).flatMap (statementLines settings) =
          ((Statement.distinct (statement :: rest)).map (Statement.written settings)).flatMap
            Statement.source := by
        rw [List.flatMap_map]
        rfl
      have hstarted : (addGroup settings lines (statement :: rest)).isEmpty = false := by
        simp [addGroup, Statement.distinct, hstatement]
      rw [hstarted, addGroup, hlines, gap]
      cases hempty : lines.isEmpty <;> cases settings.emptyLineBetweenGroups <;>
        simp [Statement.distinct]

theorem ne_nil_of_mem_keptGroup {statements : List Statement} {groups : List (List Statement)}
    (h : ∀ group ∈ groups, ∀ statement ∈ group, statement ∈ statements)
    (ne : ∀ statement ∈ statements, (statement.written settings).lines ≠ []) :
    ∀ statement ∈ groups.flatten, (statement.written settings).lines ≠ [] := by
  intro statement member
  rcases List.mem_flatten.mp member with ⟨group, hgroup, hmem⟩
  exact ne statement (h group hgroup statement hmem)

/-- What is written of a block: its header, the groups and the comments kept below them. -/
theorem blockLines_eq (block : Block) {statements : List Statement}
    (ne : ∀ statement ∈ statements, (statement.written settings).lines ≠ []) :
    blockLines settings block (Format.group settings statements) =
      headerLines settings block.header ++
        groupLines (gap settings) (!(headerLines settings block.header).isEmpty)
          ((Format.arranged settings statements).map (·.map (Statement.written settings))) ++
        keptTrailing settings block.trailing := by
  have hmem : ∀ group ∈ settings.importOrder.map (Format.group settings statements),
      ∀ statement ∈ group, statement ∈ statements := by
    intro group member statement hmem
    rcases List.mem_map.mp member with ⟨category, -, rfl⟩
    exact (Format.mem_group.mp hmem).1
  rw [blockLines, foldl_addGroup _ (ne_nil_of_mem_keptGroup hmem ne), List.map_map,
    Format.arranged, List.map_map]
  cases htrailing : settings.trailingComments <;> simp [keptTrailing, htrailing, Function.comp_def]

end AddGroup

end Layout

namespace Mode

/-- Lines that a block may go on with: read from code to code, the last of them one of a
statement. -/
structure BlockRun (texts : List Text) : Prop where
  after : Mode.after .code texts = .code
  inside : ∀ line ∈ label .code texts, line.inBlock = true
  ends : ∀ front last, label .code texts = front ++ [last] → last.isFiller = false

namespace BlockRun

variable {upper lower : List Text}

theorem nil : BlockRun [] := ⟨rfl, by simp [label], by simp [label]⟩

theorem append_of_ends (settled : Mode.after .code upper = .code)
    (inside : ∀ line ∈ label .code upper, line.inBlock = true) (below : BlockRun lower)
    (ne : lower ≠ []) : BlockRun (upper ++ lower) := by
  refine ⟨by rw [after_append, settled, below.after], ?_, ?_⟩
  · intro line member
    rw [label_append, settled] at member
    rcases List.mem_append.mp member with hline | hline
    · exact inside line hline
    · exact below.inside line hline
  · intro front last h
    rw [label_append, settled] at h
    have hne : label .code lower ≠ [] := fun hnil => ne (label_eq_nil_iff.mp hnil)
    rcases (List.eq_nil_or_concat' (label .code lower)).resolve_left hne with ⟨front', last', hlast⟩
    rw [hlast, ← List.append_assoc] at h
    rcases List.append_inj' h rfl with ⟨-, hend⟩
    rw [List.singleton_inj] at hend
    exact hend ▸ below.ends front' last' hlast

theorem append (above : BlockRun upper) (below : BlockRun lower) : BlockRun (upper ++ lower) := by
  by_cases hnil : lower = []
  · rwa [hnil, List.append_nil]
  · exact append_of_ends above.after above.inside below hnil

theorem gap_append {gap : List Text} (blank : ∀ text ∈ gap, isBlank text = true)
    (below : BlockRun lower) (ne : lower ≠ []) : BlockRun (gap ++ lower) := by
  refine append_of_ends (Block.Below.after_blank blank) ?_ below ne
  intro line member
  rw [inBlock, Block.Below.label_blank blank line member]

theorem of_wholeLines (h : Statement.WholeLines lower) : BlockRun lower := by
  rcases h.label_eq with ⟨first, rest, hlabel, hfirst, hrest⟩
  have hkind : ∀ line ∈ label .code lower, line.kind = .opening ∨ line.kind = .continued := by
    intro line member
    rw [hlabel] at member
    rcases List.mem_cons.mp member with rfl | hmem
    · exact .inl hfirst
    · exact .inr (hrest line hmem)
  refine ⟨h.after_eq, ?_, ?_⟩
  · intro line member
    rcases hkind line member with h | h <;> simp [inBlock, h]
  · intro front last hlast
    have hmem : last ∈ label .code lower := by simp [hlast]
    rcases hkind last hmem with h | h <;> simp [isFiller, h]

theorem source {statement : Statement} (h : statement.Whole) : BlockRun statement.source := by
  refine append_of_ends h.comments.2 ?_ (of_wholeLines h.lines) h.lines.ne_nil
  intro line member
  exact inBlock_of_isCommentKind (h.comments.1 line member)

theorem sources {statements : List Statement} (h : ∀ statement ∈ statements, statement.Whole) :
    BlockRun (statements.flatMap Statement.source) := by
  induction statements with
  | nil => exact nil
  | cons statement rest ih =>
    rw [List.flatMap_cons]
    exact (source (h statement List.mem_cons_self)).append
      (ih fun other member => h other (List.mem_cons_of_mem statement member))

theorem groupLines {gap : List Text} {groups : List (List Statement)} (started : Bool)
    (blank : ∀ text ∈ gap, isBlank text = true)
    (h : ∀ statement ∈ groups.flatten, statement.Whole) :
    BlockRun (Layout.groupLines gap started groups) := by
  induction groups generalizing started with
  | nil => exact nil
  | cons group groups ih =>
    have hrest := fun started =>
      ih started fun statement member => h statement (List.mem_append_right _ member)
    rw [Layout.groupLines]
    cases group with
    | nil => exact hrest started
    | cons statement rest =>
      have hgroup : ∀ other ∈ statement :: rest, other.Whole :=
        fun other member => h other (List.mem_append_left _ member)
      have hne : (statement :: rest).flatMap Statement.source ≠ [] := by
        have := Statement.source_ne_nil (hgroup statement List.mem_cons_self).lines.ne_nil
        simp [this]
      have hgap : ∀ text ∈ (if started = true then gap else []), isBlank text = true := by
        cases started
        · simp
        · exact blank
      exact (gap_append hgap (sources hgroup) hne).append (hrest true)

end BlockRun
end Mode

namespace Layout

variable {gap : List Text} {groups : List (List Statement)}

theorem isBlock_groupLines (blank : ∀ text ∈ gap, isBlank text = true)
    (h : ∀ statement ∈ groups.flatten, statement.Whole) (ne : groups.flatten ≠ [])
    (first : firstComments groups = []) : Region.IsBlock (groupLines gap false groups) where
  opens := by
    induction groups with
    | nil => contradiction
    | cons group groups ih =>
      cases group with
      | nil => exact ih h ne first
      | cons statement rest =>
        have hwhole := h statement List.mem_cons_self
        rcases hwhole.lines.label_eq with ⟨line, more, hlabel, hkind, -⟩
        have hcomments : statement.comments = [] := first
        refine ⟨line, ?_, ?_, hkind⟩
        · exact more ++ label .code
            (rest.flatMap Statement.source ++ groupLines gap true groups)
        · simp [groupLines, Statement.source, hcomments, List.append_assoc, label_append, hlabel,
            hwhole.lines.after_eq]
  inside := (Mode.BlockRun.groupLines false blank h).inside
  ends := (Mode.BlockRun.groupLines false blank h).ends

end Layout

namespace Block.Below

theorem read_sources (below : Below) (n : Nat) {statements : List Statement}
    (h : ∀ statement ∈ statements, statement.Whole) (none : below.continued = []) :
    ∃ statements', below.read .code n (statements.flatMap Statement.source) =
        { below with statements := statements' ++ below.statements } ∧
      statements'.map Statement.unnumbered = statements.map Statement.unnumbered := by
  induction statements generalizing n with
  | nil => exact ⟨[], rfl, rfl⟩
  | cons statement rest ih =>
    have hwhole := h statement List.mem_cons_self
    obtain ⟨rest', hread, hsame⟩ := ih (n + statement.source.length)
      fun other member => h other (List.mem_cons_of_mem statement member)
    obtain ⟨first, hfirst⟩ := read_whole { below with statements := rest' ++ below.statements } n
      (by simp : ∀ text ∈ [], isBlank text = true) hwhole none
    refine ⟨{ statement with firstLine := first } :: rest', ?_, ?_⟩
    · rw [List.flatMap_cons, read_append, hwhole.after_source, hread]
      exact hfirst
    · rw [List.map_cons, List.map_cons, hsame]
      rfl

/-- The groups are read as they were written, whatever stands between them. -/
theorem read_groupLines (below : Below) (n : Nat) (started : Bool) {gap : List Text}
    {groups : List (List Statement)} (blank : ∀ text ∈ gap, isBlank text = true)
    (h : ∀ statement ∈ groups.flatten, statement.Whole) (none : below.continued = []) :
    ∃ groups' : List (List Statement),
      below.read .code n (Layout.groupLines gap started groups) =
        { below with statements := groups'.flatten ++ below.statements } ∧
      groups'.map (·.map Statement.unnumbered) = groups.map (·.map Statement.unnumbered) := by
  induction groups generalizing n started with
  | nil => exact ⟨[], rfl, rfl⟩
  | cons group groups ih =>
    have hrest : ∀ statement ∈ groups.flatten, statement.Whole :=
      fun statement member => h statement (List.mem_append_right _ member)
    have hgroup : ∀ statement ∈ group, statement.Whole :=
      fun statement member => h statement (List.mem_append_left _ member)
    rw [Layout.groupLines]
    split
    · next hempty =>
      rcases ih n started hrest with ⟨groups', hread, hsame⟩
      refine ⟨[] :: groups', hread, ?_⟩
      rw [List.map_cons, List.map_cons, hsame, List.isEmpty_iff.mp hempty]
    · set upper := if started = true then gap else [] with hupper
      have hblank : ∀ text ∈ upper, isBlank text = true := by
        rw [hupper]
        split
        · exact blank
        · simp
      obtain ⟨groups', hread, hsame⟩ :=
        ih (n + (upper ++ group.flatMap Statement.source).length) true hrest
      obtain ⟨group', hread', hsame'⟩ :=
        read_sources { below with statements := groups'.flatten ++ below.statements }
          (n + upper.length) hgroup none
      have hafter : Mode.after .code (upper ++ group.flatMap Statement.source) = .code := by
        rw [Mode.after_append, after_blank hblank, (Mode.BlockRun.sources hgroup).after]
      refine ⟨group' :: groups', ?_, ?_⟩
      · calc
          below.read .code n
              (upper ++ group.flatMap Statement.source ++ Layout.groupLines gap true groups) =
              read { below with statements := groups'.flatten ++ below.statements } .code n
                (upper ++ group.flatMap Statement.source) := by
            rw [read_append, hafter, hread]
          _ = read { below with statements := group' ++ (groups'.flatten ++ below.statements) }
              .code n upper := by
            rw [read_append, after_blank hblank, hread']
          _ = { below with statements := (group' :: groups').flatten ++ below.statements } := by
            rw [read_blank _ _ hblank, List.flatten_cons, List.append_assoc]
      · rw [List.map_cons, List.map_cons, hsame, hsame']

end Block.Below
end ImportBlock
