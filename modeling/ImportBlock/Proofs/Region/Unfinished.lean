import ImportBlock.Proofs.Region.Leading
import ImportBlock.Proofs.Region.Paired
import ImportBlock.Proofs.Text.Returns

namespace ImportBlock

open Text Line

namespace Text

theorem noFeed_lines (text : Text) : NoFeed (lines text) := by
  intro line member
  obtain ⟨piece, hpiece, rfl⟩ := List.mem_map.mp member
  obtain ⟨l, feed, rfl, hl, rfl | rfl⟩ := exists_of_mem_pieces hpiece
  · rw [dropBreak, List.reverse_append]
    split
    · next body hbody =>
      have hreverse : l.reverse = '\r' :: body := (List.cons.inj hbody).2
      intro hc
      exact hl (List.mem_reverse.mp (by rw [hreverse]; simpa using hc))
    · next body _ hbody =>
      have hreverse : l.reverse = body := (List.cons.inj hbody).2
      rwa [← hreverse, List.reverse_reverse]
    · next _ hno => exact absurd rfl (hno l.reverse)
  · rwa [List.append_nil, dropBreak_of_not_mem hl]

end Text

namespace Mode

theorem exists_ne_nil_of_after {ls : List Text} (ne : after .code ls ≠ .code) :
    ∃ line ∈ ls, line ≠ [] := by
  induction ls with
  | nil => contradiction
  | cons line rest ih =>
    by_cases hnil : line = []
    · rw [hnil] at ne
      obtain ⟨other, member, hfull⟩ := ih ne
      exact ⟨other, List.mem_cons_of_mem line member, hfull⟩
    · exact ⟨line, List.mem_cons_self, hnil⟩

end Mode

namespace Block.Below

variable (below : Below) (mode : Mode) (n : Nat)

theorem read_fillers {run : List Text} (fillers : ∀ line ∈ label mode run, line.isFiller = true) :
    (below.read mode n run).continued = below.continued ∧
      (below.read mode n run).statements.map Statement.lines =
        below.statements.map Statement.lines := by
  induction run generalizing mode n with
  | nil => exact ⟨rfl, rfl⟩
  | cons text rest ih =>
    rw [label, List.forall_mem_cons] at fillers
    obtain ⟨hcontinued, hlines⟩ := ih (mode.read (trim text)).2 (n + 1) fillers.2
    rw [read_cons, ← hcontinued, ← hlines]
    have hfiller := fillers.1
    cases hkind : (mode.read (trim text)).1 with
    | blank => exact ⟨rfl, rfl⟩
    | comment done => exact ⟨continued_addComment _ _, lines_addComment _ _⟩
    | mixed | opening | continued | code => simp [isFiller, hkind] at hfiller

theorem read_lines {ls : List Text} (none : below.continued = [])
    (lines : ∃ first rest, label .code ls = first :: rest ∧ first.kind = .opening ∧
      ∀ line ∈ rest, line.kind = .continued) :
    below.read .code n ls = ⟨[], ⟨[], ls, n⟩ :: below.statements, below.trailing⟩ := by
  obtain ⟨first, rest, hlabel, hfirst, hrest⟩ := lines
  cases ls with
  | nil => simp [label] at hlabel
  | cons text more =>
    rw [label, List.cons.injEq] at hlabel
    obtain ⟨rfl, rfl⟩ := hlabel
    dsimp only at hfirst
    rw [read_cons, hfirst, read_continued _ _ _ hrest]
    simp [add, none]

/-- All statements of a block but the last are whole, and the block ends as that one does. -/
theorem exists_last_lines {block rest : List Text} (imports : Imports block rest) :
    ∃ whole last, (empty.read .code n block).continued = [] ∧
      (empty.read .code n block).statements.map Statement.lines = whole ++ [last] ∧
      (∀ ls ∈ whole, Statement.WholeLines ls) ∧
        Mode.after .code last = Mode.after .code block := by
  induction imports generalizing n with
  | @last ls gap rest statement _ _ =>
    rw [read_lines empty n rfl statement.label.1]
    exact ⟨[], ls, rfl, rfl, List.forall_mem_nil _, rfl⟩
  | @unfinished ls statement =>
    rw [read_lines empty n rfl statement.label.1]
    exact ⟨[], ls, rfl, rfl, List.forall_mem_nil _, rfl⟩
  | @more ls gap block rest statement fillers _ ih =>
    obtain ⟨whole, last, hnone, hlines, hwhole, hafter⟩ := ih (n + (ls ++ gap).length)
    obtain ⟨hgap, hfillers⟩ := fillers.label
    have hsettled : Mode.after .code (ls ++ gap) = .code := by
      rw [Mode.after_append, statement.label.2, hgap]
    have hread : empty.read .code n (ls ++ gap ++ block) =
        ((empty.read .code (n + (ls ++ gap).length) block).read .code (n + ls.length) gap).read
          .code n ls := by
      rw [read_append, hsettled, read_append, statement.label.2]
    obtain ⟨hcontinued, hsame⟩ := read_fillers
      (empty.read .code (n + (ls ++ gap).length) block) .code (n + ls.length) hfillers
    refine ⟨ls :: whole, last, ?_⟩
    rw [hread, read_lines _ n (hcontinued.trans hnone) statement.label.1, Mode.after_append,
      hsettled]
    refine ⟨rfl, ?_, List.forall_mem_cons.mpr ⟨statement.wholeLines, hwhole⟩, hafter⟩
    rw [List.map_cons, hsame, hlines]
    rfl

end Block.Below

namespace Block

/-- A block of whole statements and one that is left open. -/
structure LeftOpen (block : Block) (others : List Statement) (last : Statement) : Prop where
  block_eq : block = ⟨[], others ++ [last], []⟩
  whole : ∀ statement ∈ others, Statement.WholeLines statement.lines
  unfinished : (Mode.after .code last.lines).inStatement = true
  free : ∀ statement ∈ others ++ [last], NoFeed statement.source

namespace LeftOpen

variable {block : Block} {others : List Statement} {last : Statement}
  (h : block.LeftOpen others last)

include h

theorem exists_ne_nil : ∃ line ∈ last.lines, line ≠ [] := by
  apply Mode.exists_ne_nil_of_after
  intro hcode
  have hopen := h.unfinished
  rw [hcode] at hopen
  contradiction

theorem ne_nil : ∀ statement ∈ others ++ [last], statement.lines ≠ [] := by
  intro statement member
  rcases List.mem_append.mp member with hothers | hlast
  · exact (h.whole statement hothers).ne_nil
  · obtain ⟨line, hline, -⟩ := h.exists_ne_nil
    rw [List.mem_singleton.mp hlast]
    exact List.ne_nil_of_mem hline

theorem free_lines : ∀ statement ∈ others ++ [last], NoFeed statement.lines :=
  fun statement member => (noFeed_append.mp (h.free statement member)).2

theorem apart : ∀ statement ∈ others, statement.rawText ≠ last.rawText := by
  intro statement member same
  have hleft : statement ∈ others ++ [last] := List.mem_append_left _ member
  have hright : last ∈ others ++ [last] := by simp
  have hlines := joinWith_injective (h.free_lines statement hleft) (h.free_lines last hright)
    (h.ne_nil statement hleft) (h.ne_nil last hright) same
  have hopen := h.unfinished
  rw [← hlines, (h.whole statement member).after_eq] at hopen
  contradiction

end LeftOpen
end Block

namespace Region

theorem IsBlock.imports {block : List Text} (h : IsBlock block) : Imports block [] := by
  obtain ⟨upper, lower, rfl, himports⟩ := exists_imports h.startsImport
  by_cases hnil : lower = []
  · rwa [hnil, List.append_nil, ← hnil]
  · exfalso
    have hinside := h.inside
    rw [label_append, List.forall_mem_append] at hinside
    obtain ⟨front, last, hlast⟩ :=
      (List.eq_nil_or_concat' (label (Mode.after .code upper) lower)).resolve_left
        (fun hlabel => hnil (label_eq_nil_iff.mp hlabel))
    have hfiller := himports.isBlock.2 last (by
      rw [List.takeWhile_eq_self_iff.mpr hinside.2, hlast]
      simp)
    have hends := h.ends (label .code upper ++ front) last (by rw [label_append, hlast]; simp)
    rw [hfiller] at hends
    contradiction

theorem noFeed_source_of_find? {text : Text} {region : Region} (found : find? text = some region) :
    ∀ statement ∈ (Block.parse region.block).statements, NoFeed statement.source := by
  rw [parse_block_of_find? found]
  intro statement member line hline
  apply noFeed_lines region.block
  exact Block.Below.mem_of_mem_source 0 (isBlock_lines found).inside member hline

theorem exists_leftOpen {text : Text} {region : Region} (found : find? text = some region)
    (unfinished : ¬ region.Closed) :
    ∃ others last, Block.LeftOpen (Block.parse region.block) others last := by
  obtain ⟨whole, last, -, hlines, hwhole, hafter⟩ :=
    Block.Below.exists_last_lines 0 (isBlock_lines found).imports
  obtain ⟨others, tail, hstatements, rfl, htail⟩ := List.map_eq_append_iff.mp hlines
  obtain ⟨final, rfl, rfl⟩ := List.map_eq_singleton_iff.mp htail
  have hparse : Block.parse region.block = ⟨[], others ++ [final], []⟩ := by
    rw [parse_block_of_find? found, ← hstatements]
  have hfree := noFeed_source_of_find? found
  rw [hparse] at hfree
  refine ⟨others, final, hparse, fun statement member => hwhole _ (List.mem_map_of_mem member),
    ?_, hfree⟩
  rw [hafter]
  simpa [Closed] using unfinished

theorem break_of_unfinished {text : Text} {region : Region} (found : find? text = some region)
    (unfinished : ¬ region.Closed) : ∀ c ∈ region.after, isBreak c = true := by
  obtain ⟨header, block, last, run, rest, h⟩ := exists_ofText found
  have hnone : pieces rest.tail = [] := by
    by_contra more
    have hcode := h.after_block more
    have hlast : last ≠ [] := by
      rintro rfl
      exact h.cut.toIsBlock.last_ne_nil hcode rfl
    apply unfinished
    rw [Closed, after_of_map_trim .code (h.map_trim_block hlast), hcode]
    rfl
  have htail : rest.tail = [] := by
    rw [← flatten_pieces rest.tail, hnone, List.flatten_nil]
  intro c member
  rw [h.after_eq, List.mem_append] at member
  rcases member with hrun | hrest
  · exact h.breaks c hrun
  · rcases h.follows with rfl | ⟨below, rfl⟩
    · contradiction
    · rw [List.tail_cons] at htail
      rw [htail, List.mem_singleton] at hrest
      rw [hrest]
      rfl

end Region
end ImportBlock
