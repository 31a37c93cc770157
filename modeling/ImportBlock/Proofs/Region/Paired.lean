import ImportBlock.Proofs.Region.Statements
import ImportBlock.Proofs.Region.Trailing
import ImportBlock.Proofs.Text.Paired

namespace ImportBlock

open Text Line

namespace Text

theorem map_trim_lines_endLines {ls : List Text} (free : NoFeed ls) (last : Text) :
    (lines (endLines ls ++ last)).map trim = ls.map trim ++ (lines last).map trim := by
  rw [lines, pieces_endLines free, List.map_append, List.map_append, map_trim_map trim_dropBreak,
    map_trim_feed]
  rfl

theorem exists_endLines_of_split {text : Text} {upper lower : List Text}
    (split : pieces text = upper ++ lower) (ne : lower ≠ []) :
    ∃ ls rest, NoFeed ls ∧ upper = ls.map (· ++ ['\n']) ∧ text = endLines ls ++ rest ∧
      pieces rest = lower := by
  obtain ⟨all, last, hall, hlast, rfl⟩ := exists_endLines text
  rw [pieces_endLines hall] at split
  obtain ⟨ls, more, rfl, hupper, hlower⟩ : ∃ ls more, all = ls ++ more ∧
      upper = ls.map (· ++ ['\n']) ∧ lower = more.map (· ++ ['\n']) ++ pieces last := by
    by_cases hnil : last = []
    · rw [hnil, pieces] at split ⊢
      rw [List.append_nil] at split
      obtain ⟨ls, more, hls, hupper, hlower⟩ := List.map_eq_append_iff.mp split
      exact ⟨ls, more, hls, hupper.symm, by rw [hlower, List.append_nil]⟩
    · rw [pieces_last hlast hnil] at split ⊢
      exact exists_append_of_pieces split.symm ne
  obtain ⟨hls, hmore⟩ := noFeed_append.mp hall
  refine ⟨ls, endLines more ++ last, hls, hupper, ?_, ?_⟩
  · rw [endLines_append, List.append_assoc]
  · rw [pieces_endLines hmore, hlower]

theorem exists_content_of_split {text : Text} {upper lower : List Text}
    (split : pieces text = upper ++ lower) (ne : upper ≠ []) :
    ∃ ls l run rest, NoFeed (ls ++ [l]) ∧ (∀ c ∈ run, isBreak c = true) ∧ '\n' ∉ run ∧
      Follows rest ∧ pieces rest.tail = lower ∧ l.getLast?.any isBreak = false ∧
      upper.map trim = (ls ++ [l]).map trim ∧ flattenContent upper = endLines ls ++ l ∧
      text = endLines ls ++ l ++ (run ++ rest) := by
  rcases exists_lines_of_split split ne with
    ⟨ls, l, feed, rest, hfree, hfeed, rfl, hrest, hpieces, rfl⟩
  rcases noFeed_append.mp hfree with ⟨hls, hl⟩
  have hno : '\n' ∉ l := hl l (List.mem_singleton_self l)
  obtain ⟨run, hrun, hbreak⟩ := exists_append_dropEndWhile isBreak l
  have hsplit : content l ++ run = l := hrun.symm
  refine ⟨ls, content l, run, rest, noFeed_append.mpr ⟨hls, ?_⟩, hbreak, ?_, hrest, hpieces,
    getLast?_dropEndWhile isBreak l, ?_, ?_, ?_⟩
  · simpa [NoFeed] using not_mem_content hno
  · intro hc
    exact hno (hsplit ▸ List.mem_append_right _ hc)
  · rw [map_trim_breaks hfeed, List.map_append, List.map_append, List.map_singleton,
      List.map_singleton, trim_content]
  · rw [flattenContent_concat, content_append_breaks hfeed]
  · rw [joinWith_concat, List.append_assoc (endLines ls) (content l), ← List.append_assoc _ run,
      hsplit, List.append_assoc]

theorem head_run_append {run rest : Text} (breaks : ∀ c ∈ run, isBreak c = true)
    (follows : Follows rest) : (run ++ rest).head?.all isBreak = true := by
  cases run with
  | nil => rcases follows with rfl | ⟨below, rfl⟩ <;> rfl
  | cons c run => exact breaks c List.mem_cons_self

end Text

theorem splitTrailingComments_cases {gap : Text} (free : '\n' ∉ gap) (below : Text) :
    (splitTrailingComments (gap ++ '\n' :: below)).1 = [] ∨ ∃ ls l rest,
      splitTrailingComments (gap ++ '\n' :: below) = (gap ++ '\n' :: (endLines ls ++ l), rest) ∧
        NoFeed (ls ++ [l]) ∧ Mode.CommentRun .code (ls ++ [l]) ∧
          l.getLast?.any isBreak = false ∧ rest.head?.all isBreak = true := by
  have hcomments := splitTrailingComments_feed free below
  obtain ⟨lower, hsplit, hrun, -⟩ := exists_topComments (pieces below)
  have hwhole := append_splitTrailingComments (gap ++ '\n' :: below)
  generalize topComments (pieces below) = top at hcomments hsplit hrun
  by_cases hnil : top = []
  · left
    rw [hcomments, if_pos hnil]
  · right
    obtain ⟨ls, l, run, rest, hfree, hbreaks, -, hfollows, -, hstop, hsame, hcontent, rfl⟩ :=
      exists_content_of_split hsplit hnil
    rw [if_neg hnil, hcontent] at hcomments
    refine ⟨ls, l, run ++ rest, Prod.ext hcomments ?_, hfree, hrun.of_trim hsame, hstop,
      head_run_append hbreaks hfollows⟩
    rw [hcomments] at hwhole
    simpa only [List.append_assoc, List.cons_append, List.append_cancel_left_eq,
      List.cons.injEq, true_and] using hwhole

theorem splitTrailingComments_break {first : Text} (whole : WholeBreak first) (below : Text) :
    (splitTrailingComments (first ++ below)).1 = [] ∨ ∃ comments rest,
      splitTrailingComments (first ++ below) = (first ++ comments, rest) ∧ below ≠ [] ∧
        Mode.CommentRun .code (lines comments) ∧ comments.getLast?.any (!isBreak ·) = true ∧
        rest.head?.all isBreak = true := by
  obtain ⟨gap, hgap, rfl⟩ := whole.exists_gap
  have hcut : ∀ lower, gap ++ ['\n'] ++ lower = gap ++ '\n' :: lower := fun lower => by simp
  rw [hcut]
  rcases splitTrailingComments_cases hgap below with
    hnone | ⟨ls, l, rest, hsplit, hfree, hrun, hstop, hfollows⟩
  · exact .inl hnone
  · right
    have hne := hrun.last_ne_nil
    obtain ⟨hls, hl⟩ := noFeed_append.mp hfree
    refine ⟨endLines ls ++ l, rest, by rw [hcut, hsplit], ?_, hrun.of_trim ?_, ?_, hfollows⟩
    · rintro rfl
      have hwhole := append_splitTrailingComments (gap ++ ['\n'])
      rw [hsplit] at hwhole
      simp [hne] at hwhole
    · rw [map_trim_lines_endLines hls, lines_last (hl l (by simp)) hne, List.map_append]
    · obtain ⟨init, c, rfl⟩ := (List.eq_nil_or_concat' l).resolve_left hne
      rw [List.getLast?_concat, Option.any_some] at hstop
      rw [← List.append_assoc, List.getLast?_concat, Option.any_some, hstop]
      rfl

namespace Region

/-- A region of any text. Its last line stops ahead of its break. -/
structure OfText (region : Region) (header block : List Text) (last run rest : Text) : Prop where
  cut : Cut header (block ++ [last]) (pieces rest.tail)
  free : NoFeed header ∧ NoFeed (block ++ [last])
  stop : last.getLast?.any isBreak = false
  breaks : ∀ c ∈ run, isBreak c = true
  feed : '\n' ∉ run
  follows : Follows rest
  before_eq : region.before = endLines header
  block_eq : region.block = endLines block ++ last
  after_eq : region.after = run ++ rest

/-- The comments directly below a block, with the break above them, and what follows them. -/
structure CommentsBelow (region : Region) (comments more : Text) : Prop where
  split : splitTrailingComments region.after = (comments, more)
  start : comments.head?.all isBreak = true
  stop : comments.getLast? ≠ some '\r'
  follows : more.head?.all isBreak = true
  upto : lines (region.before ++ region.block ++ comments) =
    lines region.before ++ (lines region.block ++ (lines comments).tail)
  blank : nonBlankLines comments = nonBlank (lines comments).tail
  run : Mode.CommentRun .code (lines comments).tail
  closed : (lines comments).tail ≠ [] → Mode.after .code (lines region.block) = .code

variable {text : Text} {region : Region}

theorem exists_ofText (found : find? text = some region) :
    ∃ header block last run rest, OfText region header block last run rest := by
  rcases exists_cut_of_find? found with ⟨above, body, below, hsplit, hcut, hbefore, hblock⟩
  have hwhole := text_of_find? found
  rw [List.append_assoc] at hsplit
  obtain ⟨header, text, hheader, rfl, rfl, hpieces⟩ :=
    exists_endLines_of_split hsplit (by simp [hcut.ne_nil])
  obtain ⟨block, last, run, rest, hfree, hbreaks, hfeed, hfollows, rfl, hstop, hsame, hcontent,
    rfl⟩ := exists_content_of_split hpieces hcut.ne_nil
  rw [flatten_map_feed] at hbefore
  rw [hcontent] at hblock
  refine ⟨header, block, last, run, rest, {
    cut := hcut.of_trim (map_trim_feed header) hsame rfl
    free := ⟨hheader, hfree⟩
    stop := hstop
    breaks := hbreaks
    feed := hfeed
    follows := hfollows
    before_eq := hbefore
    block_eq := hblock
    after_eq := ?_ }⟩
  rw [Region.text, hbefore, hblock, List.append_assoc] at hwhole
  exact List.append_cancel_left (List.append_cancel_left hwhole)

theorem parse_block_of_find? (found : find? text = some region) : Block.parse region.block =
    ⟨[], (Block.Below.empty.read .code 0 (lines region.block)).statements, []⟩ := by
  have hlines : lines region.block = [] ++ (lines region.block ++ []) := by simp
  exact Block.parse_of_isBlock hlines rfl trivial (isBlock_lines found) Mode.commentRun_nil
    fun ne => absurd rfl ne

namespace OfText

variable {header block : List Text} {last run rest : Text}
  (h : OfText region header block last run rest)

include h

theorem ended_before : Ended region.before := h.before_eq ▸ ended_endLines header

theorem cut_before : Cut (lines region.before) (block ++ [last]) (pieces rest.tail) := by
  refine h.cut.of_trim ?_ rfl rfl
  have hlines := map_trim_lines_endLines h.free.1 []
  rw [List.append_nil] at hlines
  rw [h.before_eq, hlines, lines, pieces, List.map_nil, List.map_nil, List.append_nil]

theorem head_after : region.after.head?.all isBreak = true :=
  h.after_eq ▸ head_run_append h.breaks h.follows

theorem not_return_block : region.block.getLast? ≠ some '\r' := by
  rw [h.block_eq]
  intro hlast
  have hstop := h.stop
  rcases List.eq_nil_or_concat' last with rfl | ⟨init, c, rfl⟩
  · rcases ended_endLines block with hnil | ⟨above, habove⟩
    · simp [hnil] at hlast
    · simp [habove] at hlast
  · rw [← List.append_assoc, List.getLast?_concat, Option.some.injEq] at hlast
    rw [hlast, List.getLast?_concat] at hstop
    contradiction

theorem after_block (more : pieces rest.tail ≠ []) : Mode.after .code (block ++ [last]) = .code :=
  h.cut.closed more

theorem map_trim_block (ne : last ≠ []) :
    (lines region.block).map trim = (block ++ [last]).map trim := by
  have hlast := (noFeed_append.mp h.free.2).2 last (List.mem_singleton_self last)
  rw [h.block_eq, map_trim_lines_endLines (noFeed_append.mp h.free.2).1, lines_last hlast ne,
    List.map_append]

theorem commentsBelow_nil (none : (splitTrailingComments region.after).1 = []) :
    CommentsBelow region [] region.after where
  split := by
    have hwhole := append_splitTrailingComments region.after
    rw [none, List.nil_append] at hwhole
    exact Prod.ext none hwhole
  start := rfl
  stop := by simp
  follows := h.head_after
  upto := by
    rw [List.append_nil, lines_append h.ended_before]
    simp [lines, pieces]
  blank := rfl
  run := Mode.commentRun_nil
  closed := fun ne => absurd rfl ne

theorem stop_block (ne : last ≠ []) : region.block.getLast?.any (!isBreak ·) = true := by
  obtain ⟨init, c, rfl⟩ := (List.eq_nil_or_concat' last).resolve_left ne
  have hc := h.stop
  rw [List.getLast?_concat, Option.any_some] at hc
  rw [h.block_eq, ← List.append_assoc, List.getLast?_concat, Option.any_some, hc]
  rfl

theorem pieces_ne_nil {first below : Text} (whole : WholeBreak first)
    (after : region.after = first ++ below) (ne : below ≠ []) : pieces rest.tail ≠ [] := by
  obtain ⟨gap, hgap, rfl⟩ := whole.exists_gap
  have hcut : run ++ rest = gap ++ '\n' :: below := by
    rw [← h.after_eq, after, List.append_assoc]
    rfl
  have hsame := splitFirst_append hgap below
  rcases h.follows with hnil | ⟨below', hbelow⟩
  · have hmem : '\n' ∈ run ++ rest := by simp [hcut]
    rw [hnil, List.append_nil] at hmem
    exact absurd hmem h.feed
  · rw [← hcut, hbelow, splitFirst_append h.feed, Option.some.injEq, Prod.mk.injEq] at hsame
    rw [hbelow, List.tail_cons, hsame.2]
    intro hpieces
    apply ne
    rw [← flatten_pieces below, hpieces, List.flatten_nil]

theorem exists_commentsBelow (paired : PairedReturns region.after) :
    ∃ comments more, CommentsBelow region comments more := by
  rcases paired.exists_break h.head_after with hnil | ⟨first, below, whole, hafter⟩
  · exact ⟨_, _, h.commentsBelow_nil (by rw [hnil]; rfl)⟩
  rcases splitTrailingComments_break whole below with
    hnone | ⟨comments, more, hsplit, hne, hrun, hstop, hfollows⟩
  · exact ⟨_, _, h.commentsBelow_nil (hafter ▸ hnone)⟩
  -- Comments are read below a line that ends the last statement, so that line is not blank.
  have hclosed := h.after_block (h.pieces_ne_nil whole hafter hne)
  have hlast : last ≠ [] := by
    rintro rfl
    exact h.cut.toIsBlock.last_ne_nil hclosed rfl
  have hlines : lines (first ++ comments) = [] :: lines comments :=
    lines_line whole List.not_mem_nil (by simp) comments
  refine ⟨first ++ comments, more, {
    split := hafter ▸ hsplit
    start := ?_
    stop := ?_
    follows := hfollows
    upto := ?_
    blank := ?_
    run := ?_
    closed := ?_ }⟩
  · rcases whole with rfl | rfl <;> rfl
  · intro hlast
    rcases List.eq_nil_or_concat' comments with rfl | ⟨init, c, rfl⟩
    · contradiction
    · rw [← List.append_assoc, List.getLast?_concat, Option.some.injEq] at hlast
      simp [hlast, isBreak] at hstop
  · rw [hlines, List.tail_cons, List.append_assoc, lines_append h.ended_before,
      ← List.append_assoc region.block, lines_append_break whole (h.stop_block hlast)]
  · rw [nonBlankLines, hlines]
    rfl
  · rwa [hlines]
  · intro _
    rw [after_of_map_trim .code (h.map_trim_block hlast), hclosed]

end OfText

theorem parse_upto (found : find? text = some region) {comments more : Text}
    (below : CommentsBelow region comments more) :
    Block.parse (region.before ++ region.block ++ comments) =
      ⟨(label .code (lines region.before)).filterMap HeaderLine.ofLine?,
        (Block.Below.empty.read .code (lines region.before).length (lines region.block)).statements,
        (lines comments).tail⟩ := by
  obtain ⟨header, block, last, run, rest, h⟩ := exists_ofText found
  exact Block.parse_of_isBlock below.upto h.cut_before.settled h.cut_before.header
    (isBlock_lines found) below.run below.closed

section Found

variable (found : find? text = some region) (paired : PairedReturns text)

include found paired

theorem paired_parts :
    PairedReturns region.before ∧ PairedReturns region.block ∧ PairedReturns region.after := by
  obtain ⟨header, block, last, run, rest, h⟩ := exists_ofText found
  rw [← text_of_find? found, Region.text] at paired
  have hupper : PairedReturns (region.before ++ region.block) := by
    apply paired.of_append_left
    intro hlast
    rw [List.getLast?_append, Option.or_eq_some_iff] at hlast
    rcases hlast with hlast | ⟨-, hlast⟩
    · exact h.not_return_block hlast
    · rcases h.ended_before with hnil | ⟨above, habove⟩
      · simp [hnil] at hlast
      · simp [habove] at hlast
  refine ⟨hupper.of_append_left ?_, hupper.of_append_right, paired.of_append_right⟩
  rcases h.ended_before with hnil | ⟨above, habove⟩
  · simp [hnil]
  · simp [habove]

theorem free_statements (n : Nat) : ∀ statement ∈
    (Block.Below.empty.read .code n (lines region.block)).statements,
      ∀ line ∈ statement.source, '\n' ∉ line ∧ '\r' ∉ line := by
  intro statement member line hline
  have hinside := (isBlock_lines found).inside
  exact (paired_parts found paired).2.1.free_lines line
    (Block.Below.mem_of_mem_source n hinside member hline)

end Found

end Region
end ImportBlock
