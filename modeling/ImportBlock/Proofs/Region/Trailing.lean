import ImportBlock.Proofs.Block.Statements
import ImportBlock.Proofs.Region.Cut
import ImportBlock.Proofs.Text.Parts
import ImportBlock.Proofs.Text.Tail

namespace ImportBlock

open Text Line

namespace Mode

variable {mode : Mode}

theorem Reads.after_comment {next : Mode} {done : Bool} (reads : Reads mode (.comment done) next) :
    next = .code ↔ done = true := by
  cases reads <;> simp

namespace CommentRun

theorem of_trim {xs ys : List Text} (run : mode.CommentRun xs) (same : xs.map trim = ys.map trim) :
    mode.CommentRun ys := by
  refine ⟨?_, by rw [← after_of_map_trim mode same, run.2]⟩
  intro line member
  have hmem := List.mem_map_of_mem (f := trimmed) member
  rw [← map_trimmed_label mode same] at hmem
  rcases List.mem_map.mp hmem with ⟨other, hother, heq⟩
  have hcomment := run.1 other hother
  have hkind : other.kind = line.kind := by rw [← kind_trimmed other, heq, kind_trimmed]
  rwa [isCommentKind, ← hkind]

variable {front : List Text} {last : Text}

theorem last_done (run : mode.CommentRun (front ++ [last])) :
    ((mode.after front).read (trim last)).1 = .comment true := by
  rcases run with ⟨hcomments, hafter⟩
  have hlast := hcomments ⟨((mode.after front).read (trim last)).1, last⟩
    (by simp [label_append, label])
  rcases exists_kind_of_isCommentKind hlast with ⟨done, hkind⟩
  have hreads := reads_read (mode.after front) (trim last)
  rw [after_append] at hafter
  dsimp only at hkind
  rw [hkind] at hreads
  rw [hkind, hreads.after_comment.mp hafter]

theorem label_concat (run : mode.CommentRun (front ++ [last])) :
    label mode (front ++ [last]) = label mode front ++ [⟨.comment true, last⟩] := by
  simp only [label_append, label, run.last_done]

theorem last_ne_nil (run : mode.CommentRun (front ++ [last])) : last ≠ [] := by
  rintro rfl
  have hdone := run.last_done
  generalize mode.after front = next at hdone
  cases next <;> simp [read, trim, trimStart, trimEnd, dropEndWhile, splitFirst] at hdone

theorem dropEndWhile_label {texts : List Text} (run : mode.CommentRun texts) :
    dropEndWhile leavesOpen (label mode texts) = label mode texts := by
  rcases List.eq_nil_or_concat' texts with rfl | ⟨front, last, rfl⟩
  · rfl
  · rw [run.label_concat, dropEndWhile_append_of_any ⟨_, List.mem_cons_self, rfl⟩]
    rfl

end CommentRun
end Mode

/-- Nothing below the block is part of it: comments here never end, and no statement comes before
other code. -/
structure Quiet (rest : Text) : Prop where
  follows : Follows rest
  comments : ∀ line ∈ (label .code (pieces rest.tail)).takeWhile isCommentKind,
    line.leavesOpen = true
  stops : ∀ line ∈ (label .code (pieces rest.tail)).takeWhile inBlock, line.isFiller = true

theorem Quiet.splitTrailingComments {rest : Text} (quiet : Quiet rest) :
    splitTrailingComments rest = ([], rest) := by
  rcases quiet.follows with rfl | ⟨below, rfl⟩
  · rfl
  · have hnone :
        dropEndWhile leavesOpen ((label .code (pieces below)).takeWhile isCommentKind) = [] :=
      List.rdropWhile_eq_nil_iff.mpr quiet.comments
    have hfirst : splitFirst ['\n'] ('\n' :: below) = some ([], below) :=
      splitFirst_append List.not_mem_nil below
    rw [ImportBlock.splitTrailingComments, hfirst]
    dsimp only
    rw [hnone]
    rfl

theorem Quiet.stops_startLines {comments : List Text} {rest : Text} (quiet : Quiet rest)
    (free : NoFeed comments) (run : Mode.CommentRun .code comments) :
    ∀ line ∈ (label .code (pieces (startLines comments ++ rest).tail)).takeWhile inBlock,
      line.isFiller = true := by
  have htrim : (pieces (startLines comments ++ rest).tail).map trim =
      (comments ++ pieces rest.tail).map trim := by
    rw [map_trim_pieces_startLines free _ quiet.follows, List.map_append]
    rintro front last rfl
    exact run.last_ne_nil
  refine forall_takeWhile_of_prefix inBlock_trimmed isFiller_trimmed
    ⟨[], (List.append_nil _).trans htrim⟩ ?_
  have hcomments : ∀ line ∈ label .code comments, line.inBlock = true ∧ line.isFiller = true := by
    intro line member
    rcases exists_kind_of_isCommentKind (run.1 line member) with ⟨done, hkind⟩
    simp [inBlock, isFiller, hkind]
  rw [label_append, run.2,
    List.takeWhile_append_of_pos fun line member => (hcomments line member).1]
  intro line member
  rcases List.mem_append.mp member with hline | hline
  · exact (hcomments line hline).2
  · exact quiet.stops line hline

theorem splitTrailingComments_startLines {comments : List Text} {rest : Text}
    (free : NoFeed comments) (noReturn : ∀ l ∈ comments, '\r' ∉ l)
    (run : Mode.CommentRun .code comments) (quiet : Quiet rest) :
    splitTrailingComments (startLines comments ++ rest) = (startLines comments, rest) := by
  rcases List.eq_nil_or_concat' comments with rfl | ⟨ls, l, rfl⟩
  · exact quiet.splitTrailingComments
  · have hl : '\n' ∉ l ∧ '\r' ∉ l := ⟨free l (by simp), noReturn l (by simp)⟩
    rcases pieces_joinWith free run.last_ne_nil quiet.follows with ⟨feed, hfeed, -, hpieces⟩
    have hbreak := break_of_feed hfeed
    have hrun : Mode.CommentRun .code (ls.map (· ++ ['\n']) ++ [l ++ feed]) :=
      run.of_trim (map_trim_breaks hbreak ls l).symm
    have hstart : startLines (ls ++ [l]) ++ rest =
        [] ++ '\n' :: (joinWith ['\n'] (ls ++ [l]) ++ rest) := by
      rw [startLines_of_ne_nil (by simp)]
      rfl
    have htake :
        (label .code (pieces (joinWith ['\n'] (ls ++ [l]) ++ rest))).takeWhile isCommentKind =
          label .code (ls.map (· ++ ['\n']) ++ [l ++ feed]) ++
          (label .code (pieces rest.tail)).takeWhile isCommentKind := by
      rw [hpieces, label_append, hrun.2, List.takeWhile_append_of_pos hrun.1]
    rw [hstart, splitTrailingComments, splitFirst_append List.not_mem_nil]
    dsimp only
    rw [htake, dropEndWhile_append_of_all quiet.comments, hrun.dropEndWhile_label,
      map_text_label, flattenContent_breaks hbreak hl.1 hl.2, if_neg]
    · have hrest : [] ++ '\n' :: (joinWith ['\n'] (ls ++ [l]) ++ rest) =
          ([] ++ '\n' :: joinWith ['\n'] (ls ++ [l])) ++ rest := rfl
      rw [hrest, List.drop_left, startLines_of_ne_nil (by simp)]
      rfl
    · rw [List.isEmpty_iff, label_eq_nil_iff]
      simp

/-- The comment lines at the top, down to the last one that ends. -/
def topComments (texts : List Text) : List Text :=
  (dropEndWhile leavesOpen ((label .code texts).takeWhile isCommentKind)).map Line.text

theorem prefix_topComments (texts : List Text) : topComments texts <+: texts := by
  conv_rhs => rw [← map_text_label .code texts]
  exact ((isPrefix_dropEndWhile _ _).trans (List.takeWhile_prefix _)).map Line.text

theorem splitTrailingComments_feed {gap : Text} (h : '\n' ∉ gap) (below : Text) :
    (splitTrailingComments (gap ++ '\n' :: below)).1 =
      if topComments (pieces below) = [] then []
      else gap ++ '\n' :: flattenContent (topComments (pieces below)) := by
  rw [splitTrailingComments, splitFirst_append h, topComments]
  simp only [List.isEmpty_iff, List.map_eq_nil_iff]
  split <;> rfl

theorem exists_topComments (texts : List Text) :
    ∃ lower, texts = topComments texts ++ lower ∧ Mode.CommentRun .code (topComments texts) ∧
      ∀ line ∈ (label .code lower).takeWhile isCommentKind, line.leavesOpen = true := by
  -- The run ends with the last comment line that closes its comment; the mode is `.code` there.
  rw [topComments]
  set upto := (label .code texts).takeWhile isCommentKind with hupto
  rcases exists_append_dropEndWhile leavesOpen upto with ⟨opens, hopens, hopen⟩
  have hcomments : ∀ line ∈ upto, line.isCommentKind = true := fun line member =>
    List.mem_takeWhile_imp member
  have hlines : label .code texts = dropEndWhile leavesOpen upto ++ (opens ++
      (label .code texts).dropWhile isCommentKind) := by
    rw [← List.append_assoc, ← hopens, hupto, List.takeWhile_append_dropWhile]
  rcases label_eq_append hlines with ⟨htexts, hupper, hlower⟩
  have hrun : Mode.CommentRun .code ((dropEndWhile leavesOpen upto).map Line.text) := by
    constructor
    · intro line member
      rw [← hupper] at member
      exact hcomments line ((isPrefix_dropEndWhile leavesOpen upto).subset member)
    · rcases List.eq_nil_or_concat' (dropEndWhile leavesOpen upto) with hnil | ⟨front, last, hlast⟩
      · rw [hnil]
        rfl
      · have hdone := not_last_dropEndWhile hlast
        have hmem : last ∈ upto := (isPrefix_dropEndWhile leavesOpen upto).subset (by simp [hlast])
        rcases exists_kind_of_isCommentKind (hcomments last hmem) with ⟨done, hkind⟩
        have hreads := reads_last (hupper.symm.trans hlast)
        rw [hkind] at hreads
        apply hreads.after_comment.mpr
        cases done
        · simp [leavesOpen, hkind] at hdone
        · rfl
  refine ⟨_, htexts, hrun, ?_⟩
  rw [hrun.2] at hlower
  rw [← hlower, List.takeWhile_append_of_pos, List.takeWhile_eq_nil_iff.mpr, List.append_nil]
  · exact hopen
  · exact List.dropWhile_get_zero_not isCommentKind (label .code texts)
  · intro line member
    exact hcomments line (hopens ▸ List.mem_append_right _ member)

/-- What stands below a block is comments of its own and a quiet rest. -/
theorem exists_trailing {after : Text} (follows : Follows after)
    (stops : ∀ line ∈ (label .code (pieces after.tail)).takeWhile inBlock, line.isFiller = true) :
    ∃ comments rest, after = startLines comments ++ rest ∧ NoFeed comments ∧
      Mode.CommentRun .code comments ∧ Quiet rest := by
  obtain ⟨lower, hsplit, hrun, hopen⟩ := exists_topComments (pieces after.tail)
  generalize topComments (pieces after.tail) = run at hsplit hrun
  by_cases hnil : run = []
  · rw [hnil, List.nil_append] at hsplit
    rw [← hsplit] at hopen
    exact ⟨[], after, rfl, by simp [NoFeed], Mode.commentRun_nil, follows, hopen, stops⟩
  · rcases follows with rfl | ⟨below, rfl⟩
    · exact absurd (List.append_eq_nil_iff.mp hsplit.symm).1 hnil
    · rcases exists_lines_of_split hsplit hnil with
        ⟨ls, l, feed, rest, hfree, hbreak, rfl, hrest, hpieces, hbelow⟩
      refine ⟨ls ++ [l], rest, ?_, hfree, hrun.of_trim (map_trim_breaks hbreak ls l), hrest,
        hpieces ▸ hopen, ?_⟩
      · rw [startLines_of_ne_nil (by simp), List.cons_append, ← hbelow]
        rfl
      · intro line member
        apply stops line
        rw [hsplit, label_append, hrun.2, List.takeWhile_append_of_pos fun line member =>
          inBlock_of_isCommentKind (hrun.1 line member), ← hpieces]
        exact List.mem_append_right _ member

end ImportBlock
