import ImportBlock.Proofs.Region.Paired
import ImportBlock.Proofs.Text.Joined

namespace ImportBlock

open Text Line

theorem Region.IsBlock.endsFilled {ls : List Text} (h : IsBlock ls)
    (closed : Mode.after .code ls = .code) : EndsFilled ls := by
  obtain ⟨upper, last, rfl⟩ := (List.eq_nil_or_concat' ls).resolve_left h.ne_nil
  refine ⟨upper, last, rfl, ?_⟩
  rintro rfl
  exact h.last_ne_nil closed rfl

namespace Region.OfText

variable {region : Region} {header block : List Text} {last run rest : Text}

theorem stops_below (h : OfText region header block last run rest) :
    ∀ line ∈ (label .code (pieces rest.tail)).takeWhile inBlock, line.isFiller = true := by
  by_cases hnil : pieces rest.tail = []
  · rw [hnil]
    exact List.forall_mem_nil _
  · have hstops := h.cut.stops
    rwa [h.after_block hnil] at hstops

section Replaced

variable {comments block' : List Text} {separator : Text} (whole : WholeBreak separator)
  (commentRun : Mode.CommentRun .code comments) (isBlock : IsBlock block')
  (closed : Mode.after .code block' = .code) (free : NoFeed (comments ++ block'))

include whole in
theorem exists_pieces_replaced (h : OfText region header block last run rest) {upper : List Text}
    {l : Text} (free : NoFeed (comments ++ (upper ++ [l]))) (ne : l ≠ []) :
    ∃ ending, (∀ c ∈ ending, isBreak c = true) ∧
      pieces (region.before ++ comments.flatMap (· ++ separator) ++
          joinWith separator (upper ++ [l]) ++ region.after) =
        header.map (· ++ ['\n']) ++ comments.map (· ++ separator) ++
          (upper.map (· ++ separator) ++ [l ++ ending]) ++ pieces rest.tail := by
  obtain ⟨hcomments, hblock⟩ := noFeed_append.mp free
  obtain ⟨hupper, hl⟩ := noFeed_append.mp hblock
  obtain ⟨ending, hending, hbehind⟩ := exists_pieces_behind h.breaks h.feed h.follows
    (hl l (List.mem_singleton_self l)) ne
  refine ⟨ending, hending, ?_⟩
  have htext : region.before ++ comments.flatMap (· ++ separator) ++
      joinWith separator (upper ++ [l]) ++ region.after =
        endLines header ++ (comments.flatMap (· ++ separator) ++
          (upper.flatMap (· ++ separator) ++ (l ++ (run ++ rest)))) := by
    simp only [h.before_eq, h.after_eq, joinWith_append_singleton, List.append_assoc]
  rw [htext, pieces_endLines h.free.1, pieces_flatMap whole hcomments,
    pieces_flatMap whole hupper, hbehind]
  simp only [List.append_assoc, List.cons_append, List.nil_append]

include closed isBlock

theorem cut_replaced (h : OfText region header block last run rest)
    (commentRun : Mode.CommentRun .code comments) :
    Cut (header ++ comments) block' (pieces rest.tail) where
  toIsBlock := isBlock
  settled := by rw [Mode.after_append, h.cut.settled, commentRun.2]
  header := by
    rw [label_append, h.cut.settled]
    exact h.cut.header.append fun line member =>
      inHeader_of_isCommentKind (commentRun.1 line member)
  stops := by
    rw [closed]
    exact h.stops_below

include whole commentRun free

/-- Comments and a block of one's own are found in the place of the block. -/
theorem find?_replaced (h : OfText region header block last run rest)
    (noReturn : ∀ l ∈ block', '\r' ∉ l) :
    let new : Region := ⟨region.before ++ comments.flatMap (· ++ separator),
      joinWith separator block', region.after⟩
    find? new.text = some new := by
  intro new
  obtain ⟨upper, l, rfl, hne⟩ := isBlock.endsFilled closed
  obtain ⟨ending, hending, hpieces⟩ := h.exists_pieces_replaced whole free hne
  have hlast : '\n' ∉ l := free l (by simp)
  have hsame : ∀ ls : List Text, (ls.map (· ++ separator)).map trim = ls.map trim :=
    map_trim_map (trim_append_breaks whole.breaks)
  have hcut : Cut (header.map (· ++ ['\n']) ++ comments.map (· ++ separator))
      (upper.map (· ++ separator) ++ [l ++ ending]) (pieces rest.tail) :=
    (cut_replaced isBlock closed h commentRun).of_trim
      (by rw [List.map_append, List.map_append, map_trim_feed, hsame])
      (by rw [List.map_append, List.map_append, hsame, List.map_singleton, List.map_singleton,
        trim_append_breaks hending]) rfl
  have habove : (header.map (· ++ ['\n']) ++ comments.map (· ++ separator)).flatten =
      new.before := by
    rw [List.flatten_append, flatten_map_feed, ← List.flatMap_def, ← h.before_eq]
  have hblock : flattenContent (upper.map (· ++ separator) ++ [l ++ ending]) = new.block := by
    rw [flattenContent, List.dropLast_concat, List.getLast?_concat, Option.getD_some,
      content_append_breaks hending, content_of_not_mem hlast (noReturn l (by simp)),
      ← List.flatMap_def, ← joinWith_append_singleton]
  rw [find?_of_cut (show pieces new.text = _ from hpieces) hcut, habove, hblock]
  conv_lhs => rw [text, List.drop_left]

end Replaced

end Region.OfText
end ImportBlock
