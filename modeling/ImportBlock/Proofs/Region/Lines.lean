import ImportBlock.Proofs.Region.Cut
import ImportBlock.Proofs.Text.Tail

namespace ImportBlock

open Text Line

namespace Text

theorem lines_endLines {ls : List Text} (free : NoFeed ls) (noReturn : ∀ x ∈ ls, '\r' ∉ x)
    (rest : Text) : lines (endLines ls ++ rest) = ls ++ lines rest := by
  rw [lines, pieces_endLines free, List.map_append, List.map_map]
  congr 1
  conv_rhs => rw [← List.map_id ls]
  exact List.map_congr_left fun x member => dropBreak_line (noReturn x member)

theorem lines_joinWith {ls : List Text} {l : Text} (free : NoFeed (ls ++ [l]))
    (noReturn : ∀ x ∈ ls, '\r' ∉ x) (ne : l ≠ []) :
    lines (joinWith ['\n'] (ls ++ [l])) = ls ++ [l] := by
  rcases noFeed_append.mp free with ⟨hls, hl⟩
  have hlast : '\n' ∉ l := hl l (List.mem_singleton_self l)
  rw [joinWith_concat, lines_endLines hls noReturn, lines, pieces_last hlast ne,
    List.map_singleton, dropBreak_of_not_mem hlast]

end Text

namespace Region

/-- No statement of the block is left open at the end of the text. -/
def Closed (region : Region) : Prop :=
  (Mode.after .code (lines region.block)).inStatement = false

instance (region : Region) : Decidable region.Closed :=
  inferInstanceAs (Decidable ((Mode.after .code (lines region.block)).inStatement = false))

theorem noReturn_block {region : Region} (plain : '\r' ∉ region.text) : '\r' ∉ region.block := by
  simp only [text, List.mem_append, not_or] at plain
  exact plain.1.2

/-- A region whose last statement is closed, in lines without carriage returns. -/
structure OfLines (region : Region) (header block : List Text) : Prop where
  cut : Cut header block (pieces region.after.tail)
  free : NoFeed (header ++ block)
  noReturn : ∀ l ∈ block, '\r' ∉ l
  closed : Mode.after .code block = .code
  before_eq : region.before = endLines header
  block_eq : region.block = joinWith ['\n'] block
  after_eq : Follows region.after

variable {region : Region} {header block : List Text}

namespace OfLines

theorem exists_last (h : OfLines region header block) :
    ∃ ls l, block = ls ++ [l] ∧ trim l ≠ [] := by
  rcases (List.eq_nil_or_concat' block).resolve_left h.cut.ne_nil with ⟨ls, l, rfl⟩
  exact ⟨ls, l, rfl, h.cut.toIsBlock.last_ne_nil h.closed⟩

theorem lines_block (h : OfLines region header block) : lines region.block = block := by
  rcases h.exists_last with ⟨ls, l, rfl, hl⟩
  rw [h.block_eq]
  apply lines_joinWith (noFeed_append.mp h.free).2
  · intro x member
    exact h.noReturn x (List.mem_append_left _ member)
  · rintro rfl
    exact hl rfl

theorem find? (h : OfLines region header block) : find? region.text = some region := by
  rcases h.exists_last with ⟨ls, l, rfl, hl⟩
  rcases noFeed_append.mp h.free with ⟨hheader, hblock⟩
  have hne : l ≠ [] := by
    rintro rfl
    exact hl rfl
  have hno : '\n' ∉ l := (noFeed_append.mp hblock).2 l (List.mem_singleton_self l)
  rcases pieces_joinWith hblock hne h.after_eq with ⟨feed, hfeed, -, hafter⟩
  have hbreak := break_of_feed hfeed
  have hpieces : pieces region.text = header.map (· ++ ['\n']) ++
      (ls.map (· ++ ['\n']) ++ [l ++ feed]) ++ pieces region.after.tail := by
    rw [text, h.before_eq, h.block_eq, List.append_assoc, pieces_endLines hheader, hafter]
    simp only [List.append_assoc]
  have hcut := h.cut.of_trim (map_trim_feed header).symm (map_trim_breaks hbreak ls l).symm rfl
  rw [find?_of_cut hpieces hcut, flatten_map_feed,
    flattenContent_breaks hbreak hno (h.noReturn l (by simp)), ← h.block_eq, ← h.before_eq]
  conv_lhs => rw [text, List.drop_left]

end OfLines

theorem IsBlock.after_of_lines {ls : List Text} {l : Text} (h : IsBlock (ls ++ [l]))
    (free : NoFeed (ls ++ [l])) (noReturn : ∀ x ∈ ls, '\r' ∉ x)
    (closed : (Mode.after .code (lines (joinWith ['\n'] (ls ++ [l])))).inStatement = false) :
    Mode.after .code (ls ++ [l]) = .code := by
  apply h.after_eq_code
  -- A blank last line is lost in the text of the block, so the statement above it would be open.
  by_cases hl : l = []
  · subst hl
    rw [joinWith_concat, lines_endLines (noFeed_append.mp free).1 noReturn, lines, pieces,
      List.map_nil, List.append_nil, h.open_of_blank_last rfl] at closed
    contradiction
  · rwa [lines_joinWith free noReturn hl] at closed

/-- Every region with closed statements is one, if its text has no carriage return. -/
theorem exists_ofLines {text : Text} (plain : '\r' ∉ text) (found : find? text = some region)
    (closed : region.Closed) : ∃ header block, OfLines region header block := by
  rcases exists_cut_of_find? found with ⟨above, body, below, hsplit, hcut, hbefore, hblock⟩
  have hwhole := text_of_find? found
  rcases exists_lines_of_split hsplit (by simp [hcut.ne_nil]) with
    ⟨all, l, feed, rest, hfree, hbreak, hupper, hfollows, hpieces, rfl⟩
  rcases exists_append_of_pieces hupper hcut.ne_nil with ⟨header, ls, rfl, rfl, rfl⟩
  rw [List.append_assoc] at hfree hwhole plain
  have hreturn : ∀ x ∈ ls ++ [l], '\r' ∉ x := by
    intro x member char
    apply plain
    apply List.mem_append_left
    exact mem_joinWith ['\n'] (List.mem_append_right header member) char
  have hlines : NoFeed (ls ++ [l]) := (noFeed_append.mp hfree).2
  rw [flattenContent_breaks hbreak (hlines l (by simp)) (hreturn l (by simp))] at hblock
  rw [flatten_map_feed] at hbefore
  have hafter : region.after = rest := by
    have hjoin : joinWith ['\n'] (header ++ (ls ++ [l])) =
        endLines header ++ joinWith ['\n'] (ls ++ [l]) := joinWith_append (by simp)
    rw [Region.text, hbefore, hblock, hjoin] at hwhole
    exact List.append_cancel_left hwhole
  have hcut := hcut.of_trim (map_trim_feed header) (map_trim_breaks hbreak ls l) rfl
  rw [← hpieces, ← hafter] at hcut
  rw [Closed, hblock] at closed
  exact ⟨header, ls ++ [l], {
    cut := hcut
    free := hfree
    noReturn := hreturn
    closed := hcut.toIsBlock.after_of_lines hlines
      (fun x member => hreturn x (List.mem_append_left _ member)) closed
    before_eq := hbefore
    block_eq := hblock
    after_eq := hafter ▸ hfollows }⟩

end Region
end ImportBlock
