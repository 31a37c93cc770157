import ImportBlock.Proofs.Text.Lines

namespace ImportBlock.Text

/-- Lines written one below the other, each behind a line feed. -/
def startLines (ls : List Text) : Text := ls.flatMap ('\n' :: ·)

/-- The text ends the line above it, or is nothing. -/
def Follows (text : Text) : Prop := text = [] ∨ ∃ below, text = '\n' :: below

theorem follows_dropWhile (text : Text) : Follows (text.dropWhile (· != '\n')) := by
  have hfeed := List.head?_dropWhile_not (· != '\n') text
  cases hrest : text.dropWhile (· != '\n') with
  | nil => exact .inl rfl
  | cons c below =>
    rw [hrest] at hfeed
    exact .inr ⟨below, by simpa using hfeed⟩

theorem startLines_append (xs ys : List Text) :
    startLines (xs ++ ys) = startLines xs ++ startLines ys :=
  List.flatMap_append

theorem startLines_cons (l : Text) (ls : List Text) :
    startLines (l :: ls) = '\n' :: joinWith ['\n'] (l :: ls) := by
  induction ls generalizing l with
  | nil => simp [startLines, joinWith]
  | cons next rest ih =>
    have hnext := ih next
    rw [joinWith_cons (by simp), ← List.singleton_append, startLines_append, hnext]
    simp [startLines]

theorem startLines_of_ne_nil {ls : List Text} (ne : ls ≠ []) :
    startLines ls = '\n' :: joinWith ['\n'] ls := by
  rcases List.exists_cons_of_ne_nil ne with ⟨l, rest, rfl⟩
  exact startLines_cons l rest

theorem joinWith_append_startLines {xs : List Text} (ys : List Text) (ne : xs ≠ []) :
    joinWith ['\n'] xs ++ startLines ys = joinWith ['\n'] (xs ++ ys) := by
  by_cases hnil : ys = []
  · simp [hnil, startLines]
  · rw [joinWith_append hnil, startLines_of_ne_nil hnil, ← joinWith_feed ne]
    simp

theorem follows_startLines (ls : List Text) : Follows (startLines ls) := by
  cases ls with
  | nil => exact .inl rfl
  | cons l rest => exact .inr ⟨_, startLines_cons l rest⟩

theorem Follows.append {upper lower : Text} (hupper : Follows upper) (hlower : Follows lower) :
    Follows (upper ++ lower) := by
  rcases hupper with rfl | ⟨below, rfl⟩
  · exact hlower
  · exact .inr ⟨below ++ lower, rfl⟩

theorem Follows.exists_startLines {text : Text} (follows : Follows text) :
    ∃ ls, NoFeed ls ∧ text = startLines ls := by
  rcases follows with rfl | ⟨below, rfl⟩
  · exact ⟨[], by simp [NoFeed], rfl⟩
  · rcases exists_endLines below with ⟨ls, last, hls, hlast, rfl⟩
    refine ⟨ls ++ [last], noFeed_append.mpr ⟨hls, by simpa [NoFeed] using hlast⟩, ?_⟩
    rw [startLines_of_ne_nil (by simp), joinWith_concat]

theorem not_mem_startLines {ls : List Text} (h : ∀ l ∈ ls, '\r' ∉ l) : '\r' ∉ startLines ls := by
  intro member
  rcases List.mem_flatMap.mp member with ⟨l, hl, hc⟩
  rcases List.mem_cons.mp hc with hfeed | hc
  · exact absurd hfeed (by decide)
  · exact h l hl hc

theorem pieces_joinWith {ls : List Text} {l after : Text} (free : NoFeed (ls ++ [l])) (ne : l ≠ [])
    (follows : Follows after) : ∃ feed, (feed = ['\n'] ∨ feed = [] ∧ after = []) ∧
      after = feed ++ after.tail ∧ pieces (joinWith ['\n'] (ls ++ [l]) ++ after) =
        ls.map (· ++ ['\n']) ++ [l ++ feed] ++ pieces after.tail := by
  rcases noFeed_append.mp free with ⟨hls, hl⟩
  have hno : '\n' ∉ l := hl l (List.mem_singleton_self l)
  rw [joinWith_concat, List.append_assoc, pieces_endLines hls]
  simp only [List.append_assoc]
  rcases follows with rfl | ⟨below, rfl⟩
  · exact ⟨[], .inr ⟨rfl, rfl⟩, rfl, by simp [pieces_last hno ne, pieces]⟩
  · exact ⟨['\n'], .inl rfl, rfl, by simp [pieces_line hno]⟩

theorem map_trim_pieces_startLines {ls : List Text} {after : Text} (free : NoFeed ls)
    (last : ∀ front l, ls = front ++ [l] → l ≠ []) (follows : Follows after) :
    (pieces (startLines ls ++ after).tail).map trim =
      ls.map trim ++ (pieces after.tail).map trim := by
  rcases List.eq_nil_or_concat' ls with rfl | ⟨front, l, rfl⟩
  · rfl
  · rcases pieces_joinWith free (last front l rfl) follows with ⟨feed, hfeed, -, hpieces⟩
    have htail : (startLines (front ++ [l]) ++ after).tail =
        joinWith ['\n'] (front ++ [l]) ++ after := by
      rw [startLines_of_ne_nil (by simp)]
      rfl
    calc
      (pieces (startLines (front ++ [l]) ++ after).tail).map trim =
          (front.map (· ++ ['\n']) ++ [l ++ feed] ++ pieces after.tail).map trim := by
        rw [htail, hpieces]
      _ = (front ++ [l]).map trim ++ (pieces after.tail).map trim := by
        rw [List.map_append, map_trim_breaks (break_of_feed hfeed)]

theorem exists_lines_of_split {text : Text} {upper lower : List Text}
    (split : pieces text = upper ++ lower) (ne : upper ≠ []) :
    ∃ ls l feed rest, NoFeed (ls ++ [l]) ∧ (∀ c ∈ feed, isBreak c = true) ∧
      upper = ls.map (· ++ ['\n']) ++ [l ++ feed] ∧ Follows rest ∧ pieces rest.tail = lower ∧
      text = joinWith ['\n'] (ls ++ [l]) ++ rest := by
  have hstretch : pieces text = [] ++ upper ++ lower := split
  rcases exists_lines_of_pieces hstretch ne with ⟨ls, l, feed, hfree, hfeed, rfl⟩
  have htext : text = joinWith ['\n'] (ls ++ [l]) ++ (feed ++ lower.flatten) := by
    conv_lhs => rw [← flatten_pieces text, split]
    simp only [List.flatten_append, flatten_map_feed, List.flatten_singleton, joinWith_concat,
      List.append_assoc]
  refine ⟨ls, l, feed, feed ++ lower.flatten, hfree, break_of_feed hfeed, rfl, ?_, ?_, htext⟩
  · rcases hfeed with rfl | ⟨rfl, rfl, -⟩
    · exact .inr ⟨_, rfl⟩
    · exact .inl rfl
  · rcases hfeed with rfl | ⟨rfl, rfl, -⟩
    · have hpieces := split
      have hlines : text = endLines (ls ++ [l]) ++ lower.flatten := by
        rw [htext, ← joinWith_feed (by simp)]
        simp
      rw [hlines, pieces_endLines hfree] at hpieces
      simpa using hpieces
    · rfl

end ImportBlock.Text
