import ImportBlock.Format
import ImportBlock.Proofs.Region.Trailing
import ImportBlock.Proofs.Text.Paired

namespace ImportBlock

open Text Line

namespace Text

variable {ls : List Text}

theorem white_startLines (blank : ∀ l ∈ ls, isBlank l = true) :
    ∀ c ∈ startLines ls, isWhite c = true := by
  intro c member
  rcases List.mem_flatMap.mp member with ⟨l, hl, hc⟩
  rcases List.mem_cons.mp hc with rfl | hc
  · decide
  · exact trim_eq_nil_iff.mp (isBlank_iff_trim.mp (blank l hl)) c hc

theorem trimEnd_startLines (ls : List Text) {l : Text} (stays : isBlank l = false) :
    trimEnd (startLines (ls ++ [l])) = startLines ls ++ '\n' :: trimEnd l := by
  obtain ⟨c, hc, hwhite⟩ : ∃ c ∈ l, isWhite c = false := by
    simpa [isBlank] using stays
  have hsplit : startLines (ls ++ [l]) = startLines ls ++ ['\n'] ++ l := by
    rw [startLines_append, List.append_assoc]
    simp [startLines]
  rw [hsplit, trimEnd_append ⟨c, hc, hwhite⟩, List.append_assoc]
  rfl

end Text

namespace Format

theorem dropBlankTail_of_white {text : Text} (white : ∀ c ∈ text, isWhite c = true) :
    dropBlankTail text = [] := by
  have hbody : trimEnd text = [] := List.rdropWhile_eq_nil_iff.mpr white
  rw [dropBlankTail, hbody]
  rfl

theorem mem_of_mem_dropBlankTail {text : Text} {c : Char} (member : c ∈ dropBlankTail text) :
    c ∈ text := by
  rw [dropBlankTail] at member
  split at member
  · contradiction
  · rcases List.mem_append.mp member with hbody | hrun
    · exact (isPrefix_dropEndWhile isWhite text).subset hbody
    · have hmem := (isPrefix_dropEndWhile isBreak _).subset hrun
      exact List.mem_of_mem_drop ((List.takeWhile_prefix _).subset hmem)

/-- White space that ends the last line stays, but for the line break characters behind it. -/
theorem dropBlankTail_append {body run breaks rest : Text} (stays : trimEnd body = body)
    (ne : body ≠ []) (whiteRun : ∀ c ∈ run, isWhite c = true) (feed : '\n' ∉ run ++ breaks)
    (stop : run.getLast?.any isBreak = false) (isBreaks : ∀ c ∈ breaks, isBreak c = true)
    (whiteRest : ∀ c ∈ rest, isWhite c = true) (follows : Follows rest) :
    dropBlankTail (body ++ run ++ breaks ++ rest) = body ++ run := by
  have hbreaks : ∀ c ∈ breaks, isWhite c = true := fun c hc => isWhite_of_isBreak (isBreaks c hc)
  have hbody : trimEnd (body ++ run ++ breaks ++ rest) = body := by
    rw [trimEnd, dropEndWhile_append_of_all whiteRest, dropEndWhile_append_of_all hbreaks,
      dropEndWhile_append_of_all whiteRun]
    exact stays
  have hrun : ∀ c ∈ run ++ breaks, (c != '\n') = true := by
    intro c hc
    rw [bne_iff_ne]
    rintro rfl
    exact feed hc
  have htake : (run ++ breaks ++ rest).takeWhile (· != '\n') = run ++ breaks := by
    rw [List.takeWhile_append_of_pos hrun]
    rcases follows with rfl | ⟨below, rfl⟩ <;> simp
  have hne : body.isEmpty = false := by simpa using ne
  have hsplit : body ++ run ++ breaks ++ rest = body ++ (run ++ breaks ++ rest) := by
    simp only [List.append_assoc]
  rw [dropBlankTail, hbody, hsplit, List.drop_left, htake, content_append_breaks isBreaks,
    content_of_stop stop, hne]
  rfl

theorem dropBlankTail_startLines {ls : List Text} (free : NoFeed ls)
    (noReturn : ∀ l ∈ ls, '\r' ∉ l) :
    dropBlankTail (startLines ls) = startLines (dropEndWhile isBlank ls) := by
  rcases exists_append_dropEndWhile isBlank ls with ⟨blanks, hls, hblanks⟩
  rcases List.eq_nil_or_concat' (dropEndWhile isBlank ls) with hnil | ⟨init, l, hkept⟩
  · rw [hnil, List.nil_append] at hls
    rw [hnil, dropBlankTail_of_white (hls ▸ white_startLines hblanks)]
    rfl
  · have hstays := not_last_dropEndWhile hkept
    rw [hkept] at hls ⊢
    have hl : l ∈ ls := by simp [hls]
    rcases exists_append_dropEndWhile isWhite l with ⟨run, hrun, hwhite⟩
    have hmem : ∀ c ∈ run, c ∈ l := by
      intro c hc
      rw [hrun]
      exact List.mem_append_right _ hc
    have hkeep : startLines (init ++ [l]) = startLines init ++ '\n' :: trimEnd l ++ run := by
      have hlast : startLines [l] = '\n' :: (trimEnd l ++ run) := by
        rw [startLines, List.flatMap_singleton]
        exact congrArg ('\n' :: ·) hrun
      rw [startLines_append, hlast]
      simp only [List.append_assoc, List.cons_append]
    have hbody := trimEnd_startLines init hstays
    have hfeed : '\n' ∉ run ++ [] := fun hc => free l hl (hmem _ (by simpa using hc))
    have hstop : run.getLast?.any isBreak = false := by
      rw [← content_of_not_mem (fun hc => free l hl (hmem _ hc))
        fun hc => noReturn l hl (hmem _ hc)]
      exact getLast?_dropEndWhile isBreak run
    have hstays : trimEnd (startLines init ++ '\n' :: trimEnd l) =
        startLines init ++ '\n' :: trimEnd l := by
      rw [← hbody, trimEnd_trimEnd]
    have hdrop := dropBlankTail_append hstays (by simp) hwhite hfeed hstop (List.forall_mem_nil _)
      (white_startLines hblanks) (follows_startLines blanks)
    rw [List.append_nil] at hdrop
    rw [hls, startLines_append, hkeep, hdrop]

theorem quiet_dropBlankTail {rest : Text} (quiet : Quiet rest) (plain : '\r' ∉ rest) :
    Quiet (dropBlankTail rest ++ ['\n']) ∧
      dropBlankTail (dropBlankTail rest ++ ['\n']) = dropBlankTail rest := by
  rcases quiet.follows.exists_startLines with ⟨ls, hfree, rfl⟩
  have hnoReturn : ∀ l ∈ ls, '\r' ∉ l := by
    intro l hl hc
    exact plain (List.mem_flatMap.mpr ⟨l, hl, List.mem_cons_of_mem _ hc⟩)
  rcases exists_append_dropEndWhile isBlank ls with ⟨blanks, hls, hblanks⟩
  have hlast : ∀ front l, dropEndWhile isBlank ls = front ++ [l] → isBlank l = false :=
    fun front l => not_last_dropEndWhile
  have hsame : dropEndWhile isBlank (dropEndWhile isBlank ls) = dropEndWhile isBlank ls :=
    List.rdropWhile_idempotent isBlank ls
  rw [dropBlankTail_startLines hfree hnoReturn]
  generalize dropEndWhile isBlank ls = kept at hls hlast hsame
  subst hls
  have hkept : NoFeed kept := (noFeed_append.mp hfree).1
  -- What is left starts the same lines, and one empty line that is no piece.
  have hend : startLines kept ++ ['\n'] = startLines (kept ++ [[]]) := by
    rw [startLines_append]
    rfl
  have hpieces : pieces (startLines (kept ++ [[]])).tail = kept.map (· ++ ['\n']) := by
    rw [startLines_of_ne_nil (by simp), List.tail_cons, joinWith_concat, pieces_endLines hkept]
    simp [pieces]
  have hprefix : (pieces (startLines (kept ++ [[]])).tail).map trim <+:
      (pieces (startLines (kept ++ blanks)).tail).map trim := by
    rw [hpieces, map_trim_feed, startLines_append, map_trim_pieces_startLines hkept _
      (follows_startLines blanks)]
    · exact List.prefix_append _ _
    · rintro front l hfront rfl
      exact absurd (hlast front [] hfront) (by decide)
  rw [hend]
  refine ⟨⟨follows_startLines _, ?_, ?_⟩, ?_⟩
  · exact forall_takeWhile_of_prefix (fun _ => rfl) (fun _ => rfl) hprefix quiet.comments
  · exact forall_takeWhile_of_prefix (fun _ => rfl) (fun _ => rfl) hprefix quiet.stops
  · have hblank : isBlank [] = true := rfl
    have hreturn : ∀ l ∈ kept ++ [[]], '\r' ∉ l := by
      intro l hl
      rcases List.mem_append.mp hl with hl | hl
      · exact hnoReturn l (List.mem_append_left _ hl)
      · simp [List.mem_singleton.mp hl]
    rw [dropBlankTail_startLines (noFeed_append.mpr ⟨hkept, by simp [NoFeed]⟩) hreturn,
      dropEndWhile_append_of_all (by simpa using hblank), hsame]

end Format

namespace Text

/-- A text and what is left of it without all below its last line that is not blank, and without
the line break characters that end that line. -/
inductive Trimmed : Text → Text → Prop where
  | blank {text : Text} (blank : isBlank text = true) : Trimmed text []
  | lines {above last breaks below : Text} (ended : Ended above) (free : '\n' ∉ last ++ breaks)
      (filled : isBlank last = false) (stop : last.getLast?.any isBreak = false)
      (isBreaks : ∀ c ∈ breaks, isBreak c = true) (follows : Follows below)
      (blank : isBlank below = true) : Trimmed (above ++ last ++ breaks ++ below) (above ++ last)

def EndsInText (text : Text) : Prop :=
  ∃ above last, text = above ++ last ∧ Ended above ∧ '\n' ∉ last ∧ isBlank last = false

variable {text kept : Text}

theorem exists_line (text : Text) : ∃ line breaks below, text = line ++ breaks ++ below ∧
    '\n' ∉ line ++ breaks ∧ line.getLast?.any isBreak = false ∧
      (∀ c ∈ breaks, isBreak c = true) ∧ Follows below := by
  obtain ⟨breaks, hline, hbreaks⟩ :=
    exists_append_dropEndWhile isBreak (text.takeWhile (· != '\n'))
  refine ⟨content (text.takeWhile (· != '\n')), breaks, text.dropWhile (· != '\n'), ?_, ?_,
    getLast?_dropEndWhile isBreak _, hbreaks, follows_dropWhile text⟩
  · rw [content, ← hline, List.takeWhile_append_dropWhile]
  · rw [content, ← hline]
    intro hmem
    simpa using List.mem_takeWhile_imp hmem

theorem exists_last_stays (filled : isBlank text = false) : ∃ above front c white,
    text = above ++ (front ++ [c]) ++ white ∧ Ended above ∧ '\n' ∉ front ++ [c] ∧
      isWhite c = false ∧ ∀ d ∈ white, isWhite d = true := by
  obtain ⟨white, htext, hwhite⟩ := exists_append_dropEndWhile isWhite text
  have hstays := getLast?_dropEndWhile isWhite text
  generalize dropEndWhile isWhite text = body at htext hstays
  obtain ⟨ls, l, -, hl, rfl⟩ := exists_endLines body
  rcases List.eq_nil_or_concat' l with rfl | ⟨front, c, rfl⟩
  · rcases ended_endLines ls with hnil | ⟨above, habove⟩
    · rw [hnil] at htext
      rw [htext, isBlank, List.all_eq_false] at filled
      obtain ⟨c, hc, hstay⟩ := filled
      exact absurd (hwhite c hc) hstay
    · rw [List.append_nil, habove, List.getLast?_concat] at hstays
      exact absurd hstays (by decide)
  · rw [← List.append_assoc, List.getLast?_concat, Option.any_some] at hstays
    exact ⟨endLines ls, front, c, white, htext, ended_endLines ls, hl, hstays, hwhite⟩

theorem exists_last_line (filled : isBlank text = false) :
    ∃ above last, Trimmed text (above ++ last) := by
  obtain ⟨above, front, c, white, rfl, hended, hfree, hstay, hwhite⟩ := exists_last_stays filled
  obtain ⟨run, breaks, below, rfl, hfeed, hstop, hbreaks, hfollows⟩ := exists_line white
  have hbelow : isBlank below = true :=
    List.all_eq_true.mpr fun d hd => hwhite d (List.mem_append_right _ hd)
  refine ⟨above, front ++ [c] ++ run, ?_⟩
  have hsplit : above ++ (front ++ [c]) ++ (run ++ breaks ++ below) =
      above ++ (front ++ [c] ++ run) ++ breaks ++ below := by
    simp only [List.append_assoc]
  rw [hsplit]
  refine .lines hended ?_ (isBlank_eq_false_of_mem (by simp) hstay) ?_ hbreaks hfollows hbelow
  · rw [List.append_assoc, List.mem_append, not_or]
    exact ⟨hfree, hfeed⟩
  · rcases List.eq_nil_or_concat' run with rfl | ⟨more, d, rfl⟩
    · rw [List.append_nil, List.getLast?_concat, Option.any_some, ← Bool.not_eq_true]
      intro hbreak
      rw [isWhite_of_isBreak hbreak] at hstay
      contradiction
    · rw [List.getLast?_concat] at hstop
      rw [← List.append_assoc, List.getLast?_concat]
      exact hstop

namespace Trimmed

theorem kept_eq (trimmed : Trimmed text kept) : kept = Format.dropBlankTail text := by
  cases trimmed with
  | blank blank => rw [Format.dropBlankTail_of_white (List.all_eq_true.mp blank)]
  | @lines above last breaks below ended free filled stop isBreaks follows blank =>
    obtain ⟨c, hc, hstay⟩ := List.all_eq_false.mp filled
    obtain ⟨run, hrun, hwhite⟩ := exists_append_dropEndWhile isWhite last
    change last = trimEnd last ++ run at hrun
    have hkept : ∃ d ∈ last, isWhite d = false := ⟨c, hc, by simpa using hstay⟩
    have hbody : trimEnd (above ++ trimEnd last) = above ++ trimEnd last := by
      rw [← trimEnd_append hkept, trimEnd_trimEnd]
    have hne : trimEnd last ≠ [] := by
      intro hnil
      rw [hnil, List.nil_append] at hrun
      exact hstay (hwhite c (hrun ▸ hc))
    have hstop : run.getLast?.any isBreak = false := by
      rcases List.eq_nil_or_concat' run with rfl | ⟨init, d, rfl⟩
      · rfl
      · rw [hrun, ← List.append_assoc, List.getLast?_concat] at stop
        rwa [List.getLast?_concat]
    have hfeed : '\n' ∉ run ++ breaks := by
      intro hmem
      apply free
      rw [hrun, List.append_assoc]
      exact List.mem_append_right _ hmem
    have hdrop := Format.dropBlankTail_append hbody (by simp [hne]) hwhite hfeed hstop isBreaks
      (List.all_eq_true.mp blank) follows
    have hlast : above ++ trimEnd last ++ run = above ++ last := by
      rw [List.append_assoc, ← hrun]
    rw [← hlast, hdrop]

theorem endsInText (trimmed : Trimmed text kept) : kept = [] ∨ EndsInText kept := by
  cases trimmed with
  | blank => exact .inl rfl
  | @lines above last breaks below ended free filled =>
    exact .inr ⟨above, last, rfl, ended, fun h => free (List.mem_append_left _ h), filled⟩

end Trimmed

/-- A text has one trimmed form. -/
theorem trimmed_iff : Trimmed text kept ↔ kept = Format.dropBlankTail text := by
  constructor
  · exact Trimmed.kept_eq
  · rintro rfl
    cases hblank : isBlank text with
    | true =>
      rw [Format.dropBlankTail_of_white (List.all_eq_true.mp hblank)]
      exact .blank hblank
    | false =>
      obtain ⟨above, last, htrimmed⟩ := exists_last_line hblank
      rwa [← htrimmed.kept_eq]

namespace EndsInText

theorem ne_nil (ends : EndsInText text) : text ≠ [] := by
  obtain ⟨above, last, rfl, -, -, hfilled⟩ := ends
  intro hnil
  rw [(List.append_eq_nil_iff.mp hnil).2] at hfilled
  contradiction

theorem append (ends : EndsInText text) (upper : Text) : EndsInText (upper ++ text) := by
  obtain ⟨above, last, rfl, hended, hfree, hfilled⟩ := ends
  rcases hended with rfl | ⟨front, rfl⟩
  · obtain ⟨ls, l, -, hl, rfl⟩ := exists_endLines upper
    refine ⟨endLines ls, l ++ last, by simp, ended_endLines ls, ?_, ?_⟩
    · rw [List.mem_append, not_or]
      exact ⟨hl, hfree⟩
    · rw [isBlank, List.all_append, Bool.and_eq_false_iff]
      exact .inr hfilled
  · exact ⟨upper ++ (front ++ ['\n']), last, by simp, .inr ⟨upper ++ front, by simp⟩, hfree,
      hfilled⟩

theorem dropWhile_isBreak (ends : EndsInText text) : EndsInText (text.dropWhile isBreak) := by
  obtain ⟨above, last, rfl, hended, hfree, hfilled⟩ := ends
  obtain ⟨c, hc, hstay⟩ := List.all_eq_false.mp hfilled
  rw [List.dropWhile_append]
  split
  · refine ⟨[], last.dropWhile isBreak, rfl, .inl rfl,
      fun h => hfree ((List.dropWhile_suffix _).subset h), ?_⟩
    refine isBlank_eq_false_of_mem (c := c) ?_ (by simpa using hstay)
    have hmem : c ∈ last.takeWhile isBreak ++ last.dropWhile isBreak := by
      rwa [List.takeWhile_append_dropWhile]
    refine (List.mem_append.mp hmem).resolve_left fun htake => hstay ?_
    exact isWhite_of_isBreak (List.mem_takeWhile_imp htake)
  · next hsome =>
    refine ⟨above.dropWhile isBreak, last, rfl, ?_, hfree, hfilled⟩
    rcases hended with rfl | ⟨front, rfl⟩
    · exact .inl rfl
    · rw [List.dropWhile_append] at hsome ⊢
      split at hsome
      · simp [isBreak] at hsome
      · next hfront =>
        rw [if_neg hfront]
        exact .inr ⟨_, rfl⟩

end EndsInText

end Text
end ImportBlock
