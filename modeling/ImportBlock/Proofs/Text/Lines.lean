import ImportBlock.Proofs.Text.Trim

namespace ImportBlock.Text

/-- Lines written one below the other, each with its line feed. -/
def endLines (ls : List Text) : Text := ls.flatMap (· ++ ['\n'])

def NoFeed (ls : List Text) : Prop := ∀ l ∈ ls, '\n' ∉ l

theorem noFeed_append {xs ys : List Text} : NoFeed (xs ++ ys) ↔ NoFeed xs ∧ NoFeed ys :=
  List.forall_mem_append

theorem noFeed_cons {l : Text} {ls : List Text} : NoFeed (l :: ls) ↔ '\n' ∉ l ∧ NoFeed ls :=
  List.forall_mem_cons

theorem endLines_append (xs ys : List Text) :
    endLines (xs ++ ys) = endLines xs ++ endLines ys :=
  List.flatMap_append

theorem flatten_map_feed (ls : List Text) : (ls.map (· ++ ['\n'])).flatten = endLines ls :=
  (List.flatMap_def).symm

theorem pieces_line {body : Text} (h : '\n' ∉ body) (rest : Text) :
    pieces (body ++ '\n' :: rest) = (body ++ ['\n']) :: pieces rest := by
  induction body with
  | nil => simp [pieces]
  | cons c body ih =>
    have hc : c ≠ '\n' := fun heq => h (heq ▸ List.mem_cons_self)
    have hbody : '\n' ∉ body := fun member => h (List.mem_cons_of_mem c member)
    rw [List.cons_append, pieces, if_neg hc, ih hbody]
    rfl

theorem pieces_last {body : Text} (h : '\n' ∉ body) (hne : body ≠ []) : pieces body = [body] := by
  induction body with
  | nil => contradiction
  | cons c body ih =>
    have hc : c ≠ '\n' := fun heq => h (heq ▸ List.mem_cons_self)
    have hbody : '\n' ∉ body := fun member => h (List.mem_cons_of_mem c member)
    rw [pieces, if_neg hc]
    by_cases hnil : body = []
    · rw [hnil]
      rfl
    · rw [ih hbody hnil]

theorem pieces_endLines {ls : List Text} (h : NoFeed ls) (rest : Text) :
    pieces (endLines ls ++ rest) = ls.map (· ++ ['\n']) ++ pieces rest := by
  induction ls with
  | nil => rfl
  | cons l ls ih =>
    rcases noFeed_cons.mp h with ⟨hl, hls⟩
    calc
      pieces (endLines (l :: ls) ++ rest) = pieces (l ++ '\n' :: (endLines ls ++ rest)) := by
        simp [endLines]
      _ = _ := by rw [pieces_line hl, ih hls]; rfl

theorem exists_endLines (text : Text) :
    ∃ ls last, NoFeed ls ∧ '\n' ∉ last ∧ text = endLines ls ++ last := by
  induction text with
  | nil => exact ⟨[], [], by simp [NoFeed], by simp, rfl⟩
  | cons c rest ih =>
    rcases ih with ⟨ls, last, hls, hlast, split⟩
    by_cases hc : c = '\n'
    · refine ⟨[] :: ls, last, noFeed_cons.mpr ⟨by simp, hls⟩, hlast, ?_⟩
      simp [hc, split, endLines]
    · have hadd : ∀ l : Text, '\n' ∉ l → '\n' ∉ c :: l := by
        intro l hl member
        rcases List.mem_cons.mp member with heq | hmem
        · exact hc heq.symm
        · exact hl hmem
      cases ls with
      | nil => exact ⟨[], c :: last, hls, hadd last hlast, by simp [split, endLines]⟩
      | cons l ls =>
        rcases noFeed_cons.mp hls with ⟨hl, hrest⟩
        refine ⟨(c :: l) :: ls, last, noFeed_cons.mpr ⟨hadd l hl, hrest⟩, hlast, ?_⟩
        simp [split, endLines]

theorem exists_lines_of_map {ls front init rest : List Text} {final : Text} (h : NoFeed ls)
    (split : ls.map (· ++ ['\n']) = front ++ (init ++ [final]) ++ rest) :
    ∃ xs x, NoFeed (xs ++ [x]) ∧ init = xs.map (· ++ ['\n']) ∧ final = x ++ ['\n'] := by
  rcases List.map_eq_append_iff.mp split with ⟨upto, below, rfl, hupto, -⟩
  rcases List.map_eq_append_iff.mp hupto with ⟨above, body, rfl, -, hbody⟩
  rcases List.map_eq_append_iff.mp hbody with ⟨xs, tail, rfl, hxs, htail⟩
  rcases List.map_eq_singleton_iff.mp htail with ⟨x, rfl, hx⟩
  exact ⟨xs, x, (noFeed_append.mp (noFeed_append.mp h).1).2, hxs.symm, hx.symm⟩

theorem exists_lines_of_pieces {text : Text} {front stretch rest : List Text}
    (split : pieces text = front ++ stretch ++ rest) (hne : stretch ≠ []) :
    ∃ ls l feed, NoFeed (ls ++ [l]) ∧ (feed = ['\n'] ∨ feed = [] ∧ rest = [] ∧ l ≠ []) ∧
      stretch = ls.map (· ++ ['\n']) ++ [l ++ feed] := by
  rcases (List.eq_nil_or_concat' stretch).resolve_left hne with ⟨init, final, rfl⟩
  rcases exists_endLines text with ⟨ls, last, hls, hlast, rfl⟩
  rw [pieces_endLines hls] at split
  by_cases hnil : last = []
  · rw [hnil, pieces, List.append_nil] at split
    rcases exists_lines_of_map hls split with ⟨xs, x, hfree, hinit, hfinal⟩
    exact ⟨xs, x, ['\n'], hfree, .inl rfl, by rw [hinit, hfinal]⟩
  · rw [pieces_last hlast hnil] at split
    rcases List.eq_nil_or_concat' rest with rfl | ⟨more, bottom, rfl⟩
    · rw [List.append_nil, ← List.append_assoc] at split
      rcases List.append_inj' split rfl with ⟨hfront, hfinal⟩
      rcases List.map_eq_append_iff.mp hfront with ⟨above, xs, rfl, -, hxs⟩
      rw [List.singleton_inj] at hfinal
      refine ⟨xs, last, [], ?_, .inr ⟨rfl, rfl, hnil⟩, by rw [hxs, hfinal, List.append_nil]⟩
      exact noFeed_append.mpr ⟨(noFeed_append.mp hls).2, by simpa [NoFeed] using hlast⟩
    · rw [← List.append_assoc] at split
      rcases List.append_inj' split rfl with ⟨hfront, -⟩
      rcases exists_lines_of_map hls hfront with ⟨xs, x, hfree, hinit, hfinal⟩
      exact ⟨xs, x, ['\n'], hfree, .inl rfl, by rw [hinit, hfinal]⟩

theorem exists_append_of_pieces {ls upper lower : List Text} {final : Text}
    (split : upper ++ lower = ls.map (· ++ ['\n']) ++ [final]) (ne : lower ≠ []) :
    ∃ xs ys, ls = xs ++ ys ∧ upper = xs.map (· ++ ['\n']) ∧
      lower = ys.map (· ++ ['\n']) ++ [final] := by
  rcases (List.eq_nil_or_concat' lower).resolve_left ne with ⟨init, last, rfl⟩
  rw [← List.append_assoc] at split
  rcases List.append_inj' split rfl with ⟨hlines, hlast⟩
  rcases List.map_eq_append_iff.mp hlines.symm with ⟨xs, ys, rfl, rfl, rfl⟩
  exact ⟨xs, ys, rfl, rfl, by rw [hlast]⟩

theorem break_of_feed {feed : Text} {final : Prop} (h : feed = ['\n'] ∨ feed = [] ∧ final) :
    ∀ c ∈ feed, isBreak c = true := by
  rcases h with rfl | ⟨rfl, -⟩
  · exact break_feed
  · exact List.forall_mem_nil _

theorem map_trim_map {f : Text → Text} (h : ∀ l, trim (f l) = trim l) (ls : List Text) :
    (ls.map f).map trim = ls.map trim := by
  rw [List.map_map]
  exact List.map_congr_left fun l _ => h l

theorem map_trim_feed (ls : List Text) : (ls.map (· ++ ['\n'])).map trim = ls.map trim :=
  map_trim_map (trim_append_breaks break_feed) ls

theorem trim_dropBreak (piece : Text) : trim (dropBreak piece) = trim piece := by
  rw [dropBreak]
  split
  · next body hrev =>
    have hpiece : piece = body.reverse ++ ['\r', '\n'] := by
      have := congrArg List.reverse hrev
      simpa using this
    rw [hpiece, trim_append_breaks break_return]
  · next body _ hrev =>
    have hpiece : piece = body.reverse ++ ['\n'] := by
      have := congrArg List.reverse hrev
      simpa using this
    rw [hpiece, trim_append_breaks break_feed]
  · rfl

theorem dropBreak_of_not_mem {l : Text} (h : '\n' ∉ l) : dropBreak l = l := by
  rw [dropBreak]
  split
  · next body hrev => exact absurd (List.mem_reverse.mp (hrev ▸ List.mem_cons_self)) h
  · next body _ hrev => exact absurd (List.mem_reverse.mp (hrev ▸ List.mem_cons_self)) h
  · rfl

theorem dropBreak_line {l : Text} (h : '\r' ∉ l) : dropBreak (l ++ ['\n']) = l := by
  rw [dropBreak, List.reverse_append]
  split
  · next body hrev =>
    have hmem : '\r' ∈ l.reverse := by simp_all
    exact absurd (List.mem_reverse.mp hmem) h
  · next body _ hrev =>
    have := congrArg List.reverse (List.cons.inj hrev).2
    simpa using this.symm
  · next hno => exact absurd rfl (hno l.reverse)

theorem not_mem_content {l : Text} {c : Char} (h : c ∉ l) : c ∉ content l :=
  fun member => h ((isPrefix_dropEndWhile isBreak l).subset member)

theorem content_of_not_mem {l : Text} (feed : '\n' ∉ l) (cr : '\r' ∉ l) : content l = l := by
  apply List.rdropWhile_eq_self_iff.mpr
  intro hne hbreak
  have hmem := List.getLast_mem hne
  simp only [isBreak, Bool.or_eq_true, beq_iff_eq] at hbreak
  rcases hbreak with heq | heq
  · exact feed (heq ▸ hmem)
  · exact cr (heq ▸ hmem)

theorem content_of_stop {l : Text} (stop : l.getLast?.any isBreak = false) : content l = l := by
  apply List.rdropWhile_eq_self_iff.mpr
  intro hne
  rw [List.getLast?_eq_getLast_of_ne_nil hne, Option.any_some] at stop
  simp [stop]

theorem flattenContent_concat (ls : List Text) (l : Text) :
    flattenContent (ls.map (· ++ ['\n']) ++ [l]) = endLines ls ++ content l := by
  rw [flattenContent, List.dropLast_concat, List.getLast?_concat, flatten_map_feed]
  rfl

theorem joinWith_cons {separator part : Text} {parts : List Text} (h : parts ≠ []) :
    joinWith separator (part :: parts) = part ++ separator ++ joinWith separator parts := by
  cases parts with
  | nil => contradiction
  | cons next rest => rfl

theorem joinWith_append_singleton (separator : Text) (ls : List Text) (l : Text) :
    joinWith separator (ls ++ [l]) = ls.flatMap (· ++ separator) ++ l := by
  induction ls with
  | nil => rfl
  | cons x xs ih =>
    rw [List.cons_append, joinWith_cons (by simp), ih, List.flatMap_cons]
    simp only [List.append_assoc]

theorem joinWith_concat (ls : List Text) (l : Text) :
    joinWith ['\n'] (ls ++ [l]) = endLines ls ++ l :=
  joinWith_append_singleton ['\n'] ls l

section Breaks

variable {breaks : Text} (h : ∀ c ∈ breaks, isBreak c = true)

include h

theorem map_trim_breaks (ls : List Text) (l : Text) :
    (ls.map (· ++ ['\n']) ++ [l ++ breaks]).map trim = (ls ++ [l]).map trim := by
  rw [List.map_append, map_trim_feed, List.map_singleton, trim_append_breaks h, List.map_append,
    List.map_singleton]

theorem flattenContent_breaks {l : Text} (feed : '\n' ∉ l) (cr : '\r' ∉ l) (ls : List Text) :
    flattenContent (ls.map (· ++ ['\n']) ++ [l ++ breaks]) = joinWith ['\n'] (ls ++ [l]) := by
  rw [flattenContent_concat, content_append_breaks h, content_of_not_mem feed cr, joinWith_concat]

end Breaks

theorem joinWith_append_lines (separator : Text) (xs : List Text) {ys : List Text} (h : ys ≠ []) :
    joinWith separator (xs ++ ys) = xs.flatMap (· ++ separator) ++ joinWith separator ys := by
  rcases (List.eq_nil_or_concat' ys).resolve_left h with ⟨init, l, rfl⟩
  rw [← List.append_assoc, joinWith_append_singleton, joinWith_append_singleton,
    List.flatMap_append, List.append_assoc]

theorem joinWith_append {xs ys : List Text} (h : ys ≠ []) :
    joinWith ['\n'] (xs ++ ys) = endLines xs ++ joinWith ['\n'] ys :=
  joinWith_append_lines ['\n'] xs h

theorem joinWith_feed {ls : List Text} (h : ls ≠ []) :
    joinWith ['\n'] ls ++ ['\n'] = endLines ls := by
  rcases (List.eq_nil_or_concat' ls).resolve_left h with ⟨init, l, rfl⟩
  rw [joinWith_concat, endLines_append]
  simp [endLines]

theorem mem_endLines_iff {ls : List Text} {c : Char} :
    c ∈ endLines ls ↔ ∃ l ∈ ls, c ∈ l ∨ c = '\n' := by
  simp [endLines]

theorem mem_of_mem_joinWith {separator : Text} {parts : List Text} {c : Char}
    (h : c ∈ joinWith separator parts) : c ∈ separator ∨ ∃ part ∈ parts, c ∈ part := by
  induction parts with
  | nil => simp [joinWith] at h
  | cons first parts ih =>
    by_cases hnil : parts = []
    · subst hnil
      exact .inr ⟨first, List.mem_cons_self, h⟩
    · rw [joinWith_cons hnil, List.mem_append, List.mem_append] at h
      rcases h with (hc | hc) | hc
      · exact .inr ⟨first, List.mem_cons_self, hc⟩
      · exact .inl hc
      · rcases ih hc with hc | ⟨part, hpart, hc⟩
        · exact .inl hc
        · exact .inr ⟨part, List.mem_cons_of_mem first hpart, hc⟩

theorem mem_joinWith (separator : Text) {parts : List Text} {part : Text} {c : Char}
    (member : part ∈ parts) (h : c ∈ part) : c ∈ joinWith separator parts := by
  induction parts with
  | nil => contradiction
  | cons first parts ih =>
    by_cases hnil : parts = []
    · subst hnil
      rwa [← List.mem_singleton.mp member]
    · rw [joinWith_cons hnil]
      rcases List.mem_cons.mp member with rfl | hmem
      · simp [h]
      · exact List.mem_append_right _ (ih hmem)

theorem not_mem_endLines {ls : List Text} (h : ∀ l ∈ ls, '\r' ∉ l) : '\r' ∉ endLines ls := by
  rw [mem_endLines_iff]
  rintro ⟨l, hl, hc | hc⟩
  · exact h l hl hc
  · exact absurd hc (by decide)

theorem not_mem_joinWith {ls : List Text} (h : ∀ l ∈ ls, '\r' ∉ l) :
    '\r' ∉ joinWith ['\n'] ls := by
  intro member
  rcases mem_of_mem_joinWith member with hc | ⟨l, hl, hc⟩
  · exact absurd hc (by decide)
  · exact h l hl hc

theorem endLines_injective {xs ys : List Text} (hx : NoFeed xs) (hy : NoFeed ys)
    (h : endLines xs = endLines ys) : xs = ys := by
  have hpieces := congrArg pieces h
  rw [← List.append_nil (endLines xs), ← List.append_nil (endLines ys), pieces_endLines hx,
    pieces_endLines hy, List.append_left_inj] at hpieces
  exact List.map_injective_iff.mpr (fun _ _ => List.append_cancel_right) hpieces

theorem joinWith_injective {xs ys : List Text} (hx : NoFeed xs) (hy : NoFeed ys) (nx : xs ≠ [])
    (ny : ys ≠ []) (h : joinWith ['\n'] xs = joinWith ['\n'] ys) : xs = ys := by
  apply endLines_injective hx hy
  rw [← joinWith_feed nx, ← joinWith_feed ny, h]

end ImportBlock.Text
