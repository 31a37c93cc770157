import ImportBlock.Proofs.Text.Tail

namespace ImportBlock.Text

/-- A carriage return stands only ahead of a line feed. -/
inductive PairedReturns : Text → Prop where
  | nil : PairedReturns []
  | cons {c : Char} {rest : Text} (feed : c = '\r' → rest.head? = some '\n')
    (tail : PairedReturns rest) : PairedReturns (c :: rest)

theorem pairedReturns_cons {c : Char} {rest : Text} :
    PairedReturns (c :: rest) ↔ (c = '\r' → rest.head? = some '\n') ∧ PairedReturns rest := by
  constructor
  · rintro (_ | ⟨feed, tail⟩)
    exact ⟨feed, tail⟩
  · rintro ⟨feed, tail⟩
    exact .cons feed tail

instance decidablePairedReturns : (text : Text) → Decidable (PairedReturns text)
  | [] => .isTrue .nil
  | _ :: rest =>
    have := decidablePairedReturns rest
    decidable_of_iff _ pairedReturns_cons.symm

def nonBlank (ls : List Text) : List Text := ls.filter (!isBlank ·)

/-- The lines that are not blank, without their line breaks. -/
def nonBlankLines (text : Text) : List Text := nonBlank (lines text)

def WholeBreak (text : Text) : Prop := text = ['\n'] ∨ text = ['\r', '\n']

def Ended (text : Text) : Prop := text = [] ∨ ∃ above, text = above ++ ['\n']

namespace PairedReturns

variable {text upper lower : Text}

theorem feed {c : Char} {rest : Text} (h : PairedReturns (c :: rest)) (hc : c = '\r') :
    rest.head? = some '\n' :=
  (pairedReturns_cons.mp h).1 hc

theorem tail {c : Char} {rest : Text} (h : PairedReturns (c :: rest)) : PairedReturns rest :=
  (pairedReturns_cons.mp h).2

theorem of_not_mem (h : '\r' ∉ text) : PairedReturns text := by
  induction text with
  | nil => exact .nil
  | cons c rest ih =>
    rw [List.mem_cons, not_or] at h
    exact .cons (fun hc => absurd hc.symm h.1) (ih h.2)

theorem append (hupper : PairedReturns upper) (hlower : PairedReturns lower) :
    PairedReturns (upper ++ lower) := by
  induction hupper with
  | nil => exact hlower
  | @cons c rest feed _ ih =>
    refine .cons (fun hc => ?_) ih
    have hfeed := feed hc
    cases rest with
    | nil => contradiction
    | cons d rest => exact hfeed

theorem of_append_right (h : PairedReturns (upper ++ lower)) : PairedReturns lower := by
  induction upper with
  | nil => exact h
  | cons c rest ih => exact ih h.tail

theorem of_append_left (h : PairedReturns (upper ++ lower)) (stop : upper.getLast? ≠ some '\r') :
    PairedReturns upper := by
  induction upper with
  | nil => exact .nil
  | cons c rest ih =>
    cases rest with
    | nil =>
      refine .cons (fun hc => ?_) .nil
      rw [hc] at stop
      contradiction
    | cons d rest =>
      rw [List.getLast?_cons_cons] at stop
      exact .cons h.feed (ih h.tail stop)

theorem not_return_last (h : PairedReturns text) : text.getLast? ≠ some '\r' := by
  induction h with
  | nil => simp
  | @cons c rest feed _ ih =>
    cases rest with
    | nil =>
      rw [List.getLast?_singleton, ne_eq, Option.some.injEq]
      intro hc
      simpa using feed hc
    | cons d rest =>
      rw [List.getLast?_cons_cons]
      exact ih

theorem exists_break (h : PairedReturns text) (start : text.head?.all isBreak = true) :
    text = [] ∨ ∃ first rest, WholeBreak first ∧ text = first ++ rest := by
  rcases text with - | ⟨c, rest⟩
  · exact .inl rfl
  · have hc : c = '\n' ∨ c = '\r' := by simpa [isBreak] using start
    rcases hc with rfl | rfl
    · exact .inr ⟨_, rest, .inl rfl, rfl⟩
    · have hfeed := h.feed rfl
      cases rest with
      | nil => contradiction
      | cons d rest =>
        rw [List.head?_cons, Option.some.injEq] at hfeed
        exact .inr ⟨_, rest, .inr rfl, by rw [hfeed]; rfl⟩

theorem exists_first_line (h : PairedReturns text) : ∃ l, ('\n' ∉ l ∧ '\r' ∉ l) ∧
    (text = l ∨ ∃ first rest, WholeBreak first ∧ text = l ++ first ++ rest) := by
  have hsplit : text.takeWhile (!isBreak ·) ++ text.dropWhile (!isBreak ·) = text :=
    List.takeWhile_append_dropWhile
  have hline : ∀ c ∈ text.takeWhile (!isBreak ·), isBreak c = false := by
    intro c member
    simpa using List.mem_takeWhile_imp member
  have hstart := List.head?_dropWhile_not (!isBreak ·) text
  generalize text.takeWhile (!isBreak ·) = l at hsplit hline
  generalize text.dropWhile (!isBreak ·) = rest at hsplit hstart
  rw [← hsplit] at h ⊢
  refine ⟨l, ⟨fun hc => absurd (hline _ hc) (by decide), fun hc => absurd (hline _ hc) (by decide)⟩,
    ?_⟩
  have hbreak : rest.head?.all isBreak = true := by
    cases rest with
    | nil => rfl
    | cons c rest => simpa using hstart
  rcases h.of_append_right.exists_break hbreak with rfl | ⟨first, below, whole, rfl⟩
  · exact .inl (List.append_nil l)
  · exact .inr ⟨first, below, whole, (List.append_assoc _ _ _).symm⟩

end PairedReturns

theorem WholeBreak.exists_gap {first : Text} (h : WholeBreak first) :
    ∃ gap, '\n' ∉ gap ∧ first = gap ++ ['\n'] := by
  rcases h with rfl | rfl
  · exact ⟨[], by decide, rfl⟩
  · exact ⟨['\r'], by decide, rfl⟩

theorem WholeBreak.length_lt {first : Text} (h : WholeBreak first) (upper lower : Text) :
    lower.length < (upper ++ first ++ lower).length := by
  have hbreak : 0 < first.length := by rcases h with rfl | rfl <;> decide
  simp only [List.length_append]
  omega

@[simp] theorem nonBlank_nil : nonBlank [] = [] := rfl

theorem nonBlankLines_nil : nonBlankLines [] = [] := rfl

theorem nonBlank_append (xs ys : List Text) : nonBlank (xs ++ ys) = nonBlank xs ++ nonBlank ys :=
  List.filter_append xs ys

theorem nonBlank_eq_nil {ls : List Text} (blank : ∀ l ∈ ls, isBlank l = true) :
    nonBlank ls = [] := by
  rw [nonBlank, List.filter_eq_nil_iff]
  intro l member
  simp [blank l member]

theorem ended_endLines (ls : List Text) : Ended (endLines ls) := by
  rcases List.eq_nil_or_concat' ls with rfl | ⟨init, l, rfl⟩
  · exact .inl rfl
  · refine .inr ⟨endLines init ++ l, ?_⟩
    rw [endLines_append]
    simp [endLines]

section Ended

variable {upper : Text} (ended : Ended upper) (lower : Text)

include ended

theorem pieces_append : pieces (upper ++ lower) = pieces upper ++ pieces lower := by
  rcases ended with rfl | ⟨above, rfl⟩
  · rfl
  · obtain ⟨ls, last, hls, hlast, rfl⟩ := exists_endLines above
    have hupper : endLines ls ++ last ++ ['\n'] = endLines (ls ++ [last]) := by
      rw [endLines_append]
      simp [endLines]
    have hfree : NoFeed (ls ++ [last]) := noFeed_append.mpr ⟨hls, by simpa [NoFeed] using hlast⟩
    have hpieces := pieces_endLines hfree []
    rw [List.append_nil] at hpieces
    rw [hupper, pieces_endLines hfree, hpieces]
    simp [pieces]

theorem lines_append : lines (upper ++ lower) = lines upper ++ lines lower := by
  rw [lines, pieces_append ended, List.map_append]
  rfl

theorem nonBlankLines_append :
    nonBlankLines (upper ++ lower) = nonBlankLines upper ++ nonBlankLines lower := by
  rw [nonBlankLines, lines_append ended, nonBlank_append]
  rfl

end Ended

theorem dropBreak_append {l last : Text} (stop : l.getLast? ≠ some '\r') (whole : WholeBreak last) :
    dropBreak (l ++ last) = l := by
  rcases whole with rfl | rfl
  · rw [dropBreak, List.reverse_append]
    split
    · next body hrev =>
      have hbody : l.reverse = '\r' :: body := (List.cons.inj hrev).2
      rw [List.getLast?_eq_head?_reverse, hbody] at stop
      contradiction
    · next body _ hrev =>
      have hbody := congrArg List.reverse (List.cons.inj hrev).2
      simpa using hbody.symm
    · next hno => exact absurd rfl (hno l.reverse)
  · rw [dropBreak, List.reverse_append]
    simp

theorem lines_last {l : Text} (free : '\n' ∉ l) (ne : l ≠ []) : lines l = [l] := by
  rw [lines, pieces_last free ne, List.map_singleton, dropBreak_of_not_mem free]

theorem nonBlankLines_last {l : Text} (free : '\n' ∉ l) : nonBlankLines l = nonBlank [l] := by
  by_cases hnil : l = []
  · rw [hnil]
    rfl
  · rw [nonBlankLines, lines_last free hnil]

section Break

variable {upper l first : Text} (whole : WholeBreak first)

include whole

theorem lines_line (free : '\n' ∉ l) (stop : l.getLast? ≠ some '\r') (lower : Text) :
    lines (l ++ first ++ lower) = l :: lines lower := by
  have hline := dropBreak_append stop whole
  rcases whole with rfl | rfl
  · rw [lines, List.append_assoc, List.singleton_append, pieces_line free, List.map_cons, hline]
    rfl
  · have hreturn : l ++ ['\r', '\n'] ++ lower = (l ++ ['\r']) ++ '\n' :: lower := by simp
    have hpiece : l ++ ['\r'] ++ ['\n'] = l ++ ['\r', '\n'] := by simp
    rw [lines, hreturn, pieces_line (by simp [free]), List.map_cons, hpiece, hline]
    rfl

theorem lines_append_break (stop : upper.getLast?.any (!isBreak ·) = true) (lower : Text) :
    lines (upper ++ first ++ lower) = lines upper ++ lines lower := by
  obtain ⟨ls, l, -, hl, rfl⟩ := exists_endLines upper
  have ended := ended_endLines ls
  have hne : l ≠ [] := by
    rintro rfl
    rcases ended with hnil | ⟨above, habove⟩
    · simp [hnil] at stop
    · simp [habove, isBreak] at stop
  have hlast : l.getLast? ≠ some '\r' := by
    intro hreturn
    simp [List.getLast?_append, hreturn, isBreak] at stop
  rw [List.append_assoc, List.append_assoc, lines_append ended, ← List.append_assoc l,
    lines_line whole hl hlast, lines_append ended, lines_last hl hne]
  simp

theorem nonBlankLines_append_break (stop : upper.getLast? ≠ some '\r') (lower : Text) :
    nonBlankLines (upper ++ first ++ lower) = nonBlankLines upper ++ nonBlankLines lower := by
  obtain ⟨ls, l, -, hl, rfl⟩ := exists_endLines upper
  have ended := ended_endLines ls
  have hlast : l.getLast? ≠ some '\r' := by
    intro hreturn
    simp [List.getLast?_append, hreturn] at stop
  have hlines : nonBlankLines (l ++ first ++ lower) = nonBlank [l] ++ nonBlankLines lower := by
    rw [nonBlankLines, lines_line whole hl hlast, ← List.singleton_append, nonBlank_append]
    rfl
  calc
    nonBlankLines (endLines ls ++ l ++ first ++ lower) =
        nonBlankLines (endLines ls) ++ nonBlankLines (l ++ first ++ lower) := by
      rw [← nonBlankLines_append ended]
      simp only [List.append_assoc]
    _ = nonBlankLines (endLines ls ++ l) ++ nonBlankLines lower := by
      rw [hlines, nonBlankLines_append ended, nonBlankLines_last hl, List.append_assoc]

end Break

namespace PairedReturns

variable {upper lower : Text}

theorem nonBlankLines_append (hupper : PairedReturns upper) (hlower : PairedReturns lower)
    (start : lower.head?.all isBreak = true) :
    nonBlankLines (upper ++ lower) = nonBlankLines upper ++ nonBlankLines lower := by
  rcases hlower.exists_break start with rfl | ⟨first, rest, whole, rfl⟩
  · simp [nonBlankLines, nonBlank, lines, pieces]
  · have hrest := nonBlankLines_append_break whole (by simp : ([] : Text).getLast? ≠ _) rest
    rw [← List.append_assoc, nonBlankLines_append_break whole hupper.not_return_last]
    exact congrArg _ hrest.symm

theorem free_lines {text : Text} (h : PairedReturns text) :
    ∀ l ∈ lines text, '\n' ∉ l ∧ '\r' ∉ l := by
  obtain ⟨l, hfree, rfl | ⟨first, rest, whole, rfl⟩⟩ := h.exists_first_line
  · by_cases hnil : text = []
    · simp [hnil, lines, pieces]
    · rw [lines_last hfree.1 hnil, List.forall_mem_singleton]
      exact hfree
  · have hstop : l.getLast? ≠ some '\r' := fun hlast => hfree.2 (List.mem_of_getLast? hlast)
    have hshort := whole.length_lt l rest
    rw [lines_line whole hfree.1 hstop, List.forall_mem_cons]
    exact ⟨hfree, h.of_append_right.free_lines⟩
termination_by text.length

theorem dropWhile_break {text : Text} (h : PairedReturns text) :
    PairedReturns (text.dropWhile isBreak) := by
  rw [← List.takeWhile_append_dropWhile (p := isBreak) (l := text)] at h
  exact h.of_append_right

theorem nonBlankLines_end {text last : Text} (h : PairedReturns text) (whole : WholeBreak last) :
    nonBlankLines (text ++ last) = nonBlankLines text := by
  have hlast := nonBlankLines_append_break whole h.not_return_last []
  rwa [List.append_nil, nonBlankLines_nil, List.append_nil] at hlast

theorem nonBlankLines_dropWhile {text : Text} (h : PairedReturns text) :
    nonBlankLines (text.dropWhile isBreak) = nonBlankLines text := by
  by_cases start : text.head?.all isBreak = true
  · rcases h.exists_break start with rfl | ⟨first, rest, whole, rfl⟩
    · rfl
    · have hrest := nonBlankLines_append_break whole (by simp : ([] : Text).getLast? ≠ _) rest
      have hdrop : (first ++ rest).dropWhile isBreak = rest.dropWhile isBreak := by
        rcases whole with rfl | rfl <;> rfl
      have hshort := whole.length_lt [] rest
      rw [hdrop, h.of_append_right.nonBlankLines_dropWhile]
      exact hrest.symm
  · rcases text with - | ⟨c, rest⟩
    · rfl
    · rw [List.dropWhile_cons_of_neg]
      simpa using start
termination_by text.length

end PairedReturns

theorem nonBlankLines_white {text : Text} (white : ∀ c ∈ text, isWhite c = true) :
    nonBlankLines text = [] := by
  apply nonBlank_eq_nil
  intro l member
  obtain ⟨piece, hpiece, rfl⟩ := List.mem_map.mp member
  rw [isBlank_iff_trim, trim_dropBreak, trim_eq_nil_iff]
  intro c hc
  apply white c
  rw [← flatten_pieces text]
  exact List.mem_flatten.mpr ⟨piece, hpiece, hc⟩

end ImportBlock.Text
