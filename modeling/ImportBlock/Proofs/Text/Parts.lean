import ImportBlock.Proofs.Text.Lines

namespace ImportBlock.Text

theorem stripStart_append (start rest : Text) : stripStart start (start ++ rest) = some rest := by
  induction start with
  | nil => rfl
  | cons c start ih => rwa [List.cons_append, stripStart, if_pos rfl]

theorem stripStart_append_of_not_mem {start : Text} {c : Char} (h : c ∉ start)
    (upper rest : Text) :
    stripStart start (upper ++ c :: rest) = (stripStart start upper).map (· ++ c :: rest) := by
  induction start generalizing upper with
  | nil => rfl
  | cons d start ih =>
    rw [List.mem_cons, not_or] at h
    cases upper with
    | nil => simp [stripStart, Ne.symm h.1]
    | cons e upper =>
      rw [List.cons_append, stripStart, stripStart]
      split
      · exact ih h.2 upper
      · rfl

theorem splitFirst_isSome_of_append {pattern : Text} (ne : pattern ≠ []) (before after : Text) :
    (splitFirst pattern (before ++ pattern ++ after)).isSome = true := by
  obtain ⟨c, more, hpattern⟩ := List.exists_cons_of_ne_nil ne
  induction before with
  | nil =>
    have hstrip := stripStart_append pattern after
    rw [hpattern, List.cons_append] at hstrip
    rw [hpattern, List.nil_append, List.cons_append, splitFirst, hstrip]
    rfl
  | cons d before ih =>
    rw [List.cons_append, List.cons_append, splitFirst]
    split
    · rfl
    · rwa [Option.isSome_map]

theorem includes_eq_false_iff {pattern text : Text} :
    includes pattern text = false ↔ splitFirst pattern text = none := by
  rw [includes, Option.isSome_eq_false_iff, Option.isNone_iff_eq_none]

theorem includes_iff {pattern text : Text} (ne : pattern ≠ []) :
    includes pattern text = true ↔ ∃ before after, text = before ++ pattern ++ after := by
  rw [includes]
  constructor
  · intro h
    obtain ⟨sides, found⟩ := Option.isSome_iff_exists.mp h
    exact ⟨sides.1, sides.2, eq_append_of_splitFirst found⟩
  · rintro ⟨before, after, rfl⟩
    exact splitFirst_isSome_of_append ne before after

theorem not_includes_of_infix {pattern part text : Text} (ne : pattern ≠ [])
    (within : part <:+: text) (h : includes pattern text = false) :
    includes pattern part = false := by
  rw [← Bool.not_eq_true] at h ⊢
  intro hpart
  obtain ⟨before, after, rfl⟩ := (includes_iff ne).mp hpart
  obtain ⟨left, right, rfl⟩ := within
  apply h
  exact (includes_iff ne).mpr ⟨left ++ before, after ++ right, by simp only [List.append_assoc]⟩

theorem not_includes_of_count {pattern text : Text} {c : Char}
    (h : text.count c < pattern.count c) : includes pattern text = false := by
  have ne : pattern ≠ [] := by
    rintro rfl
    simp at h
  rw [← Bool.not_eq_true, includes_iff ne]
  rintro ⟨before, after, rfl⟩
  rw [List.count_append, List.count_append] at h
  omega

theorem includes_cons (pattern : Text) (c : Char) (rest : Text) :
    includes pattern (c :: rest) =
      ((stripStart pattern (c :: rest)).isSome || includes pattern rest) := by
  rw [includes, includes, splitFirst]
  split
  · next hstrip => rw [hstrip]; rfl
  · next hstrip => rw [hstrip, Option.isSome_map]; rfl

theorem not_includes_of_splitFirst {pattern text : Text} {sides : Text × Text}
    (h : splitFirst pattern text = some sides) : includes pattern sides.1 = false := by
  induction text generalizing sides with
  | nil => simp [splitFirst] at h
  | cons c text ih =>
    rw [splitFirst] at h
    split at h
    · cases h
      rfl
    · next hstrip =>
      obtain ⟨inner, found, rfl⟩ := Option.map_eq_some_iff.mp h
      rw [includes_cons, ih found, Bool.or_false, Option.isSome_eq_false_iff,
        Option.isNone_iff_eq_none, Option.eq_none_iff_forall_ne_some]
      intro after hafter
      have hcut := eq_append_of_stripStart hafter
      rw [eq_append_of_splitFirst found, List.append_assoc, ← List.cons_append, hcut,
        List.append_assoc, stripStart_append] at hstrip
      contradiction

theorem includes_append {pattern : Text} {c : Char} (ne : pattern ≠ []) (h : c ∉ pattern)
    (upper lower : Text) :
    includes pattern (upper ++ c :: lower) =
      (includes pattern upper || includes pattern lower) := by
  have hstrip := fun text : Text => stripStart_append_of_not_mem h text lower
  induction upper with
  | nil =>
    obtain ⟨d, more, rfl⟩ := List.exists_cons_of_ne_nil ne
    have hnone := hstrip []
    rw [List.nil_append] at hnone ⊢
    rw [includes_cons, hnone]
    rfl
  | cons d upper ih =>
    have hsome := hstrip (d :: upper)
    rw [List.cons_append] at hsome ⊢
    rw [includes_cons, includes_cons, hsome, ih, Option.isSome_map, Bool.or_assoc]

section White

theorem not_mem_of_white {c : Char} {marks : Text} (h : isWhite c = true)
    (solid : marks.all (!isWhite ·) = true) : c ∉ marks := by
  intro member
  have hc := List.all_eq_true.mp solid c member
  rw [h] at hc
  contradiction

variable {white marks : Text} (blank : ∀ c ∈ white, isWhite c = true)

include blank

theorem startsWith_append_white (solid : marks.all (!isWhite ·) = true) (text : Text) :
    startsWith marks (text ++ white) = startsWith marks text := by
  cases white with
  | nil => rw [List.append_nil]
  | cons c white =>
    have hc := not_mem_of_white (List.forall_mem_cons.mp blank).1 solid
    rw [startsWith, startsWith, stripStart_append_of_not_mem hc, Option.isSome_map]

theorem includes_append_white (ne : marks ≠ []) (solid : marks.all (!isWhite ·) = true)
    (text : Text) : includes marks (text ++ white) = includes marks text := by
  induction white generalizing text with
  | nil => rw [List.append_nil]
  | cons c white ih =>
    obtain ⟨hc, hwhite⟩ := List.forall_mem_cons.mp blank
    have hnone : includes marks white = false := ih hwhite []
    rw [includes_append ne (not_mem_of_white hc solid), hnone, Bool.or_false]

end White

theorem eq_append_of_splitLast {pattern text : Text} {sides : Text × Text}
    (h : splitLast pattern text = some sides) : text = sides.1 ++ pattern ++ sides.2 := by
  induction text generalizing sides with
  | nil => simp [splitLast] at h
  | cons c text ih =>
    rw [splitLast] at h
    split at h
    · next inner found => cases h; simpa using ih found
    · obtain ⟨after, found, rfl⟩ := Option.map_eq_some_iff.mp h
      simpa using eq_append_of_stripStart found

theorem splitLast_of_not_includes {pattern text : Text} (ne : pattern ≠ [])
    (h : includes pattern text = false) : splitLast pattern text = none := by
  rw [Option.eq_none_iff_forall_ne_some]
  intro sides found
  rw [(includes_iff ne).mpr ⟨_, _, eq_append_of_splitLast found⟩] at h
  contradiction

theorem splitLast_append_of_some {pattern lower : Text} {sides : Text × Text}
    (found : splitLast pattern lower = some sides) (upper : Text) :
    splitLast pattern (upper ++ lower) = some (upper ++ sides.1, sides.2) := by
  induction upper with
  | nil => exact found
  | cons c upper ih => rw [List.cons_append, splitLast, ih]; rfl

/-- An occurrence is the last one if none begins inside it or behind it. -/
theorem splitLast_append {c : Char} {pattern lower : Text}
    (h : includes (c :: pattern) (pattern ++ lower) = false) (upper : Text) :
    splitLast (c :: pattern) (upper ++ c :: (pattern ++ lower)) = some (upper, lower) := by
  have hstrip : stripStart (c :: pattern) (c :: (pattern ++ lower)) = some lower :=
    stripStart_append (c :: pattern) lower
  have hlast : splitLast (c :: pattern) (c :: (pattern ++ lower)) = some ([], lower) := by
    rw [splitLast, splitLast_of_not_includes (by simp) h, hstrip]
    rfl
  simpa using splitLast_append_of_some hlast upper

theorem not_includes_of_splitLast {pattern text : Text} (ne : pattern ≠ [])
    (h : splitLast pattern text = none) : includes pattern text = false := by
  rw [← Bool.not_eq_true, includes_iff ne]
  rintro ⟨before, after, rfl⟩
  have hlast : (splitLast pattern (pattern ++ after)).isSome = true := by
    obtain ⟨c, more, rfl⟩ := List.exists_cons_of_ne_nil ne
    have hstrip := stripStart_append (c :: more) after
    rw [List.cons_append] at hstrip ⊢
    rw [splitLast]
    split
    · rfl
    · rw [hstrip]
      rfl
  obtain ⟨sides, found⟩ := Option.isSome_iff_exists.mp hlast
  rw [List.append_assoc, splitLast_append_of_some found] at h
  contradiction

theorem splitFirst_append {c : Char} {before : Text} (h : c ∉ before) (after : Text) :
    splitFirst [c] (before ++ c :: after) = some (before, after) := by
  induction before with
  | nil => simp [splitFirst, stripStart]
  | cons d before ih =>
    rw [List.mem_cons, not_or] at h
    simp [splitFirst, stripStart, if_neg h.1, ih h.2]

theorem splitFirst_of_not_mem {c : Char} {text : Text} (h : c ∉ text) :
    splitFirst [c] text = none := by
  cases hsides : splitFirst [c] text with
  | none => rfl
  | some sides => exact absurd (by simp [eq_append_of_splitFirst hsides]) h

theorem splitBy_eq_splitOnP (p : Char → Bool) (text : Text) : splitBy p text = text.splitOnP p := by
  induction text with
  | nil => rfl
  | cons c rest ih =>
    rw [splitBy, List.splitOnP_cons_eq_if_modifyHead, ih]
    split
    · rfl
    · cases hparts : rest.splitOnP p with
      | nil => exact absurd hparts (List.splitOnP_ne_nil p rest)
      | cons part parts => rfl

theorem items_append (separator : Char) (upper lower : Text) :
    items separator (upper ++ separator :: lower) =
      items separator upper ++ items separator lower := by
  have hsplit : (upper ++ separator :: lower).splitOnP (· == separator) =
      upper.splitOnP (· == separator) ++ lower.splitOnP (· == separator) :=
    List.splitOnP_append_cons upper lower (beq_self_eq_true separator)
  simp only [items, splitOn, splitBy_eq_splitOnP, hsplit, List.map_append, List.filter_append]

theorem items_of_not_mem {separator : Char} {text : Text} (h : separator ∉ text) :
    items separator text = [trim text].filter (!·.isEmpty) := by
  have hsplit : text.splitOnP (· == separator) = [text] := by
    apply List.splitOnP_eq_singleton
    intro c hc
    rw [beq_eq_false_iff_ne]
    rintro rfl
    exact h hc
  rw [items, splitOn, splitBy_eq_splitOnP, hsplit, List.map_singleton]

theorem items_of_solid {separator : Char} {text : Text} (solid : Solid text)
    (free : separator ∉ text) : items separator text = [text] := by
  rw [items_of_not_mem free, solid.trim_eq,
    List.filter_cons_of_pos (by simpa using solid.ne_nil), List.filter_nil]

theorem items_space {separator : Char} (ne : separator ≠ ' ') (text : Text) :
    items separator (' ' :: text) = items separator text := by
  have hspace : (' ' == separator) = false := by simpa using ne.symm
  rw [items, items, splitOn, splitOn, splitBy, if_neg (by simp [hspace])]
  cases hparts : splitBy (· == separator) text with
  | nil => rfl
  | cons part parts =>
    have htrim : trim (' ' :: part) = trim part := trim_white_append white_space part
    simp only [List.map_cons, htrim]

theorem items_solid {separator : Char} {above text below : Text} (solid : Solid text)
    (free : separator ∉ text) (ne : separator ≠ ' ') (habove : ∀ c ∈ above, c = ' ')
    (hbelow : ∀ c ∈ below, c = ' ') : items separator (above ++ text ++ below) = [text] := by
  have hspaces : ∀ spaces : Text, (∀ c ∈ spaces, c = ' ') →
      separator ∉ spaces ∧ ∀ c ∈ spaces, isWhite c = true := by
    intro spaces h
    exact ⟨fun hc => ne (h _ hc), fun c hc => by rw [h c hc]; decide⟩
  obtain ⟨hfreeAbove, hwhiteAbove⟩ := hspaces above habove
  obtain ⟨hfreeBelow, hwhiteBelow⟩ := hspaces below hbelow
  rw [items_of_not_mem (by simp [hfreeAbove, hfreeBelow, free]), trim_append_white hwhiteBelow,
    trim_white_append hwhiteAbove, solid.trim_eq,
    List.filter_cons_of_pos (by simpa using solid.ne_nil), List.filter_nil]

theorem joinWith_eq_intercalate (separator : Text) (parts : List Text) :
    joinWith separator parts = separator.intercalate parts := by
  induction parts with
  | nil => rfl
  | cons part parts ih =>
    by_cases hnil : parts = []
    · rw [hnil, List.intercalate_singleton]
      rfl
    · rw [joinWith_cons hnil, List.intercalate_cons_of_ne_nil hnil, ih]

theorem joinWith_splitOn (c : Char) (text : Text) : joinWith [c] (splitOn c text) = text := by
  rw [joinWith_eq_intercalate, splitOn, splitBy_eq_splitOnP, ← List.splitOn_eq_splitOnP,
    List.intercalate_splitOn]

theorem not_mem_of_mem_splitOn {c : Char} {part text : Text} (member : part ∈ splitOn c text) :
    c ∉ part := by
  induction text generalizing part with
  | nil => simp_all [splitOn, splitBy]
  | cons d rest ih =>
    simp only [splitOn] at ih member
    rw [splitBy] at member
    split at member
    · rcases List.mem_cons.mp member with rfl | hmem
      · simp
      · exact ih hmem
    · next hd =>
      have hcd : c ≠ d := by
        rintro rfl
        simp at hd
      split at member
      · rw [List.mem_singleton.mp member]
        simpa using hcd
      · next first parts hparts =>
        rw [hparts] at ih
        rcases List.mem_cons.mp member with rfl | hmem
        · simpa [hcd] using ih List.mem_cons_self
        · exact ih (List.mem_cons_of_mem first hmem)

theorem mem_of_mem_splitOn {c d : Char} {part text : Text} (member : part ∈ splitOn c text)
    (h : d ∈ part) : d ∈ text := by
  rw [← joinWith_splitOn c text]
  exact mem_joinWith [c] member h

end ImportBlock.Text
