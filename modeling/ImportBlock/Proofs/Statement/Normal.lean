import ImportBlock.Statement.Normal
import ImportBlock.Proofs.Text.Lines

namespace ImportBlock.Statement.Draft

open Text Line

variable {written : Text}

theorem separate_cons (c : Char) (written : Text) : separate (c :: written) =
    if c = '{' ∨ c = ',' ∨ c = '}' then ' ' :: c :: written else c :: written := by
  unfold separate
  split <;> simp_all

theorem write_white {c : Char} (white : isWhite c = true) :
    write ⟨written, none⟩ c = write ⟨written, none⟩ ' ' := by
  have hspace : isWhite ' ' = true := by decide
  simp only [write, white, hspace, if_true]

theorem write_space_space :
    write (write ⟨written, none⟩ ' ') ' ' = write ⟨written, none⟩ ' ' := by
  have hspace : isWhite ' ' = true := by decide
  simp only [write, hspace, if_true]
  by_cases hhead : written.head?.all (· == ' ') = true
  · simp only [hhead, if_true]
  · simp [hhead]

theorem foldl_write_white {run : Text} (ne : run ≠ []) (white : ∀ c ∈ run, isWhite c = true) :
    run.foldl write ⟨written, none⟩ = write ⟨written, none⟩ ' ' := by
  have hstay : ∀ rest : Text, (∀ c ∈ rest, isWhite c = true) →
      rest.foldl write (write ⟨written, none⟩ ' ') = write ⟨written, none⟩ ' ' := by
    intro rest hrest
    have hquote : ∃ spaced, write ⟨written, none⟩ ' ' = ⟨spaced, none⟩ := ⟨_, rfl⟩
    obtain ⟨spaced, hspaced⟩ := hquote
    induction rest with
    | nil => rfl
    | cons c rest ih =>
      rw [List.forall_mem_cons] at hrest
      have hstep : write (write ⟨written, none⟩ ' ') c = write ⟨written, none⟩ ' ' := by
        rw [hspaced, write_white hrest.1, ← hspaced, write_space_space]
      rw [List.foldl_cons, hstep, ih hrest.2]
  obtain ⟨c, rest, rfl⟩ := List.exists_cons_of_ne_nil ne
  rw [List.forall_mem_cons] at white
  rw [List.foldl_cons, write_white white.1, hstay rest white.2]

/-- Behind these a member begins, with or without a space. -/
def IsOpener (c : Char) : Prop := c = '{' ∨ c = ','

def IsCloser (c : Char) : Prop := c = '}' ∨ c = ','

/-- A text between two commas that is one member of the braces. -/
structure IsMember (part : Text) : Prop where
  ne : trim part ≠ []
  plain : ∀ c ∈ part, isQuote c = false ∧ c ≠ ',' ∧ c ≠ '}'

theorem foldl_white_closer {close : Char} (closer : IsCloser close) (run : Text)
    (white : ∀ c ∈ run, isWhite c = true) :
    write (run.foldl write ⟨written, none⟩) close = write ⟨written, none⟩ close := by
  by_cases hnil : run = []
  · rw [hnil]
    rfl
  · rw [foldl_write_white hnil white]
    have hdrop : ∃ spaced, write ⟨written, none⟩ ' ' = ⟨spaced, none⟩ ∧
        dropSpaces spaced = dropSpaces written := by
      refine ⟨_, rfl, ?_⟩
      split
      · rfl
      · simp [dropSpaces]
    obtain ⟨spaced, hspaced, hdrop⟩ := hdrop
    rw [hspaced]
    rcases closer with rfl | rfl <;> simp [write, hdrop, isWhite]

theorem foldl_white_member {opening c : Char} (opener : IsOpener opening)
    (stays : isWhite c = false) (comma : c ≠ ',') (brace : c ≠ '}') {run : Text}
    (white : ∀ d ∈ run, isWhite d = true) :
    write (run.foldl write ⟨opening :: written, none⟩) c = write ⟨opening :: written, none⟩ c := by
  by_cases hnil : run = []
  · rw [hnil]
    rfl
  · rw [foldl_write_white hnil white]
    have hspaced : write ⟨opening :: written, none⟩ ' ' = ⟨' ' :: opening :: written, none⟩ := by
      rcases opener with rfl | rfl <;> simp [write, isWhite]
    rw [hspaced]
    rcases opener with rfl | rfl <;> simp [write, stays, comma, brace, separate]

theorem quote_foldl_write (written : Text) {text : Text} (quotes : ∀ c ∈ text, isQuote c = false) :
    (text.foldl write ⟨written, none⟩).quote = none := by
  induction text generalizing written with
  | nil => rfl
  | cons c rest ih =>
    rw [List.forall_mem_cons] at quotes
    have hstep : ∃ next, write ⟨written, none⟩ c = ⟨next, none⟩ := by
      simp only [write, quoteAfter, quotes.1]
      split
      · exact ⟨_, rfl⟩
      · split
        · exact ⟨_, rfl⟩
        · split <;> exact ⟨_, rfl⟩
    obtain ⟨next, hnext⟩ := hstep
    rw [List.foldl_cons, hnext, ih _ quotes.2]

theorem foldl_member (written : Text) {part : Text} (member : IsMember part) {opening close : Char}
    (opener : IsOpener opening) (closer : IsCloser close) :
    (part ++ [close]).foldl write ⟨opening :: written, none⟩ =
      (trim part ++ [close]).foldl write ⟨opening :: written, none⟩ := by
  obtain ⟨above, below, hpart, habove, hbelow⟩ := exists_eq_trim part
  obtain ⟨⟨c, rest, htrim, hc⟩, -⟩ := trim_ends member.ne
  have hplain : ∀ d ∈ trim part, isQuote d = false ∧ d ≠ ',' ∧ d ≠ '}' := by
    intro d hd
    apply member.plain d
    rw [hpart]
    exact List.mem_append_left _ (List.mem_append_right _ hd)
  obtain ⟨-, hcomma, hbrace⟩ := hplain c (by simp [htrim])
  have hstart : (above ++ trim part).foldl write ⟨opening :: written, none⟩ =
      (trim part).foldl write ⟨opening :: written, none⟩ := by
    rw [htrim, List.foldl_append, List.foldl_cons, List.foldl_cons,
      foldl_white_member opener hc hcomma hbrace habove]
  have hquote := quote_foldl_write (opening :: written) fun d hd => (hplain d hd).1
  generalize hdraft : (trim part).foldl write ⟨opening :: written, none⟩ = draft at hquote hstart
  obtain ⟨inner, quote⟩ := draft
  dsimp only at hquote
  subst hquote
  conv_lhs => rw [hpart]
  rw [List.foldl_append, List.foldl_append, hstart, List.foldl_append, hdraft]
  exact foldl_white_closer closer below hbelow

theorem foldl_member_comma {part : Text} (member : IsMember part) (draft : Text) :
    ∃ inner, (part ++ [',']).foldl write ⟨draft, none⟩ = ⟨',' :: inner, none⟩ := by
  have hquote := quote_foldl_write draft fun d hd => (member.plain d hd).1
  rw [List.foldl_append]
  generalize part.foldl write ⟨draft, none⟩ = state at hquote
  obtain ⟨inner, quote⟩ := state
  dsimp only at hquote
  subst hquote
  exact ⟨dropSpaces inner, by simp [write, isWhite]⟩

theorem foldl_trailing_comma (written : Text) {part : Text} (member : IsMember part) {blank : Text}
    (white : ∀ c ∈ blank, isWhite c = true) {opening : Char} (opener : IsOpener opening) :
    (part ++ ',' :: blank ++ ['}']).foldl write ⟨opening :: written, none⟩ =
      (part ++ ['}']).foldl write ⟨opening :: written, none⟩ := by
  have hcut : part ++ ',' :: blank ++ ['}'] = (part ++ [',']) ++ (blank ++ ['}']) := by simp
  rw [hcut, List.foldl_append, foldl_member written member opener (.inr rfl),
    foldl_member written member opener (.inl rfl)]
  obtain ⟨-, init, x, htrim, hx⟩ := trim_ends member.ne
  have hplain : ∀ d ∈ init ++ [x], isQuote d = false ∧ d ≠ ',' ∧ d ≠ '}' := by
    intro d hd
    obtain ⟨above, below, hpart, -⟩ := exists_eq_trim part
    apply member.plain d
    rw [hpart, htrim]
    exact List.mem_append_left _ (List.mem_append_right _ hd)
  obtain ⟨hxquote, hxcomma, hxbrace⟩ := hplain x (by simp)
  have hxspace : x ≠ ' ' := by
    rintro rfl
    exact absurd hx (by decide)
  -- What is written last is no space, so that the comma drops none.
  have hlast : ∃ inner, (init ++ [x]).foldl write ⟨opening :: written, none⟩ =
      ⟨x :: inner, none⟩ := by
    have hquote : (init.foldl write ⟨opening :: written, none⟩).quote = none :=
      quote_foldl_write _ fun d hd => (hplain d (List.mem_append_left _ hd)).1
    rw [List.foldl_append]
    generalize init.foldl write ⟨opening :: written, none⟩ = state at hquote
    obtain ⟨inner, quote⟩ := state
    dsimp only at hquote
    subst hquote
    exact ⟨separate inner, by simp [write, hx, hxcomma, hxbrace, quoteAfter, hxquote]⟩
  obtain ⟨inner, hinner⟩ := hlast
  have hcomma : write ⟨x :: inner, none⟩ ',' = ⟨',' :: x :: inner, none⟩ := by
    simp [write, isWhite, dropSpaces, hxspace]
  have hblank : write (blank.foldl write ⟨',' :: x :: inner, none⟩) '}' =
      write ⟨',' :: x :: inner, none⟩ '}' := foldl_white_closer (.inl rfl) blank white
  have hmember : ∀ c, (trim part ++ [c]).foldl write ⟨opening :: written, none⟩ =
      write ⟨x :: inner, none⟩ c := by
    intro c
    rw [htrim, List.foldl_append, hinner]
    rfl
  rw [hmember, hmember, hcomma, List.foldl_append, List.foldl_cons, List.foldl_nil, hblank]
  have hdrop : dropComma (x :: inner) = x :: inner := by
    rw [dropComma]
    rintro rest heq
    exact hxcomma (List.cons.inj heq).1
  have hspaces : ∀ c rest, c ≠ ' ' → dropSpaces (c :: rest) = c :: rest := by
    intro c rest hc
    simp [dropSpaces, hc]
  simp [write, isWhite, hspaces, hxspace, hdrop, dropComma.eq_1]

theorem foldl_behind {draft next : Draft} {upper : Text} (h : upper.foldl write draft = next)
    (lower tail : Text) :
    (upper ++ lower ++ tail).foldl write draft = (lower ++ tail).foldl write next := by
  rw [List.append_assoc, List.foldl_append, h]

section Members

variable {parts : List Text} {opening : Char}

/-- Members have one spelling, whatever white space stands around them. -/
theorem foldl_members (written : Text) (members : ∀ part ∈ parts, IsMember part) (ne : parts ≠ [])
    (opener : IsOpener opening) :
    (joinWith [','] parts ++ ['}']).foldl write ⟨opening :: written, none⟩ =
      (joinWith [','] (parts.map trim) ++ ['}']).foldl write ⟨opening :: written, none⟩ := by
  induction parts generalizing opening written with
  | nil => contradiction
  | cons part parts ih =>
    rw [List.forall_mem_cons] at members
    by_cases hnil : parts = []
    · subst hnil
      exact foldl_member written members.1 opener (.inl rfl)
    · obtain ⟨inner, hinner⟩ := foldl_member_comma members.1 (opening :: written)
      have hsame := foldl_member written members.1 opener (.inr rfl : IsCloser ',')
      rw [List.map_cons, joinWith_cons hnil, joinWith_cons (by simpa using hnil),
        foldl_behind hinner, foldl_behind (hsame ▸ hinner)]
      exact ih _ members.2 hnil (.inr rfl)

theorem foldl_members_comma (written : Text) (members : ∀ part ∈ parts, IsMember part)
    (ne : parts ≠ []) {blank : Text} (white : ∀ c ∈ blank, isWhite c = true)
    (opener : IsOpener opening) :
    (joinWith [','] (parts ++ [blank]) ++ ['}']).foldl write ⟨opening :: written, none⟩ =
      (joinWith [','] parts ++ ['}']).foldl write ⟨opening :: written, none⟩ := by
  induction parts generalizing opening written with
  | nil => contradiction
  | cons part parts ih =>
    rw [List.forall_mem_cons] at members
    by_cases hnil : parts = []
    · subst hnil
      have hcomma := foldl_trailing_comma written members.1 white opener
      simpa [joinWith] using hcomma
    · obtain ⟨inner, hinner⟩ := foldl_member_comma members.1 (opening :: written)
      rw [List.cons_append, joinWith_cons (by simp), joinWith_cons hnil, foldl_behind hinner,
        foldl_behind hinner]
      exact ih _ members.2 hnil (.inr rfl)

end Members
end ImportBlock.Statement.Draft
