import ImportBlock.Proofs.Line.Zone
import ImportBlock.Proofs.Statement.Normal

namespace ImportBlock.Statement

open Text Line

def Draft.ofText (text : Text) : Draft := text.foldl write ⟨[], none⟩

/-- No literal is open behind the text. -/
def Outside (text : Text) : Prop := (Draft.ofText text).quote = none

instance : DecidablePred Outside :=
  fun text => inferInstanceAs (Decidable ((Draft.ofText text).quote = none))

/-- The literals that have been closed, and the one that is open with what it holds so far. -/
structure Literals where
  closed : List Text
  opened : Option (Quote × Text)

namespace Literals

def read (literals : Literals) (c : Char) : Literals :=
  match literals.opened with
  | none =>
    { literals with opened := if quote : isQuote c = true then some (⟨c, quote⟩, []) else none }
  | some (quote, body) =>
    if c = quote then ⟨literals.closed ++ [quote.val :: (body ++ [c])], none⟩
    else { literals with opened := some (quote, body ++ [c]) }

def ofText (text : Text) : Literals := text.foldl read ⟨[], none⟩

end Literals

/-- The literals of a text that are closed, quotes included. -/
def closedLiterals (text : Text) : List Text := (Literals.ofText text).closed

theorem isQuote_of_white {c : Char} (white : isWhite c = true) : isQuote c = false := by
  by_contra hquote
  simp only [isQuote, Bool.not_eq_false, Bool.or_eq_true, beq_iff_eq] at hquote
  rcases hquote with (rfl | rfl) | rfl <;> exact absurd white (by decide)

namespace Draft

theorem dropSpaces_cons {c : Char} (ne : c ≠ ' ') (written : Text) :
    dropSpaces (c :: written) = c :: written :=
  List.dropWhile_cons_of_neg (by simpa using ne)

theorem ofText_append (upper lower : Text) :
    ofText (upper ++ lower) = lower.foldl write (ofText upper) := List.foldl_append

theorem ofText_concat (text : Text) (c : Char) : ofText (text ++ [c]) = (ofText text).write c := by
  rw [ofText_append, List.foldl_cons, List.foldl_nil]

theorem quote_write (draft : Draft) (c : Char) :
    (draft.write c).quote = quoteAfter draft.quote c := by
  rw [write]
  split
  · next hquote => rw [hquote]
  · next hquote =>
    have hplain : isQuote c = false → none = quoteAfter draft.quote c := fun plain => by
      simp [hquote, quoteAfter, plain]
    split
    · next hwhite => exact hplain (isQuote_of_white hwhite)
    · split
      · next hcomma => exact hplain (by rw [hcomma]; decide)
      · split
        · next hbrace => exact hplain (by rw [hbrace]; decide)
        · rw [hquote]

end Draft

theorem Outside.exists_written {text : Text} (outside : Outside text) :
    ∃ written, Draft.ofText text = ⟨written, none⟩ := by
  rw [Outside] at outside
  exact ⟨(Draft.ofText text).written, by rw [← outside]⟩

theorem normalize_append {upper lower : Text} :
    normalize (upper ++ lower) = (lower.foldl Draft.write (Draft.ofText upper)).finish := by
  rw [normalize, ← Draft.ofText, Draft.ofText_append]

section Literals

namespace Literals

theorem ofText_concat (text : Text) (c : Char) : ofText (text ++ [c]) = (ofText text).read c := by
  rw [ofText, List.foldl_append, List.foldl_cons, List.foldl_nil]
  rfl

variable {literals : Literals} {c : Char}

theorem read_plain (outside : literals.opened = none) (plain : isQuote c = false) :
    literals.read c = literals := by
  obtain ⟨closed, opened⟩ := literals
  dsimp only at outside
  subst outside
  simp [read, plain]

theorem closed_read (plain : isQuote c = false) : (literals.read c).closed = literals.closed := by
  rw [read]
  split
  · rfl
  · next quote body hopened =>
    rw [if_neg]
    rintro rfl
    rw [quote.2] at plain
    contradiction

theorem opened_read_eq_none_iff (plain : isQuote c = false) :
    (literals.read c).opened = none ↔ literals.opened = none := by
  constructor
  · intro outside
    rw [read] at outside
    split at outside
    · next hnone => exact hnone
    · next quote body hopened =>
      rw [if_neg] at outside
      · contradiction
      · rintro rfl
        rw [quote.2] at plain
        contradiction
  · intro outside
    rw [read_plain outside plain, outside]

theorem map_opened_ofText (text : Text) :
    (ofText text).opened.map (·.1.val) = (Draft.ofText text).quote := by
  induction text using List.reverseRecOn with
  | nil => rfl
  | append_singleton text c ih =>
    rw [ofText_concat, Draft.ofText_concat, Draft.quote_write, ← ih, read]
    cases (ofText text).opened with
    | none =>
      by_cases hquote : isQuote c = true <;> simp [quoteAfter, hquote]
    | some literal =>
      by_cases hquote : c = literal.1.val <;> simp [quoteAfter, hquote]

theorem outside_iff (text : Text) : Outside text ↔ (ofText text).opened = none := by
  rw [Outside, ← map_opened_ofText, Option.map_eq_none_iff]

theorem outside_concat (text : Text) (plain : isQuote c = false) :
    Outside (text ++ [c]) ↔ Outside text := by
  rw [outside_iff, outside_iff, ofText_concat, opened_read_eq_none_iff plain]

theorem ofText_plain {text : Text} (outside : (ofText (text ++ [c])).opened = none)
    (plain : isQuote c = false) : ofText text = ofText (text ++ [c]) := by
  rw [ofText_concat, opened_read_eq_none_iff plain] at outside
  rw [ofText_concat, read_plain outside plain]

theorem ofText_dropSpaces {written : Text} (outside : (ofText written.reverse).opened = none) :
    ofText (Draft.dropSpaces written).reverse = ofText written.reverse := by
  induction written with
  | nil => rfl
  | cons c rest ih =>
    by_cases hspace : c = ' '
    · subst hspace
      have hdrop : Draft.dropSpaces (' ' :: rest) = Draft.dropSpaces rest := rfl
      rw [List.reverse_cons] at outside ⊢
      have hsame := ofText_plain outside (by decide)
      rw [hdrop, ih (by rw [hsame, outside]), hsame]
    · rw [Draft.dropSpaces_cons hspace]

theorem ofText_dropComma {written : Text} (outside : (ofText written.reverse).opened = none) :
    ofText (Draft.dropComma written).reverse = ofText written.reverse := by
  unfold Draft.dropComma
  split
  · rw [List.reverse_cons] at outside ⊢
    exact ofText_plain outside (by decide)
  · rfl

theorem ofText_separate {written : Text} (outside : (ofText written.reverse).opened = none) :
    ofText (Draft.separate written).reverse = ofText written.reverse := by
  cases written with
  | nil => rfl
  | cons c rest =>
    rw [Draft.separate_cons]
    split
    · rw [List.reverse_cons, ofText_concat, read_plain outside (by decide)]
    · rfl

/-- What is written holds the literals of what is read. -/
theorem ofText_write {draft : Draft} (c : Char)
    (same : (ofText draft.written.reverse).opened.map (·.1.val) = draft.quote) :
    ofText (draft.write c).written.reverse = (ofText draft.written.reverse).read c := by
  obtain ⟨written, quote⟩ := draft
  cases quote with
  | some quote => exact (congrArg ofText List.reverse_cons).trans (ofText_concat _ c)
  | none =>
    have outside : (ofText written.reverse).opened = none := Option.map_eq_none_iff.mp same
    have hspaces := ofText_dropSpaces outside
    have hplain : ∀ d, isQuote d = false →
        (ofText written.reverse).read d = ofText written.reverse :=
      fun d plain => read_plain outside plain
    simp only [Draft.write]
    split
    · next hwhite =>
      rw [hplain c (isQuote_of_white hwhite)]
      split
      · rfl
      · rw [List.reverse_cons, ofText_concat, hplain ' ' (by decide)]
    · split
      · next hcomma => rw [List.reverse_cons, ofText_concat, hspaces, hcomma]
      · split
        · next hbrace =>
          rw [← hspaces] at outside
          rw [List.reverse_cons, List.reverse_cons, ofText_concat, ofText_concat,
            ofText_dropComma outside, hspaces, hplain ' ' (by decide), hbrace]
        · rw [List.reverse_cons, ofText_concat, ofText_separate outside]

theorem ofText_written (text : Text) :
    ofText (Draft.ofText text).written.reverse = ofText text := by
  induction text using List.reverseRecOn with
  | nil => rfl
  | append_singleton text c ih =>
    have hquote := map_opened_ofText text
    rw [← ih] at hquote
    rw [Draft.ofText_concat, ofText_write c hquote, ih, ofText_concat]

end Literals

theorem outside_of_plain {upper lower : Text} (plain : ∀ c ∈ lower, isQuote c = false)
    (outside : Outside (upper ++ lower)) : Outside upper := by
  induction lower using List.reverseRecOn with
  | nil => rwa [List.append_nil] at outside
  | append_singleton lower c ih =>
    obtain ⟨hlower, hc⟩ := List.forall_mem_append.mp plain
    rw [← List.append_assoc, Literals.outside_concat _ (hc c (List.mem_singleton_self c))]
      at outside
    exact ih hlower outside

theorem closedLiterals_dropSpaces (written : Text) :
    closedLiterals (Draft.dropSpaces written).reverse = closedLiterals written.reverse := by
  induction written with
  | nil => rfl
  | cons c rest ih =>
    by_cases hspace : c = ' '
    · subst hspace
      have hdrop : Draft.dropSpaces (' ' :: rest) = Draft.dropSpaces rest := rfl
      rw [hdrop, ih, closedLiterals, closedLiterals, List.reverse_cons, Literals.ofText_concat,
        Literals.closed_read (by decide)]
    · rw [Draft.dropSpaces_cons hspace]

theorem closedLiterals_normalize (text : Text) :
    closedLiterals (normalize text) = closedLiterals text := by
  rw [normalize, ← Draft.ofText, Draft.finish, closedLiterals_dropSpaces, closedLiterals,
    Literals.ofText_written, closedLiterals]

end Literals

theorem Draft.head?_dropSpaces {text : Text} (outside : Outside text) :
    (Draft.dropSpaces (Draft.ofText text).written).head? = (trimEnd text).getLast? := by
  induction text using List.reverseRecOn with
  | nil => rfl
  | append_singleton text c ih =>
    rw [ofText_concat]
    by_cases hwhite : isWhite c = true
    · rw [Literals.outside_concat text (isQuote_of_white hwhite)] at outside
      obtain ⟨written, hwritten⟩ := outside.exists_written
      have hsame : dropSpaces (write ⟨written, none⟩ c).written = dropSpaces written := by
        simp only [write, hwhite, if_true]
        split <;> rfl
      have htrim : trimEnd (text ++ [c]) = trimEnd text :=
        dropEndWhile_append_of_all (List.forall_mem_singleton.mpr hwhite)
      rw [hwritten, hsame, htrim, ← ih outside, hwritten]
    · have hwritten : ∃ rest, (write (ofText text) c).written = c :: rest := by
        rw [write]
        split
        · exact ⟨_, rfl⟩
        · rw [if_neg hwhite]
          split
          · next hcomma => exact ⟨_, by rw [hcomma]⟩
          · split
            · next hbrace => exact ⟨_, by rw [hbrace]⟩
            · exact ⟨_, rfl⟩
      obtain ⟨rest, hrest⟩ := hwritten
      have hspace : c ≠ ' ' := by
        rintro rfl
        exact hwhite (by decide)
      have htrim : trimEnd (text ++ [c]) = text ++ [c] := by
        have hstays : isWhite c = false := by simpa using hwhite
        have hsingle : trimEnd [c] = [c] := trimEnd_cons [] hstays
        rw [trimEnd_append ⟨c, List.mem_singleton_self c, hstays⟩, hsingle]
      rw [hrest, htrim, List.getLast?_concat, dropSpaces_cons hspace, List.head?_cons]

end ImportBlock.Statement
