import Mathlib.Logic.Relation
import ImportBlock.Proofs.Declaration.Syntax
import ImportBlock.Proofs.Statement.Again

/-! Texts that differ in layout only have one spelling. -/

namespace ImportBlock.Statement

open Text Line

/-- One change of the layout outside literals. -/
inductive Relaid : Text → Text → Prop where
  | space {upper : Text} (outside : Outside upper) (run other : Space) (lower : Text) :
      Relaid (upper ++ (run.text ++ lower)) (upper ++ (other.text ++ lower))
  | behind {upper : Text} (outside : Outside upper) {mark : Char}
      (opens : Draft.IsOpener mark ∨ Draft.IsCloser mark) (gap : Gap) (lower : Text) :
      Relaid (upper ++ mark :: lower) (upper ++ mark :: (gap.text ++ lower))
  | ahead {upper : Text} (outside : Outside upper) {mark : Char} (closes : Draft.IsCloser mark)
      (gap : Gap) (lower : Text) :
      Relaid (upper ++ mark :: lower) (upper ++ (gap.text ++ mark :: lower))
  | comma {upper : Text} (outside : Outside upper) (last : (trimEnd upper).getLast? ≠ some ',')
      (lower : Text) : Relaid (upper ++ '}' :: lower) (upper ++ ',' :: '}' :: lower)

namespace Draft

variable {written : Text}

theorem write_space_mark {mark : Char} (opens : IsOpener mark ∨ IsCloser mark) (c : Char) :
    write ⟨' ' :: mark :: written, none⟩ c = write ⟨mark :: written, none⟩ c := by
  have hmark : mark ≠ ' ' ∧ (mark = '{' ∨ mark = ',' ∨ mark = '}') := by
    rcases opens with (rfl | rfl) | (rfl | rfl) <;> decide
  obtain ⟨hne, hseparate⟩ := hmark
  by_cases hwhite : isWhite c = true
  · simp [write, hwhite, hne]
  · have hdrop : dropSpaces (' ' :: mark :: written) = dropSpaces (mark :: written) := rfl
    have hspace : separate (' ' :: mark :: written) = separate (mark :: written) := by
      rw [separate_cons, separate_cons, if_pos hseparate, if_neg (by decide)]
    simp only [write, if_neg hwhite, hdrop, hspace]

theorem finish_foldl_mark {mark : Char} (opens : IsOpener mark ∨ IsCloser mark) (gap : Gap)
    (lower : Text) : ((gap.text ++ lower).foldl write ⟨mark :: written, none⟩).finish =
      (lower.foldl write ⟨mark :: written, none⟩).finish := by
  by_cases hnil : gap.text = []
  · rw [hnil, List.nil_append]
  · have hmark : mark ≠ ' ' := by
      rcases opens with (rfl | rfl) | (rfl | rfl) <;> decide
    have hspace : write ⟨mark :: written, none⟩ ' ' = ⟨' ' :: mark :: written, none⟩ := by
      simp [write, isWhite, hmark]
    rw [List.foldl_append, foldl_write_white hnil gap.white, hspace]
    cases lower with
    | nil => rfl
    | cons c rest => rw [List.foldl_cons, List.foldl_cons, write_space_mark opens]

theorem write_comma_brace (last : (dropSpaces written).head? ≠ some ',') :
    write (write ⟨written, none⟩ ',') '}' = write ⟨written, none⟩ '}' := by
  have hcomma : dropSpaces (',' :: dropSpaces written) = ',' :: dropSpaces written := rfl
  have hdrop : dropComma (',' :: dropSpaces written) = dropComma (dropSpaces written) :=
    (dropComma_of_head? last).symm
  simp [write, isWhite, hcomma, hdrop]

end Draft

theorem Relaid.normalize_eq {left right : Text} (relaid : Relaid left right) :
    normalize left = normalize right := by
  cases relaid with
  | @space upper outside run other lower =>
    obtain ⟨written, hwritten⟩ := outside.exists_written
    rw [normalize_append, normalize_append, hwritten, List.foldl_append, List.foldl_append,
      Draft.foldl_write_white run.ne run.white, Draft.foldl_write_white other.ne other.white]
  | @behind upper outside mark opens gap lower =>
    obtain ⟨written, hwritten⟩ := outside.exists_written
    have hmark : ∃ inner, Draft.write ⟨written, none⟩ mark = ⟨mark :: inner, none⟩ := by
      rcases opens with (rfl | rfl) | (rfl | rfl) <;>
        simp [Draft.write, isWhite, quoteAfter, isQuote]
    obtain ⟨inner, hinner⟩ := hmark
    rw [normalize_append, normalize_append, hwritten, List.foldl_cons, List.foldl_cons, hinner,
      Draft.finish_foldl_mark opens]
  | @ahead upper outside mark closes gap lower =>
    obtain ⟨written, hwritten⟩ := outside.exists_written
    rw [normalize_append, normalize_append, hwritten, List.foldl_append, List.foldl_cons,
      List.foldl_cons, Draft.foldl_white_closer closes _ gap.white]
  | @comma upper outside last lower =>
    rw [← Draft.head?_dropSpaces outside] at last
    obtain ⟨written, hwritten⟩ := outside.exists_written
    rw [hwritten] at last
    rw [normalize_append, normalize_append, hwritten, List.foldl_cons, List.foldl_cons,
      List.foldl_cons, Draft.write_comma_brace last]

theorem normalize_eq_of_eqvGen {left right : Text} (relaid : Relation.EqvGen Relaid left right) :
    normalize left = normalize right := by
  induction relaid with
  | rel left right relaid => exact relaid.normalize_eq
  | refl text => rfl
  | symm left right _ ih => exact ih.symm
  | trans left middle right _ _ ih ih' => exact ih.trans ih'

/-- Layout is nothing to the spelling, closed literals stay, and the spelling of a text with its
commas apart is spelt as itself. -/
theorem normalize_layout :
    (∀ left right, Relation.EqvGen Relaid left right → normalize left = normalize right) ∧
    (∀ text, closedLiterals (normalize text) = closedLiterals text) ∧
    ∀ text, CommasApart text → normalize (normalize text) = normalize text :=
  ⟨fun _ _ => normalize_eq_of_eqvGen, closedLiterals_normalize, fun _ => normalize_normalize⟩

def packed : Text := "import a,\x7b b,c\x7d  from \"x,  \x7b,\x7d\"".toList

def spread : Text := "import a, \x7b b,c,\x7d\n\tfrom \"x,  \x7b,\x7d\"".toList

theorem relaid_packed : Relation.EqvGen Relaid packed spread := by
  let upper : Text := "import a".toList
  let members : Text := "\x7b b,c".toList
  let lower : Text := "from \"x,  \x7b,\x7d\"".toList
  let spaces : Space := ⟨⟨[' ', ' '], List.forall_mem_cons.mpr ⟨rfl, white_space⟩⟩, by decide⟩
  let breaks : Space :=
    ⟨⟨['\n', '\t'], List.forall_mem_cons.mpr ⟨rfl, List.forall_mem_singleton.mpr rfl⟩⟩, by decide⟩
  let rest : Text := members ++ '}' :: (spaces.text ++ lower)
  have houtside : Outside upper := by decide
  have hspaced : Relaid packed (upper ++ ',' :: ' ' :: rest) :=
    .behind houtside (.inl (.inr rfl)) Space.blank.toGap rest
  have hcomma : Relaid ((upper ++ ',' :: ' ' :: members) ++ '}' :: (spaces.text ++ lower))
      ((upper ++ ',' :: ' ' :: members) ++ ',' :: '}' :: (spaces.text ++ lower)) :=
    .comma (by decide) (by decide) _
  have hbreak : Relaid
      ((upper ++ ',' :: ' ' :: members ++ [',', '}']) ++ (spaces.text ++ lower)) spread :=
    .space (by decide) spaces breaks lower
  exact .trans _ _ _ (.rel _ _ hspaced) (.trans _ _ _ (.rel _ _ hcomma) (.rel _ _ hbreak))

theorem normalize_layout_packed :
    Relation.EqvGen Relaid packed spread ∧ normalize packed = normalize spread ∧
      closedLiterals packed = ["\"x,  \x7b,\x7d\"".toList] ∧
      closedLiterals (normalize packed) = closedLiterals packed ∧ CommasApart packed ∧
      normalize (normalize packed) = normalize packed := by
  obtain ⟨hrelaid, hliterals, hagain⟩ := normalize_layout
  have hapart : CommasApart packed := by decide +kernel
  exact ⟨relaid_packed, hrelaid _ _ relaid_packed, by decide +kernel, hliterals packed, hapart,
    hagain packed hapart⟩

end ImportBlock.Statement
