import ImportBlock.Proofs.Declaration.Syntax
import ImportBlock.Proofs.Statement.Normal

/-! The one spelling of a declaration, whatever white space it is written with. -/

namespace ImportBlock

open Text Line

namespace Statement

structure IsWord (text : Text) : Prop where
  ne : text ≠ []
  plain : ∀ c ∈ text, isWhite c = false ∧ isQuote c = false ∧ c ≠ ',' ∧ c ≠ '{' ∧ c ≠ '}'

/-- White space ahead of the text is none of it. -/
def Starts (text : Text) : Prop :=
  ∃ c rest, text = c :: rest ∧ isWhite c = false ∧ c ≠ ',' ∧ c ≠ '}'

/-- Neither a space nor a comma ends the text. -/
def Firm (text : Text) : Prop := ∃ init c, text = init ++ [c] ∧ c ≠ ' ' ∧ c ≠ ','

/-- Written behind a space, the text comes out in this spelling. -/
structure Spells (text spelling : Text) : Prop where
  starts : Starts text
  firm : Firm spelling
  fold : ∀ written, text.foldl Draft.write ⟨' ' :: written, none⟩ =
    ⟨spelling.reverse ++ ' ' :: written, none⟩

theorem Starts.append {text : Text} (h : Starts text) (more : Text) : Starts (text ++ more) := by
  obtain ⟨c, rest, rfl, hc⟩ := h
  exact ⟨c, rest ++ more, rfl, hc⟩

namespace Draft

variable {text spelling written : Text}

theorem foldl_space (firm : Firm spelling) (space : Space) :
    space.text.foldl write ⟨spelling.reverse ++ written, none⟩ =
      ⟨' ' :: (spelling.reverse ++ written), none⟩ := by
  obtain ⟨init, c, rfl, hc, -⟩ := firm
  rw [foldl_write_white space.ne space.white]
  simp [write, isWhite, hc]

theorem foldl_opener {opening : Char} (opener : IsOpener opening) (gap : Gap)
    (starts : Starts text) : (gap.text ++ text).foldl write ⟨opening :: written, none⟩ =
      text.foldl write ⟨' ' :: opening :: written, none⟩ := by
  obtain ⟨c, rest, rfl, hwhite, hcomma, hbrace⟩ := starts
  have hgap : write (gap.text.foldl write ⟨opening :: written, none⟩) c =
      write ⟨opening :: written, none⟩ c :=
    foldl_white_member opener hwhite hcomma hbrace gap.white
  have hsame : write ⟨opening :: written, none⟩ c = write ⟨' ' :: opening :: written, none⟩ c := by
    rcases opener with rfl | rfl <;> simp [write, hwhite, hcomma, hbrace, separate]
  rw [List.foldl_append, List.foldl_cons, List.foldl_cons, hgap, hsame]

theorem write_comma (firm : Firm spelling) (gap : Gap) :
    write (gap.text.foldl write ⟨spelling.reverse ++ written, none⟩) ',' =
      ⟨',' :: (spelling.reverse ++ written), none⟩ := by
  obtain ⟨init, c, rfl, hc, -⟩ := firm
  rw [foldl_white_closer (.inr rfl) _ gap.white]
  simp [write, isWhite, dropSpaces, hc]

theorem write_brace (firm : Firm spelling) (gap : Gap) :
    write (gap.text.foldl write ⟨spelling.reverse ++ written, none⟩) '}' =
      ⟨'}' :: ' ' :: (spelling.reverse ++ written), none⟩ := by
  obtain ⟨init, c, rfl, hc, hcomma⟩ := firm
  have hdrop : dropComma (c :: (init.reverse ++ written)) = c :: (init.reverse ++ written) := by
    unfold dropComma
    split <;> simp_all
  rw [foldl_white_closer (.inl rfl) _ gap.white]
  simp [write, isWhite, dropSpaces, hc, hdrop]

theorem foldl_word (word : ∀ c ∈ text, isWhite c = false ∧ isQuote c = false ∧ c ≠ ',' ∧
      c ≠ '{' ∧ c ≠ '}') (inside : separate written = written) :
    text.foldl write ⟨written, none⟩ = ⟨text.reverse ++ written, none⟩ := by
  induction text generalizing written with
  | nil => rfl
  | cons c rest ih =>
    rw [List.forall_mem_cons] at word
    obtain ⟨⟨hwhite, hquote, hcomma, hopening, hclosing⟩, hrest⟩ := word
    have hstep : write ⟨written, none⟩ c = ⟨c :: written, none⟩ := by
      simp [write, hwhite, hquote, hcomma, hclosing, inside, quoteAfter]
    have hinside : separate (c :: written) = c :: written := by
      unfold separate
      split <;> simp_all
    rw [List.foldl_cons, hstep, ih hrest hinside]
    simp

theorem finish_firm (firm : Firm spelling) (quote : Option Char) :
    finish ⟨spelling.reverse, quote⟩ = spelling := by
  obtain ⟨init, c, rfl, hc, -⟩ := firm
  simp [finish, dropSpaces, hc]

theorem foldl_inside {quote : Char} (closed : quote ∉ text) :
    text.foldl write ⟨written, some quote⟩ = ⟨text.reverse ++ written, some quote⟩ := by
  induction text generalizing written with
  | nil => rfl
  | cons c rest ih =>
    rw [List.mem_cons, not_or] at closed
    have hstep : write ⟨written, some quote⟩ c = ⟨c :: written, some quote⟩ := by
      simp [write, quoteAfter, Ne.symm closed.1]
    rw [List.foldl_cons, hstep, ih closed.2]
    simp

end Draft

theorem IsWord.firm {text : Text} (word : IsWord text) : Firm text := by
  obtain ⟨init, c, rfl⟩ := (List.eq_nil_or_concat' text).resolve_left word.ne
  obtain ⟨hwhite, -, hcomma, -⟩ := word.plain c (by simp)
  refine ⟨init, c, rfl, ?_, hcomma⟩
  rintro rfl
  contradiction

theorem IsWord.spells {text : Text} (word : IsWord text) : Spells text text where
  starts := by
    obtain ⟨c, rest, rfl⟩ := List.exists_cons_of_ne_nil word.ne
    obtain ⟨hwhite, -, hcomma, -, hbrace⟩ := word.plain c List.mem_cons_self
    exact ⟨c, rest, rfl, hwhite, hcomma, hbrace⟩
  firm := word.firm
  fold := fun _ => Draft.foldl_word word.plain rfl

theorem isWord_name (name : Name) : IsWord name.text where
  ne := name.ne
  plain := by
    intro c member
    have hc := name.plain c member
    simp only [isNameChar, Bool.and_eq_true, Bool.not_eq_true', List.contains_eq_mem,
      List.mem_cons, decide_eq_false_iff_not, not_or] at hc
    obtain ⟨⟨hwhite, hquote⟩, hcomma, hopening, hclosing, -⟩ := hc
    exact ⟨hwhite, hquote, hcomma, hopening, hclosing⟩

namespace Spells

variable {text text' spelling spelling' : Text}

theorem space (h : Spells text spelling) (space : Space) (h' : Spells text' spelling') :
    Spells (text ++ space.text ++ text') (spelling ++ ' ' :: spelling') where
  starts := by
    obtain ⟨c, rest, rfl, hc⟩ := h.starts
    exact ⟨c, rest ++ space.text ++ text', rfl, hc⟩
  firm := by
    obtain ⟨init, c, rfl, hc⟩ := h'.firm
    exact ⟨spelling ++ ' ' :: init, c, by simp, hc⟩
  fold := by
    intro written
    rw [List.foldl_append, List.foldl_append, h.fold, Draft.foldl_space h.firm, h'.fold]
    simp

theorem comma (h : Spells text spelling) (before after : Gap) (h' : Spells text' spelling') :
    Spells (text ++ before.text ++ ',' :: (after.text ++ text'))
      (spelling ++ ',' :: ' ' :: spelling') where
  starts := by
    obtain ⟨c, rest, rfl, hc⟩ := h.starts
    exact ⟨c, rest ++ before.text ++ ',' :: (after.text ++ text'), by simp, hc⟩
  firm := by
    obtain ⟨init, c, rfl, hc⟩ := h'.firm
    exact ⟨spelling ++ ',' :: ' ' :: init, c, by simp, hc⟩
  fold := by
    intro written
    rw [List.foldl_append, List.foldl_append, h.fold, List.foldl_cons, Draft.write_comma h.firm,
      Draft.foldl_opener (.inr rfl) after h'.starts, h'.fold]
    simp

end Spells
end Statement

open Statement

def typeSpelling : Option Space → Text
  | none => []
  | some _ => ['t', 'y', 'p', 'e', ' ']

namespace Member

def aliasSpelling : Option (Space × Space × Name) → Text
  | none => []
  | some (_, _, name) => [' ', 'a', 's', ' '] ++ name.text

def spelling (member : Member) : Text :=
  typeSpelling member.type? ++ member.name.text ++ aliasSpelling member.alias?

end Member

def Members.spelling (opening : Char) : Members → Text
  | blank _ => (if opening = ',' then [] else [opening]) ++ [' ', '}']
  | last _ member _ => opening :: ' ' :: (member.spelling ++ [' ', '}'])
  | more _ member _ rest => opening :: ' ' :: (member.spelling ++ rest.spelling ',')

namespace Bundle

def starSpelling (gap : Gap) : Text := if gap.text = [] then ['*', 'a', 's'] else "* as".toList

def spelling : Bundle → Text
  | star gap _ name => starSpelling gap ++ ' ' :: name.text
  | braces members => members.spelling '{'

end Bundle

def Clause.spelling : Clause → Text
  | name word => word.text
  | bundle shared => shared.spelling
  | both word _ _ shared => word.text ++ ',' :: ' ' :: shared.spelling

theorem isWord_as : IsWord ['a', 's'] := ⟨by decide, forall_of_all (by decide)⟩

theorem isWord_type : IsWord ['t', 'y', 'p', 'e'] := ⟨by decide, forall_of_all (by decide)⟩

theorem isWord_from : IsWord ['f', 'r', 'o', 'm'] := ⟨by decide, forall_of_all (by decide)⟩

theorem spells_typed (type? : Option Space) {text spelling : Text} (h : Spells text spelling) :
    Spells (typeText type? ++ text) (typeSpelling type? ++ spelling) := by
  cases type? with
  | none => exact h
  | some space => exact isWord_type.spells.space space h

namespace Member

theorem spells (member : Member) : Spells member.text member.spelling := by
  have hname := (isWord_name member.name).spells
  rw [text, spelling, List.append_assoc, List.append_assoc]
  apply spells_typed
  cases member.alias? with
  | none => simpa only [aliasText, aliasSpelling, List.append_nil] using hname
  | some as =>
    obtain ⟨before, after, other⟩ := as
    have halias := (hname.space before isWord_as.spells).space after (isWord_name other).spells
    simpa [aliasText, aliasSpelling] using halias

end Member

namespace Members

theorem foldl_text (members : Members) {opening : Char} (opener : Draft.IsOpener opening)
    (written : Text) :
    (members.text ++ ['}']).foldl Draft.write ⟨opening :: written, none⟩ =
      ⟨(members.spelling opening).reverse ++ written, none⟩ := by
  induction members generalizing opening written with
  | blank gap =>
    rw [text, List.foldl_append, List.foldl_cons, List.foldl_nil,
      Draft.foldl_white_closer (.inl rfl) _ gap.white]
    rcases opener with rfl | rfl <;> rfl
  | last before member after =>
    have hmember := member.spells
    have hcut : (last before member after).text ++ ['}'] =
        before.text ++ (member.text ++ after.text ++ ['}']) := by simp [text]
    rw [hcut, Draft.foldl_opener opener before (hmember.starts.append _ |>.append _),
      List.foldl_append, List.foldl_append, hmember.fold, List.foldl_cons, List.foldl_nil,
      Draft.write_brace hmember.firm, spelling]
    simp
  | more before member after rest ih =>
    have hmember := member.spells
    have hcut : (more before member after rest).text ++ ['}'] =
        before.text ++ (member.text ++ after.text ++ ',' :: (rest.text ++ ['}'])) := by
      simp [text]
    rw [hcut, Draft.foldl_opener opener before (hmember.starts.append _ |>.append _),
      List.foldl_append, List.foldl_append, hmember.fold, List.foldl_cons,
      Draft.write_comma hmember.firm, ih (.inr rfl), spelling]
    simp

theorem firm_spelling (members : Members) (opening : Char) : Firm (members.spelling opening) := by
  induction members generalizing opening with
  | blank gap =>
    exact ⟨(if opening = ',' then [] else [opening]) ++ [' '], '}', by simp [spelling],
      by decide, by decide⟩
  | last before member after =>
    exact ⟨opening :: ' ' :: (member.spelling ++ [' ']), '}', by simp [spelling], by decide,
      by decide⟩
  | more before member after rest ih =>
    obtain ⟨init, c, hrest, hc⟩ := ih ','
    exact ⟨opening :: ' ' :: (member.spelling ++ init), c, by simp [spelling, hrest], hc⟩

end Members

namespace Bundle

theorem spells_star (gap : Gap) : Spells ('*' :: (gap.text ++ ['a', 's'])) (starSpelling gap) := by
  by_cases hnil : gap.text = []
  · rw [starSpelling, if_pos hnil, hnil]
    exact (⟨by decide, forall_of_all (by decide)⟩ : IsWord ['*', 'a', 's']).spells
  · have hstar : IsWord ['*'] := ⟨by decide, forall_of_all (by decide)⟩
    rw [starSpelling, if_neg hnil]
    exact hstar.spells.space ⟨gap, hnil⟩ isWord_as.spells

theorem spells (bundle : Bundle) : Spells bundle.text bundle.spelling := by
  cases bundle with
  | star gap space name =>
    have hstar := (spells_star gap).space space (isWord_name name).spells
    simpa [text, spelling] using hstar
  | braces members =>
    refine ⟨⟨'{', _, rfl, by decide, by decide, by decide⟩, members.firm_spelling _, ?_⟩
    intro written
    have hopening : Draft.write ⟨' ' :: written, Option.none⟩ '{' =
        ⟨'{' :: ' ' :: written, Option.none⟩ := by
      simp [Draft.write, isWhite, Draft.separate, quoteAfter, isQuote]
    rw [text, List.foldl_cons, hopening, members.foldl_text (.inl rfl)]
    rfl

end Bundle

theorem Clause.spells (clause : Clause) : Spells clause.text clause.spelling := by
  cases clause with
  | name word => exact (isWord_name word).spells
  | bundle shared => exact shared.spells
  | both word before after shared =>
    exact (isWord_name word).spells.comma before after shared.spells

theorem Literal.quote_cases (literal : Literal) : Line.isQuote literal.quote = true ∧
    isWhite literal.quote = false ∧ isNameChar literal.quote = false := by
  rcases literal.isQuote with h | h <;> rw [h] <;> decide

theorem Literal.spells (literal : Literal) : Spells literal.spelling literal.spelling where
  starts := by
    rcases literal.isQuote with hquote | hquote <;>
      exact ⟨_, _, rfl, by rw [hquote]; decide, by rw [hquote]; decide, by rw [hquote]; decide⟩
  firm := by
    refine ⟨literal.quote :: literal.text, literal.quote, rfl, ?_⟩
    rcases literal.isQuote with hquote | hquote <;> rw [hquote] <;> decide
  fold := by
    intro written
    have hopening : Draft.write ⟨' ' :: written, none⟩ literal.quote =
        ⟨literal.quote :: ' ' :: written, some literal.quote⟩ := by
      rcases literal.isQuote with hquote | hquote <;> rw [hquote] <;>
        simp [Draft.write, isWhite, Draft.separate, quoteAfter, Line.isQuote]
    rw [Literal.spelling, List.foldl_cons, hopening, List.foldl_append,
      Draft.foldl_inside literal.closed]
    simp [Draft.write, quoteAfter]

namespace Declaration

def frontSpelling : Option Front → Text
  | none => []
  | some front => typeSpelling front.type? ++ front.clause.spelling ++ fromWord

def semicolonSpelling : Option LineGap → Text
  | none => []
  | some gap => if gap.text = [] then [';'] else [' ', ';']

def spelling (declaration : Declaration) : Text :=
  importWord ++ ' ' :: (frontSpelling declaration.front? ++ declaration.source.spelling ++
    semicolonSpelling declaration.semicolon?)

theorem spells_front (front? : Option Front) (source : Literal) :
    Spells (frontText front? ++ source.spelling) (frontSpelling front? ++ source.spelling) := by
  cases front? with
  | none => exact source.spells
  | some front =>
    have hclause := (front.clause.spells.space front.before isWord_from.spells).space front.after
      source.spells
    have htyped := spells_typed front.type? hclause
    simpa [frontText, Front.text, frontSpelling, fromWord] using htyped

theorem foldl_semicolon (semicolon? : Option LineGap) {quote : Char}
    (single : quote = '"' ∨ quote = '\'') (written : Text) :
    (semicolonText semicolon?).foldl Draft.write ⟨quote :: written, none⟩ =
      ⟨(semicolonSpelling semicolon?).reverse ++ quote :: written, none⟩ := by
  cases semicolon? with
  | none => rfl
  | some gap =>
    by_cases hnil : gap.text = []
    · rw [semicolonText, semicolonSpelling, if_pos hnil, hnil]
      rcases single with rfl | rfl <;> rfl
    · rw [semicolonText, semicolonSpelling, if_neg hnil, List.foldl_append,
        Draft.foldl_write_white hnil gap.white]
      rcases single with rfl | rfl <;> rfl

theorem foldl_text (declaration : Declaration) :
    declaration.text.foldl Draft.write ⟨[], none⟩ = ⟨declaration.spelling.reverse, none⟩ := by
  have hword : IsWord importWord := ⟨by decide, forall_of_all (by decide)⟩
  have himport : importWord.foldl Draft.write ⟨[], none⟩ = ⟨importWord.reverse ++ [], none⟩ :=
    Draft.foldl_word hword.plain rfl
  have hfront := (spells_front declaration.front? declaration.source).fold importWord.reverse
  have hquote : (frontSpelling declaration.front? ++ declaration.source.spelling).reverse =
      declaration.source.quote :: (declaration.source.text.reverse ++ [declaration.source.quote] ++
        (frontSpelling declaration.front?).reverse) := by
    simp [Literal.spelling]
  rw [text, head, List.append_assoc, List.append_assoc, List.append_assoc, ← List.append_assoc
    (frontText _), List.foldl_append, himport, List.foldl_append, Draft.foldl_space hword.firm,
    List.append_nil, List.foldl_append, hfront, hquote, List.cons_append,
    foldl_semicolon _ declaration.source.isQuote, spelling]
  simp [Literal.spelling]

theorem exists_last (declaration : Declaration) : ∃ init c, declaration.spelling = init ++ [c] ∧
    (isQuote c = true ∨ c = ';') := by
  cases hsemicolon : declaration.semicolon? with
  | none =>
    exact ⟨importWord ++ ' ' :: (frontSpelling declaration.front? ++ declaration.source.quote ::
      declaration.source.text), declaration.source.quote,
      by simp [spelling, hsemicolon, semicolonSpelling, Literal.spelling],
      .inl declaration.source.quote_cases.1⟩
  | some gap =>
    refine ⟨importWord ++ ' ' :: (frontSpelling declaration.front? ++ declaration.source.spelling ++
      if gap.text = [] then [] else [' ']), ';', ?_, .inr rfl⟩
    rw [spelling, hsemicolon, semicolonSpelling]
    split <;> simp

theorem firm_spelling (declaration : Declaration) : Firm declaration.spelling := by
  obtain ⟨init, c, hspelling, hc⟩ := declaration.exists_last
  refine ⟨init, c, hspelling, ?_, ?_⟩
  · rintro rfl
    exact absurd hc (by decide)
  · rintro rfl
    exact absurd hc (by decide)

/-- However it is laid out, a declaration has one spelling. -/
theorem normalize_text (declaration : Declaration) :
    Statement.normalize declaration.text = declaration.spelling := by
  rw [Statement.normalize, foldl_text, Draft.finish_firm declaration.firm_spelling]

end Declaration
end ImportBlock
