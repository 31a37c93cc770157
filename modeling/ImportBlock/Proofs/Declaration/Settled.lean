import ImportBlock.Proofs.Declaration.Prune

namespace ImportBlock

open Text

namespace Line

/-- Literals, braces around settled text, and characters that begin neither of them and no
comment. -/
inductive Settled : Text → Prop where
  | nil : Settled []
  | plain {c : Char} {rest : Text} (quote : isQuote c = false) (other : c ∉ ['/', '{', '}'])
      (below : Settled rest) : Settled (c :: rest)
  | literal {quote : Char} {inside rest : Text} (isQuote : isQuote quote = true)
      (closed : quote ∉ inside) (below : Settled rest) :
      Settled (quote :: (inside ++ quote :: rest))
  | braces {inside rest : Text} (inner : Settled inside) (below : Settled rest) :
      Settled ('{' :: (inside ++ '}' :: rest))

theorem not_brace_of_isQuote {c : Char} (quote : isQuote c = true) :
    c ≠ '/' ∧ c ≠ '{' ∧ c ≠ '}' := by
  refine ⟨?_, ?_, ?_⟩ <;> rintro rfl <;> exact absurd quote (by decide)

namespace Settled

variable {text : Text} (settled : Settled text)

include settled

theorem beforeSlashes_append (rest : Text) :
    beforeSlashes none (text ++ rest) = (beforeSlashes none rest).map (text ++ ·) := by
  induction settled generalizing rest with
  | nil => simp
  | @plain c more quote other _ ih =>
    have hslash : c ≠ '/' := fun h => other (by simp [h])
    simp [beforeSlashes, hslash, quoteAfter, quote, ih, Function.comp_def]
  | @literal quote inside more isQuote closed _ ih =>
    obtain ⟨hslash, -⟩ := not_brace_of_isQuote isQuote
    simp [beforeSlashes, hslash, quoteAfter, isQuote, beforeSlashes_closed closed, ih,
      Function.comp_def]
  | @braces inside more _ _ inner below =>
    have hopening : quoteAfter none '{' = none := by decide
    have hclosing : quoteAfter none '}' = none := by decide
    simp [beforeSlashes, hopening, hclosing, inner, below, Function.comp_def]

theorem braceSum_append (rest : Text) : braceSum none (text ++ rest) = braceSum none rest := by
  induction settled generalizing rest with
  | nil => rfl
  | @plain c more quote other _ ih =>
    have hvalue : braceValue c = 0 := by
      simp only [List.mem_cons, List.not_mem_nil, or_false, not_or] at other
      rw [braceValue, if_neg other.2.1, if_neg other.2.2]
    simp [braceSum, quoteAfter, quote, hvalue, ih]
  | @literal quote inside more isQuote closed _ ih =>
    obtain ⟨-, hopening, hclosing⟩ := not_brace_of_isQuote isQuote
    simp [braceSum, quoteAfter, isQuote, braceValue, hopening, hclosing, braceSum_closed closed, ih]
  | @braces inside more _ _ inner below =>
    have hopening : quoteAfter none '{' = none := by decide
    have hclosing : quoteAfter none '}' = none := by decide
    have hvalue : braceValue '{' + braceValue '}' = 0 := by decide
    simp only [List.cons_append, List.append_assoc, braceSum, hopening, hclosing, inner, below,
      Option.isNone_none, if_true]
    omega

theorem codePart_eq : codePart text = text := by
  have hnone := settled.beforeSlashes_append []
  rw [List.append_nil] at hnone
  rw [codePart, hnone]
  rfl

end Settled

namespace Settled

variable {text upper lower : Text}

theorem append (hupper : Settled upper) (hlower : Settled lower) : Settled (upper ++ lower) := by
  induction hupper with
  | nil => exact hlower
  | plain quote other _ ih => exact .plain quote other ih
  | @literal quote inside rest isQuote closed _ ih =>
    simpa using Settled.literal isQuote closed ih
  | @braces inside rest inner _ _ ih =>
    simpa using Settled.braces inner ih

theorem of_plain (plain : ∀ c ∈ text, isQuote c = false ∧ c ∉ ['/', '{', '}']) :
    Settled text := by
  induction text with
  | nil => exact .nil
  | cons c rest ih =>
    rw [List.forall_mem_cons] at plain
    exact .plain plain.1.1 plain.1.2 (ih plain.2)

end Settled
end Line

open Line

theorem Gap.settled (gap : Gap) : Settled gap.text := by
  refine Settled.of_plain fun c hc => ⟨(gap.neutral.bare c hc).1, ?_⟩
  have hwhite := gap.white c hc
  simp only [List.mem_cons, List.not_mem_nil, or_false]
  rintro (rfl | rfl | rfl) <;> exact absurd hwhite (by decide)

theorem Name.settled (name : Name) : Settled name.text := by
  refine Settled.of_plain fun c hc => ?_
  obtain ⟨-, hquote, -, hopening, hclosing⟩ := (Statement.isWord_name name).plain c hc
  exact ⟨hquote, by simp [(name.neutral.bare c hc).2.2, hopening, hclosing]⟩

theorem settled_typeText (type? : Option Space) : Settled (typeText type?) := by
  have hword : Settled ['t', 'y', 'p', 'e'] := Settled.of_plain (forall_of_all rfl)
  cases type? with
  | none => exact .nil
  | some space => exact hword.append space.settled

theorem Member.settled (member : Member) : Settled member.text := by
  have hword : Settled ['a', 's'] := Settled.of_plain (forall_of_all rfl)
  have halias : Settled (aliasText member.alias?) := by
    cases member.alias? with
    | none => exact .nil
    | some as => exact ((as.1.settled.append hword).append as.2.1.settled).append as.2.2.settled
  exact ((settled_typeText member.type?).append member.name.settled).append halias

theorem Members.settled (members : Members) : Settled members.text := by
  induction members with
  | blank gap => exact gap.settled
  | last before member after => exact (before.settled.append member.settled).append after.settled
  | more before member after rest ih =>
    exact ((before.settled.append member.settled).append after.settled).append
      (.plain rfl (by decide) ih)

theorem Bundle.settled (bundle : Bundle) : Settled bundle.text := by
  cases bundle with
  | star gap space name =>
    have hword : Settled ['a', 's'] := Settled.of_plain (forall_of_all rfl)
    exact .plain rfl (by decide)
      (((gap.settled.append hword).append space.settled).append name.settled)
  | braces members => exact .braces members.settled .nil

theorem Clause.settled (clause : Clause) : Settled clause.text := by
  cases clause with
  | name word => exact word.settled
  | bundle shared => exact shared.settled
  | both word before after shared =>
    exact (word.settled.append before.settled).append
      (.plain rfl (by decide) (after.settled.append shared.settled))

theorem Front.settled (front : Front) : Settled front.text := by
  have hword : Settled ['f', 'r', 'o', 'm'] := Settled.of_plain (forall_of_all rfl)
  exact ((((settled_typeText front.type?).append front.clause.settled).append
    front.before.settled).append hword).append front.after.settled

namespace Declaration

variable (declaration : Declaration)

def clause : Text := declaration.space.text ++ (frontText declaration.front? ++ declaration.tail)

theorem text_eq : declaration.text = importWord ++ declaration.clause := by
  rw [← declaration.head_append_tail, head, clause]
  simp only [List.append_assoc]

theorem settled_clause : Settled declaration.clause := by
  have hfront : Settled (frontText declaration.front?) := by
    cases declaration.front? with
    | none => exact .nil
    | some front => exact front.settled
  have hsource : Settled declaration.source.spelling :=
    .literal declaration.source.quote_cases.1 declaration.source.closed .nil
  have hsemicolon : Settled (semicolonText declaration.semicolon?) := by
    cases declaration.semicolon? with
    | none => exact .nil
    | some gap => exact gap.settled.append (.plain rfl (by decide) .nil)
  exact declaration.space.settled.append (hfront.append (hsource.append hsemicolon))

end Declaration
end ImportBlock
