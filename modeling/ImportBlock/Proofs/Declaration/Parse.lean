import ImportBlock.Proofs.Declaration.Binding
import ImportBlock.Proofs.Statement.Lines

namespace ImportBlock

open Text Line Statement

namespace Line

/-- A bare text in which every brace is closed that is opened. -/
structure Neutral (text : Text) : Prop where
  bare : Bare text
  balance : braceSum none text = 0

namespace Neutral

variable {text upper lower : Text}

theorem of_plain (plain : ∀ c ∈ text, isQuote c = false ∧ c ∉ [';', '/', '{', '}']) :
    Neutral text := by
  refine ⟨fun c hc => ?_, braceSum_of_not_mem none ?_ ?_⟩
  · obtain ⟨hquote, hother⟩ := plain c hc
    simp only [List.mem_cons, not_or] at hother
    exact ⟨hquote, hother.1, hother.2.1⟩
  · exact fun hc => (plain _ hc).2 (by decide)
  · exact fun hc => (plain _ hc).2 (by decide)

theorem append (hupper : Neutral upper) (hlower : Neutral lower) : Neutral (upper ++ lower) where
  bare := hupper.bare.append hlower.bare
  balance := by rw [braceSum_append hupper.bare.quotes, hupper.balance, hlower.balance]; rfl

theorem braces (h : Neutral text) : Neutral ('{' :: (text ++ ['}'])) where
  bare := List.forall_mem_cons.mpr ⟨by decide, h.bare.append (by decide : Bare ['}'])⟩
  balance := by
    have hopening : braceSum none ('{' :: (text ++ ['}'])) =
        1 + braceSum none (text ++ ['}']) := rfl
    rw [hopening, braceSum_append h.bare.quotes, h.balance]
    rfl

end Neutral

theorem isImport_trim {rest : Text} (word : ∀ c ∈ rest.head?, isWhite c = true) :
    isImport (trim (importWord ++ rest)) = true := by
  have hstart : trimStart (importWord ++ rest) = importWord ++ rest :=
    List.dropWhile_cons_of_neg (by decide)
  have hend : trimEnd (importWord ++ rest) = importWord ++ trimEnd rest := by
    simp only [importWord, List.cons_append, List.nil_append]
    simp (disch := decide) only [trimEnd_cons]
  obtain ⟨more, hmore⟩ := isPrefix_dropEndWhile isWhite rest
  rw [trim, hstart, hend, isImport, stripStart_append]
  rw [← trimEnd] at hmore
  cases hrest : trimEnd rest with
  | nil => rfl
  | cons c inner =>
    rw [hrest] at hmore
    simp [word c (by rw [← hmore]; rfl)]

end Line

theorem Gap.neutral (gap : Gap) : Neutral gap.text := by
  apply Neutral.of_plain
  intro c hc
  have hwhite := gap.white c hc
  constructor
  · by_contra hquote
    rw [Bool.not_eq_false] at hquote
    simp only [isQuote, Bool.or_eq_true, beq_iff_eq] at hquote
    rcases hquote with (rfl | rfl) | rfl <;> exact absurd hwhite (by decide)
  · simp only [List.mem_cons, List.not_mem_nil, or_false]
    rintro (rfl | rfl | rfl | rfl) <;> exact absurd hwhite (by decide)

theorem Name.neutral (name : Name) : Neutral name.text := by
  apply Neutral.of_plain
  intro c hc
  refine ⟨((isWord_name name).plain c hc).2.1, ?_⟩
  simp only [List.mem_cons, List.not_mem_nil, or_false]
  rintro (rfl | rfl | rfl | rfl) <;> exact name.not_mem (by decide) hc

theorem neutral_typeText (type? : Option Space) : Neutral (typeText type?) := by
  cases type? with
  | none => exact ⟨by decide, rfl⟩
  | some space => exact Neutral.append ⟨by decide, rfl⟩ space.neutral

theorem Member.neutral (member : Member) : Neutral member.text := by
  have halias : Neutral (aliasText member.alias?) := by
    cases member.alias? with
    | none => exact ⟨by decide, rfl⟩
    | some as =>
      have hword : Neutral ['a', 's'] := ⟨by decide, rfl⟩
      exact ((as.1.neutral.append hword).append as.2.1.neutral).append as.2.2.neutral
  exact ((neutral_typeText member.type?).append member.name.neutral).append halias

theorem Members.neutral (members : Members) : Neutral members.text := by
  induction members with
  | blank gap => exact gap.neutral
  | last before member after => exact (before.neutral.append member.neutral).append after.neutral
  | more before member after rest ih =>
    have hcomma : Neutral [','] := ⟨by decide, rfl⟩
    exact ((before.neutral.append member.neutral).append after.neutral).append (hcomma.append ih)

theorem Bundle.neutral (bundle : Bundle) : Neutral bundle.text := by
  cases bundle with
  | star gap space name =>
    have hstar : Neutral ['*'] := ⟨by decide, rfl⟩
    have hword : Neutral ['a', 's'] := ⟨by decide, rfl⟩
    exact hstar.append (((gap.neutral.append hword).append space.neutral).append name.neutral)
  | braces members => exact members.neutral.braces

theorem Clause.neutral (clause : Clause) : Neutral clause.text := by
  cases clause with
  | name word => exact word.neutral
  | bundle shared => exact shared.neutral
  | both word before after shared =>
    have hcomma : Neutral [','] := ⟨by decide, rfl⟩
    exact (word.neutral.append before.neutral).append
      (hcomma.append (after.neutral.append shared.neutral))

theorem Front.neutral (front : Front) : Neutral front.text := by
  have hword : Neutral ['f', 'r', 'o', 'm'] := ⟨by decide, rfl⟩
  exact ((((neutral_typeText front.type?).append front.clause.neutral).append
    front.before.neutral).append hword).append front.after.neutral

namespace Declaration

/-- The head cut into lines. The first one opens a statement, whatever follows the last one. -/
structure HeadLines (declaration : Declaration) (ls : List Text) (last : Text) : Prop where
  free : NoFeed ls
  feed : '\n' ∉ last
  head_eq : declaration.head = endLines ls ++ last
  opens : ∀ rest, ∀ first ∈ (ls ++ [last ++ rest]).head?, isImport (trim first) = true

variable (declaration : Declaration)

theorem neutral_head : Neutral declaration.head := by
  have hword : Neutral importWord := ⟨by decide, rfl⟩
  have hfront : Neutral (frontText declaration.front?) := by
    cases declaration.front? with
    | none => exact ⟨by decide, rfl⟩
    | some front => exact front.neutral
  exact (hword.append declaration.space.neutral).append hfront

def tail : Text := declaration.source.spelling ++ semicolonText declaration.semicolon?

theorem head_append_tail : declaration.head ++ declaration.tail = declaration.text :=
  (List.append_assoc _ _ _).symm

theorem plain_semicolonText (semicolon? : Option LineGap) :
    ∀ c ∈ semicolonText semicolon?, isQuote c = false ∧ c ∉ ['/', '{', '}', '\n'] := by
  cases semicolon? with
  | none => simp [semicolonText]
  | some gap =>
    refine List.forall_mem_append.mpr ⟨fun c hc => ?_, forall_of_all (by decide)⟩
    obtain ⟨hquote, hsemicolon, hslash⟩ := gap.neutral.bare c hc
    have hwhite := gap.white c hc
    refine ⟨hquote, ?_⟩
    simp only [List.mem_cons, List.not_mem_nil, or_false]
    rintro (rfl | rfl | rfl | rfl)
    · contradiction
    · exact absurd hwhite (by decide)
    · exact absurd hwhite (by decide)
    · exact gap.line hc

theorem feed_tail : '\n' ∉ declaration.tail := by
  rw [tail, declaration.source.spelling_append]
  have hquote : '\n' ≠ declaration.source.quote := by
    rcases declaration.source.isQuote with h | h <;> rw [h] <;> decide
  have hsemicolon : '\n' ∉ semicolonText declaration.semicolon? := fun hc =>
    (plain_semicolonText declaration.semicolon? _ hc).2 (by decide)
  simp [hquote, declaration.source.line, hsemicolon]

theorem solid_tail : Solid declaration.tail := by
  have hquote := declaration.source.quote_cases.2.1
  have hsource : Solid declaration.source.spelling :=
    ⟨⟨_, _, rfl, hquote⟩, _, _, (List.cons_append).symm, hquote⟩
  rw [tail]
  cases declaration.semicolon? with
  | none => simpa [semicolonText] using hsource
  | some gap =>
    have hsemicolon : Solid [';'] := ⟨⟨';', [], rfl, by decide⟩, [], ';', rfl, by decide⟩
    rw [semicolonText, ← List.append_assoc]
    exact hsource.append gap.text hsemicolon

theorem beforeSlashes_tail (rest : Text) : beforeSlashes none (declaration.tail ++ rest) =
    (beforeSlashes none rest).map (declaration.tail ++ ·) := by
  obtain ⟨hquote, -, hname⟩ := declaration.source.quote_cases
  have hslash : declaration.source.quote ≠ '/' := by
    intro h
    rw [h] at hquote
    exact absurd hquote (by decide)
  have hsemicolon := beforeSlashes_append (fun c hc =>
    ⟨(plain_semicolonText declaration.semicolon? c hc).1, fun h =>
      (plain_semicolonText declaration.semicolon? c hc).2 (by simp [h])⟩) rest
  rw [tail, List.append_assoc, declaration.source.spelling_append]
  simp [beforeSlashes, hslash, quoteAfter, hquote, beforeSlashes_closed declaration.source.closed,
    hsemicolon, Function.comp_def, Literal.spelling]

theorem braceSum_tail : braceSum none declaration.tail = 0 := by
  obtain ⟨hquote, -, -⟩ := declaration.source.quote_cases
  have hplain := plain_semicolonText declaration.semicolon?
  have hsemicolon : braceSum none (semicolonText declaration.semicolon?) = 0 := by
    apply braceSum_of_not_mem
    · exact fun hc => (hplain _ hc).2 (by decide)
    · exact fun hc => (hplain _ hc).2 (by decide)
  have hvalue : braceValue declaration.source.quote = 0 := by
    rcases declaration.source.isQuote with h | h <;> rw [h] <;> rfl
  rw [tail, declaration.source.spelling_append]
  simp [braceSum, quoteAfter, hquote, hvalue, braceSum_closed declaration.source.closed, hsemicolon]

theorem closes_tail {line upper : Text} (code : codePart line = upper ++ declaration.tail) :
    closesStatement 0 line = true := by
  have hend : (upper ++ declaration.tail).contains ';' = true ∨
      (upper ++ declaration.tail).getLast?.any isQuote = true := by
    cases hsemicolon : declaration.semicolon? with
    | none =>
      right
      have hlast : upper ++ declaration.tail =
          (upper ++ declaration.source.quote :: declaration.source.text) ++
            [declaration.source.quote] := by
        simp [tail, hsemicolon, semicolonText, Literal.spelling]
      rw [hlast, List.getLast?_concat]
      exact declaration.source.quote_cases.1
    | some gap =>
      left
      simp [tail, hsemicolon, semicolonText]
  rw [closesStatement, code]
  simpa using hend

theorem exists_headLines : ∃ ls last, HeadLines declaration ls last := by
  obtain ⟨c, more, hspace⟩ := List.exists_cons_of_ne_nil declaration.space.ne
  have hwhite : isWhite c = true := declaration.space.white c (by simp [hspace])
  have hhead : declaration.head =
      importWord ++ c :: (more ++ frontText declaration.front?) := by
    simp [head, hspace]
  have hword : ∀ l : Text, '\n' ∉ l → '\n' ∉ importWord ++ l := by
    intro l hl
    rw [List.mem_append, not_or]
    exact ⟨by decide, hl⟩
  obtain ⟨ls, last, hls, hlast, hlines⟩ :=
    exists_endLines (c :: (more ++ frontText declaration.front?))
  cases ls with
  | nil =>
    obtain ⟨below, rfl⟩ : ∃ below, last = c :: below := ⟨_, hlines.symm⟩
    refine ⟨[], importWord ++ c :: below, hls, hword _ hlast, by rw [hhead, hlines]; rfl, ?_⟩
    intro rest first hfirst
    cases hfirst
    rw [List.append_assoc]
    exact isImport_trim (by simpa using hwhite)
  | cons l ls =>
    obtain ⟨hl, hfree⟩ := noFeed_cons.mp hls
    refine ⟨(importWord ++ l) :: ls, last, noFeed_cons.mpr ⟨hword l hl, hfree⟩, hlast, ?_, ?_⟩
    · rw [hhead, hlines]
      simp [endLines]
    · intro rest first hfirst
      cases hfirst
      apply isImport_trim
      intro d hd
      cases l with
      | nil => contradiction
      | cons e l =>
        have hsame : c = e := (List.cons.inj hlines).1
        cases hd
        rwa [← hsame]

namespace HeadLines

variable {declaration} {ls : List Text} {last : Text} (h : HeadLines declaration ls last)

include h

theorem bare : (∀ l ∈ ls, Bare l) ∧ Bare last := by
  have hhead := declaration.neutral_head.bare
  rw [h.head_eq] at hhead
  obtain ⟨hlines, hlast⟩ := List.forall_mem_append.mp hhead
  exact ⟨fun l hl c hc => hlines c (mem_endLines_iff.mpr ⟨l, hl, .inl hc⟩), hlast⟩

theorem balance : braceSum none (endLines ls) + braceSum none last = 0 := by
  have hhead := declaration.neutral_head
  rw [h.head_eq] at hhead
  have hlines : Bare (endLines ls) := (List.forall_mem_append.mp hhead.bare).1
  rw [← braceSum_append hlines.quotes, hhead.balance]

theorem text_append (rest : Text) : declaration.text ++ rest =
    endLines ls ++ (last ++ (declaration.tail ++ rest)) := by
  rw [← declaration.head_append_tail, h.head_eq]
  simp only [List.append_assoc]

variable {rest : Text}

theorem map_trim_lines (line : '\n' ∉ rest) : (lines (declaration.text ++ rest)).map trim =
    (ls ++ [last ++ (declaration.tail ++ rest)]).map trim := by
  have hne : last ++ (declaration.tail ++ rest) ≠ [] := by simp [declaration.solid_tail.ne_nil]
  have hfinal : '\n' ∉ last ++ (declaration.tail ++ rest) := by
    simp only [List.mem_append, not_or]
    exact ⟨h.feed, declaration.feed_tail, line⟩
  rw [h.text_append, map_trim_lines_endLines h.free, lines_last hfinal hne, List.map_append]

theorem wholeLines (line : '\n' ∉ rest)
    (code : codePart (trim (last ++ (declaration.tail ++ rest))) =
      trimStart last ++ declaration.tail) : WholeLines (lines (declaration.text ++ rest)) := by
  obtain ⟨hbare, hlast⟩ := h.bare
  have hdelta : braceDelta (trim (last ++ (declaration.tail ++ rest))) = braceSum none last := by
    rw [braceDelta, code, braceSum_append hlast.trimStart.quotes, hlast.braceSum_trimStart,
      declaration.braceSum_tail, Int.add_zero]
  have hwhole : WholeLines (ls ++ [last ++ (declaration.tail ++ rest)]) := by
    apply wholeLines_concat hbare (h.opens _)
    rw [hdelta, h.balance]
    exact declaration.closes_tail code
  exact hwhole.of_trim (h.map_trim_lines line).symm

end HeadLines

theorem codePart_tail {upper : Text} (bare : Bare upper) :
    codePart (upper ++ declaration.tail) = upper ++ declaration.tail := by
  have hnone : beforeSlashes none declaration.tail = none := by
    have htail := declaration.beforeSlashes_tail []
    rwa [List.append_nil] at htail
  rw [codePart, bare.beforeSlashes_append, hnone]
  rfl

/-- A declaration is read as one statement, whose spelling is that of the declaration. -/
theorem exists_statement : ∃ statement, Block.parse declaration.text = ⟨[], [statement], []⟩ ∧
    statement.comments = [] ∧ statement.lines = lines declaration.text ∧
      statement.normal = declaration.spelling := by
  obtain ⟨ls, last, hlines⟩ := declaration.exists_headLines
  obtain ⟨hbare, hlast⟩ := hlines.bare
  have hcode : codePart (trim (last ++ (declaration.tail ++ []))) =
      trimStart last ++ declaration.tail := by
    rw [List.append_nil, declaration.solid_tail.trim_append,
      declaration.codePart_tail hlast.trimStart]
  have hwhole := hlines.wholeLines List.not_mem_nil hcode
  have hsame := hlines.map_trim_lines List.not_mem_nil
  have htext := hlines.text_append []
  have hstop : ∃ init c, last ++ (declaration.tail ++ []) = init ++ [c] ∧ isWhite c = false := by
    obtain ⟨-, init, c, htail, hc⟩ := declaration.solid_tail
    exact ⟨last ++ init, c, by rw [htail]; simp, hc⟩
  rw [List.append_nil declaration.text] at hwhole hsame htext
  have hnormal : Statement.normal ⟨[], lines declaration.text, 0⟩ = _ :=
    normal_of_concat hsame hbare hstop
  rw [← htext, declaration.normalize_text] at hnormal
  exact ⟨_, Block.parse_whole hwhole, rfl, rfl, hnormal⟩

/-- Reading a declaration gives back what it was written from. -/
theorem parse_text : ∃ statement, Block.parse declaration.text = ⟨[], [statement], []⟩ ∧
    statement.comments = [] ∧ statement.lines = lines declaration.text ∧
      bindings statement.normal = declaration.names ∧
        specifier? statement.normal = some declaration.source.text := by
  obtain ⟨statement, hparse, hcomments, hlines, hnormal⟩ := declaration.exists_statement
  have hfree : includes fromWord [] = false := rfl
  rw [← List.append_nil declaration.spelling] at hnormal
  refine ⟨statement, hparse, hcomments, hlines, ?_⟩
  rw [hnormal]
  exact ⟨declaration.bindings_spelling hfree, declaration.specifier?_spelling hfree⟩

end Declaration

def Declaration.spread : Declaration where
  space := .blank
  front? := some {
    type? := some .blank
    clause := .both (.ofWord "React") .empty Space.blank.toGap (.braces
      (.more ⟨"\n  ".toList, forall_of_all (by decide)⟩
        ⟨some .blank, .ofWord "useState", some (.blank, .blank, .ofWord "state")⟩ .empty
        (.more ⟨"\n  ".toList, forall_of_all (by decide)⟩ ⟨none, .ofWord "from", none⟩ .empty
          (.blank ⟨['\n'], forall_of_all (by decide)⟩))))
    before := .blank
    after := .blank }
  source :=
    { quote := '\''
      isQuote := .inr rfl
      text := "./hooks;//\x7b".toList
      closed := by decide
      line := by decide
      noFrom := by decide }
  semicolon? := some .empty

theorem Declaration.parse_text_spread : ∃ statement,
    Block.parse ("import type React, \x7b\n  type useState as state,\n  from,\n\x7d" ++
      " from './hooks;//\x7b';").toList = ⟨[], [statement], []⟩ ∧
        bindings statement.normal = ["React".toList, "state".toList, "from".toList] ∧
          specifier? statement.normal = some "./hooks;//\x7b".toList := by
  obtain ⟨statement, hparse, -, -, hnames, hsource⟩ := spread.parse_text
  exact ⟨statement, hparse, hnames, hsource⟩

end ImportBlock
