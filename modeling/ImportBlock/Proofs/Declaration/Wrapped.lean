import ImportBlock.Proofs.Declaration.Listing
import ImportBlock.Proofs.Format.Wrapping

namespace ImportBlock

open Text Line Layout

namespace Line

theorem terminates_append {upper : Text} (bare : Bare upper) (rest : Text) :
    terminates (upper ++ '}' :: rest) = terminates ('}' :: rest) := by
  have hclosing : codePart ('}' :: rest) = '}' :: codePart rest :=
    codePart_cons (by decide) (by decide) (by decide) rest
  have hcode : codePart (upper ++ '}' :: rest) = upper ++ codePart ('}' :: rest) := by
    rw [codePart, codePart, bare.beforeSlashes_append]
    cases hslashes : beforeSlashes none ('}' :: rest) with
    | none => rfl
    | some code =>
      obtain ⟨more, hmore, -⟩ := exists_of_beforeSlashes hslashes
      have hbrace : '}' ∈ code := by
        cases code with
        | nil => exact absurd (List.cons.inj hmore).1 (by decide)
        | cons c code => rw [(List.cons.inj hmore).1]; exact List.mem_cons_self
      exact trimEnd_append ⟨'}', hbrace, by decide⟩
  have hsemicolon : ';' ∉ upper := fun hc => (bare _ hc).2.1 rfl
  have hcontains : (upper ++ codePart ('}' :: rest)).contains ';' =
      (codePart ('}' :: rest)).contains ';' := by
    simp [hsemicolon]
  rw [terminates, terminates, hcode, hcontains, hclosing,
    List.getLast?_append_of_ne_nil _ (List.cons_ne_nil _ _)]

theorem braceSum_eq_count {text : Text} (quotes : ∀ c ∈ text, isQuote c = false) :
    braceSum none text = text.count '{' - text.count '}' := by
  induction text with
  | nil => rfl
  | cons c rest ih =>
    rw [List.forall_mem_cons] at quotes
    rw [braceSum, quoteAfter, quotes.1, List.count_cons, List.count_cons]
    simp only [Bool.false_eq_true, if_false, Option.isNone_none, if_true, ih quotes.2, braceValue,
      beq_iff_eq]
    by_cases hopening : c = '{'
    · subst hopening
      simp
      omega
    · by_cases hclosing : c = '}'
      · subst hclosing
        simp
        omega
      · simp [hopening, hclosing]

end Line

namespace Layout

variable {before inside after upper lower : Text}

theorem bare_of_neutral (braced : Braced before inside after) (neutral : Neutral upper)
    (free : '{' ∉ lower) (same : bracedLine before inside after = upper ++ lower) :
    Bare (before ++ '{' :: inside) := by
  have hline : bracedLine before inside after =
      (before ++ '{' :: inside) ++ '}' :: after := by simp [bracedLine]
  rw [hline, List.append_eq_append_iff] at same
  rcases same with ⟨more, rfl, -⟩ | ⟨more, hupper, rfl⟩
  · exact (List.forall_mem_append.mp neutral.bare).1
  · -- The part up to the closing brace would end behind the neutral one, which closes a brace.
    exfalso
    have hopening : '{' ∈ upper := by
      have hmem : '{' ∈ upper ++ more := by simp [← hupper]
      rw [List.mem_append] at free hmem
      exact hmem.resolve_right fun hc => free (.inl hc)
    have hclosing : upper.count '}' = 0 := by
      rw [List.count_eq_zero]
      intro hc
      have hmem : '}' ∈ before ++ '{' :: inside := hupper ▸ List.mem_append_left _ hc
      simp [braced.upper.2, braced.within.2] at hmem
    have hbalance := neutral.balance
    have hcount := List.count_pos_iff.mpr hopening
    rw [braceSum_eq_count neutral.bare.quotes] at hbalance
    omega

theorem steady_of_bare (bare : Bare (before ++ '{' :: inside))
    (whole : Statement.WholeLines [bracedLine before inside after]) :
    Steady before inside after where
  quotes := bare.quotes
  slashes := by
    apply not_includes_of_count (c := '/')
    rw [List.count_eq_zero.mpr fun hc => (bare _ hc).2.2 rfl]
    decide
  closes := by
    obtain ⟨first, rest, hlines, hopens, hrun⟩ := whole
    obtain ⟨rfl, rfl⟩ := List.cons.inj hlines
    have himport := Mode.isImport_of_opening hopens
    have hcloses : closesStatement (braceDelta (trim (bracedLine before inside after)))
        (trim (bracedLine before inside after)) = true := by
      have hcode := hrun.2
      rw [Mode.read_import himport, Mode.after, Mode.afterStatementLine] at hcode
      by_contra hopen
      rw [if_neg hopen] at hcode
      contradiction
    have htrim : trim (bracedLine before inside after) =
        (trimStart before ++ '{' :: inside) ++ '}' :: trimEnd after := by
      rw [trim_bracedLine, List.append_assoc, List.cons_append]
    have hupper : Bare (trimStart before ++ '{' :: inside) := by
      obtain ⟨hbefore, hinside⟩ := List.forall_mem_append.mp bare
      exact Bare.append (Bare.trimStart hbefore) hinside
    rw [closesStatement_iff, htrim, terminates_append hupper] at hcloses
    exact closesStatement_iff.mpr ⟨Int.le_refl 0, hcloses.2⟩

end Layout

namespace Statement

/-- A declaration with nothing but white space ahead of it and at most a comment behind it. If the
statement is wrapped, its braces are not those of a specifier or a comment. -/
def IsDeclared (settings : Settings) (statement : Statement) : Prop :=
  ∃ (indent : LineGap) (declaration : Declaration) (postscript : Postscript),
    statement.rawText = indent.text ++ (declaration.text ++ postscript.text) ∧
      ((wrap settings statement).isSome = true →
        '{' ∉ declaration.source.text ∧ '{' ∉ postscript.text)

theorem isDeclared_of_texts {settings : Settings} {statements : List Statement}
    (declared : List (Declaration × Postscript))
    (same : statements.map rawText =
      declared.map fun pair => pair.1.text ++ pair.2.text)
    (free : ∀ pair ∈ declared, '{' ∉ pair.1.source.text ∧ '{' ∉ pair.2.text) :
    ∀ statement ∈ statements, statement.IsDeclared settings := by
  intro statement member
  have htext := same ▸ List.mem_map_of_mem member
  obtain ⟨pair, hpair, hsame⟩ := List.mem_map.mp htext
  exact ⟨.empty, pair.1, pair.2, hsame.symm, fun _ => free pair hpair⟩

theorem IsDeclared.whole_written {settings : Settings} {statement : Statement}
    (declared : statement.IsDeclared settings) (whole : statement.Whole) :
    (statement.written settings).Whole := by
  cases hwrap : wrap settings statement with
  | none => rwa [Format.written_eq_self hwrap]
  | some ls =>
    obtain ⟨before, inside, after, hbraced, hlines, rfl⟩ := exists_of_wrap hwrap
    obtain ⟨indent, declaration, postscript, htext, hfree⟩ := declared
    obtain ⟨hsource, hpostscript⟩ := hfree (by rw [hwrap]; rfl)
    have htail : '{' ∉ declaration.tail ++ postscript.text := by
      have hquote : '{' ≠ declaration.source.quote := by
        rcases declaration.source.isQuote with h | h <;> rw [h] <;> decide
      have hsemicolon : '{' ∉ Declaration.semicolonText declaration.semicolon? := fun hc =>
        (Declaration.plain_semicolonText declaration.semicolon? _ hc).2 (by decide)
      simp [Declaration.tail, Literal.spelling, hquote, hsource, hsemicolon, hpostscript]
    have hsame : bracedLine before inside after =
        (indent.text ++ declaration.head) ++ (declaration.tail ++ postscript.text) := by
      have hraw : statement.rawText = bracedLine before inside after := by
        rw [rawText, hlines]
        rfl
      rw [← hraw, htext, ← declaration.head_append_tail]
      simp only [List.append_assoc]
    have hbare := bare_of_neutral hbraced (indent.neutral.append declaration.neutral_head) htail
      hsame
    have hline := hlines ▸ whole.lines
    rw [written, hwrap, Option.getD_some]
    exact ⟨whole.comments, wholeLines_bracedLines hbraced (steady_of_bare hbare hline) hline⟩

end Statement
end ImportBlock
