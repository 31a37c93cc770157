import ImportBlock.Proofs.Declaration.Parse

/-! Which declarations are dropped as unused, with a comment behind them or without. -/

namespace ImportBlock

open Text Line Statement

/-- A `//` comment on the line of a declaration. -/
structure Remark where
  gap : LineGap
  words : Text
  line : '\n' ∉ words

namespace Remark

def comment (remark : Remark) : Text := slashes ++ trimEnd remark.words

def text (remark : Remark) : Text := remark.gap.text ++ (slashes ++ remark.words)

theorem solid_comment (remark : Remark) : Solid remark.comment := by
  refine ⟨⟨'/', _, rfl, by decide⟩, ?_⟩
  rcases List.eq_nil_or_concat' (trimEnd remark.words) with hnil | ⟨init, c, hwords⟩
  · exact ⟨['/'], '/', by rw [comment, hnil]; rfl, by decide⟩
  · exact ⟨slashes ++ init, c, by rw [comment, hwords, List.append_assoc],
      not_last_dropEndWhile hwords⟩

theorem trim_append (remark : Remark) (upper : Text) {lower : Text} (solid : Solid lower) :
    trim (upper ++ (lower ++ remark.text)) =
      trimStart upper ++ (lower ++ remark.gap.text ++ remark.comment) := by
  obtain ⟨run, hwords, hrun⟩ := exists_append_dropEndWhile isWhite remark.words
  have hcut : upper ++ (lower ++ remark.text) =
      upper ++ (lower ++ remark.gap.text ++ remark.comment) ++ run := by
    have hsame : trimEnd remark.words ++ run = remark.words := hwords.symm
    conv_lhs => rw [text, ← hsame]
    simp only [comment, List.append_assoc]
  rw [hcut, trim_append_white hrun, (solid.append _ remark.solid_comment).trim_append]

theorem feed (remark : Remark) : '\n' ∉ remark.text := by
  simp only [text, List.mem_append, not_or]
  exact ⟨remark.gap.line, by decide, remark.line⟩

end Remark

def remarkText : Option Remark → Text
  | none => []
  | some remark => remark.text

namespace Statement.Draft

theorem exists_dropComma {c : Char} (comma : c ≠ ',') (inner : Text) :
    ∃ more, ∀ base, dropComma (inner ++ c :: base) = more ++ c :: base := by
  cases inner with
  | nil =>
    refine ⟨[], fun base => ?_⟩
    rw [List.nil_append, dropComma]
    rintro rest heq
    exact comma (List.cons.inj heq).1
  | cons d inner =>
    by_cases hd : d = ','
    · exact ⟨inner, fun base => by rw [hd]; rfl⟩
    · refine ⟨d :: inner, fun base => ?_⟩
      rw [List.cons_append, dropComma]
      rintro rest heq
      exact hd (List.cons.inj heq).1

theorem exists_separate (c : Char) (inner : Text) :
    ∃ more, ∀ base, separate (inner ++ c :: base) = more ++ c :: base := by
  cases inner with
  | nil =>
    refine ⟨if c = '{' ∨ c = ',' ∨ c = '}' then [' '] else [], fun base => ?_⟩
    rw [List.nil_append, separate_cons]
    split <;> rfl
  | cons d inner =>
    refine ⟨if d = '{' ∨ d = ',' ∨ d = '}' then ' ' :: d :: inner else d :: inner, ?_⟩
    intro base
    rw [List.cons_append, separate_cons]
    split <;> rfl

section Base

variable {c : Char} (space : c ≠ ' ') (comma : c ≠ ',')

include space

theorem dropSpaces_append (inner base : Text) :
    dropSpaces (inner ++ c :: base) = dropSpaces inner ++ c :: base := by
  simp only [dropSpaces, List.dropWhile_append]
  split
  · next hnil => simp [List.isEmpty_iff.mp hnil, space]
  · rfl

theorem finish_append (inner base : Text) (quote : Option Char) :
    finish ⟨inner ++ c :: base, quote⟩ = base.reverse ++ c :: (dropSpaces inner).reverse := by
  rw [finish, dropSpaces_append space]
  simp

include comma

theorem exists_write (inner : Text) (quote : Option Char) (d : Char) :
    ∃ more after, ∀ base, write ⟨inner ++ c :: base, quote⟩ d = ⟨more ++ c :: base, after⟩ := by
  cases quote with
  | some quote => exact ⟨d :: inner, quoteAfter (some quote) d, fun _ => rfl⟩
  | none =>
    by_cases hwhite : isWhite d = true
    · refine ⟨if (inner ++ [c]).head?.all (· == ' ') then inner else ' ' :: inner, none, ?_⟩
      intro base
      have hhead : (inner ++ c :: base).head? = (inner ++ [c]).head? := by cases inner <;> rfl
      simp only [write, hwhite, if_true, hhead]
      split <;> rfl
    · by_cases hcomma : d = ','
      · subst hcomma
        refine ⟨',' :: dropSpaces inner, none, fun base => ?_⟩
        simp only [write, dropSpaces_append space]
        rfl
      · by_cases hbrace : d = '}'
        · subst hbrace
          obtain ⟨more, hmore⟩ := exists_dropComma comma (dropSpaces inner)
          refine ⟨'}' :: ' ' :: more, none, fun base => ?_⟩
          simp only [write, dropSpaces_append space, hmore]
          rfl
        · obtain ⟨more, hmore⟩ := exists_separate c inner
          refine ⟨d :: more, quoteAfter none d, fun base => ?_⟩
          simp only [write, hwhite, hcomma, hbrace, hmore]
          rfl

theorem exists_foldl (text inner : Text) (quote : Option Char) :
    ∃ more after, ∀ base, text.foldl write ⟨inner ++ c :: base, quote⟩ =
      ⟨more ++ c :: base, after⟩ := by
  induction text generalizing inner quote with
  | nil => exact ⟨inner, quote, fun _ => rfl⟩
  | cons d text ih =>
    obtain ⟨next, open?, hstep⟩ := exists_write space comma inner quote d
    obtain ⟨more, after, hrest⟩ := ih next open?
    exact ⟨more, after, fun base => by rw [List.foldl_cons, hstep, hrest]⟩

end Base
end Statement.Draft

namespace Declaration

variable (declaration : Declaration)

theorem write_slash {spaces : Text} (h : spaces = [] ∨ spaces = [' ']) :
    Draft.write ⟨spaces ++ declaration.spelling.reverse, none⟩ '/' =
      ⟨[] ++ '/' :: (spaces ++ declaration.spelling.reverse), none⟩ := by
  obtain ⟨init, c, hlast, hc⟩ := declaration.exists_last
  have hplain : ¬(c = '{' ∨ c = ',' ∨ c = '}') := by
    rintro (rfl | rfl | rfl) <;> exact absurd hc (by decide)
  have hseparate : Draft.separate (spaces ++ declaration.spelling.reverse) =
      spaces ++ declaration.spelling.reverse := by
    rcases h with rfl | rfl
    · rw [List.nil_append, hlast, List.reverse_append, List.reverse_singleton,
        List.singleton_append, Draft.separate_cons, if_neg hplain]
    · rfl
  have hwhite : isWhite '/' = false := by decide
  simp [Draft.write, hwhite, hseparate, quoteAfter, isQuote]

/-- A comment is spelt behind the declaration, a space ahead of it if there is any white space. -/
theorem normalize_commented (gap : LineGap) (rest : Text) :
    ∃ words, Statement.normalize ('/' :: rest) = '/' :: words ∧
      Statement.normalize (declaration.text ++ gap.text ++ '/' :: rest) =
        declaration.spelling ++ ((if gap.text = [] then [] else [' ']) ++ '/' :: words) := by
  have hspace : '/' ≠ ' ' := by decide
  obtain ⟨more, quote, hfold⟩ := Draft.exists_foldl hspace (by decide) rest [] none
  refine ⟨(Draft.dropSpaces more).reverse, ?_, ?_⟩
  · have hslash : Draft.write ⟨[], none⟩ '/' = ⟨[] ++ '/' :: [], none⟩ := rfl
    rw [Statement.normalize, List.foldl_cons, hslash, hfold, Draft.finish_append hspace]
    rfl
  · have hgap : gap.text.foldl Draft.write ⟨declaration.spelling.reverse, none⟩ =
        ⟨(if gap.text = [] then [] else [' ']) ++ declaration.spelling.reverse, none⟩ := by
      split
      · next hnil => rw [hnil]; rfl
      · next hne =>
        have hfirm : _ = (⟨' ' :: (declaration.spelling.reverse ++ []), none⟩ : Draft) :=
          Draft.foldl_space declaration.firm_spelling ⟨gap.toGap, hne⟩
        rw [List.append_nil] at hfirm
        exact hfirm
    rw [Statement.normalize, List.foldl_append, List.foldl_append, declaration.foldl_text, hgap,
      List.foldl_cons, declaration.write_slash (by split <;> simp), hfold,
      Draft.finish_append hspace]
    split <;> simp

theorem normalize_remarked (remark : Remark) :
    ∃ words, Statement.normalize remark.comment = '/' :: words ∧
      Statement.normalize (declaration.text ++ remark.gap.text ++ remark.comment) =
        declaration.spelling ++
          ((if remark.gap.text = [] then [] else [' ']) ++ '/' :: words) :=
  declaration.normalize_commented remark.gap ('/' :: trimEnd remark.words)

theorem codePart_remarked {last : Text} (bare : Bare last) (remark : Remark) :
    codePart (trim (last ++ (declaration.tail ++ remark.text))) =
      trimStart last ++ declaration.tail := by
  have htail := declaration.solid_tail
  have hcomment : beforeSlashes none remark.comment = some [] := rfl
  have hslashes : beforeSlashes none (trimStart last ++
      (declaration.tail ++ remark.gap.text ++ remark.comment)) =
        some (trimStart last ++ declaration.tail ++ remark.gap.text) := by
    rw [bare.trimStart.beforeSlashes_append, List.append_assoc, declaration.beforeSlashes_tail,
      remark.gap.neutral.bare.beforeSlashes_append, hcomment]
    simp
  have hend : trimEnd (trimStart last ++ declaration.tail ++ remark.gap.text) =
      trimEnd (trimStart last ++ declaration.tail) :=
    dropEndWhile_append_of_all remark.gap.white
  rw [remark.trim_append _ htail, codePart, hslashes]
  exact hend.trans (htail.trimEnd_append _)

theorem exists_statement_remarked (line : '\n' ∉ declaration.text) (remark : Remark) :
    ∃ statement, Block.parse (declaration.text ++ remark.text) = ⟨[], [statement], []⟩ ∧
      statement.normal =
        Statement.normalize (declaration.text ++ remark.gap.text ++ remark.comment) := by
  obtain ⟨ls, last, hlines⟩ := declaration.exists_headLines
  have htail := declaration.solid_tail
  have hcode := declaration.codePart_remarked hlines.bare.2 remark
  have hwhole := hlines.wholeLines remark.feed hcode
  refine ⟨_, Block.parse_whole hwhole, ?_⟩
  have hone : lines (declaration.text ++ remark.text) = [declaration.text ++ remark.text] := by
    apply lines_last
    · rw [List.mem_append, not_or]
      exact ⟨line, remark.feed⟩
    · simp [← declaration.head_append_tail, htail.ne_nil]
  have hstart : trimStart declaration.head = declaration.head :=
    List.dropWhile_cons_of_neg (by decide)
  have htrim : trim (declaration.text ++ remark.text) =
      declaration.text ++ remark.gap.text ++ remark.comment := by
    have hremark := remark.trim_append declaration.head htail
    rw [hstart, ← List.append_assoc, ← List.append_assoc, ← List.append_assoc,
      declaration.head_append_tail] at hremark
    exact hremark
  have hne : declaration.text ++ remark.gap.text ++ remark.comment ≠ [] := by
    simp [← declaration.head_append_tail, htail.ne_nil]
  rw [Statement.normal, hone, List.map_singleton, htrim,
    List.filter_cons_of_pos (by simpa using hne), List.filter_nil, joinWith]

theorem isUnused_iff {statement : Statement} {names : List Text} {source : Text}
    (hnames : bindings statement.normal = names)
    (hsource : specifier? statement.normal = some source) (unused : List Text) :
    statement.isUnused unused = true ↔ names ≠ [] ∧ (∀ name ∈ names, name ∈ unused) ∨
      names.length = 1 ∧ source ∈ unused := by
  simp only [isUnused, hnames, hsource, Bool.and_eq_true, Bool.or_eq_true, List.all_eq_true,
    Bool.not_eq_true', List.isEmpty_eq_false_iff, beq_iff_eq, Option.any_some,
    List.contains_iff_mem]
  constructor
  · rintro ⟨hne, hall | hone⟩
    · exact .inl ⟨hne, hall⟩
    · exact .inr hone
  · rintro (⟨hne, hall⟩ | ⟨hone, hmem⟩)
    · exact ⟨hne, .inl hall⟩
    · refine ⟨?_, .inr ⟨hone, hmem⟩⟩
      rintro rfl
      contradiction

/-- A declaration is dropped if all its names are unused, or if it has one name and its module is
unused. A remark without ` from ` does not count. -/
theorem prune_eq_nil_iff (line : '\n' ∉ declaration.text) (remark? : Option Remark)
    (free : ∀ remark ∈ remark?, includes fromWord (Statement.normalize remark.comment) = false)
    (unused : List Text) : ∃ statement,
      Block.parse (declaration.text ++ remarkText remark?) = ⟨[], [statement], []⟩ ∧
        (prune unused [statement] = [] ↔
          declaration.names ≠ [] ∧ (∀ name ∈ declaration.names, name ∈ unused) ∨
            declaration.names.length = 1 ∧ declaration.source.text ∈ unused) := by
  obtain ⟨statement, extra, hparse, hnormal, hextra⟩ : ∃ statement extra,
      Block.parse (declaration.text ++ remarkText remark?) = ⟨[], [statement], []⟩ ∧
        statement.normal = declaration.spelling ++ extra ∧ includes fromWord extra = false := by
    cases remark? with
    | none =>
      obtain ⟨statement, hparse, -, -, hnormal⟩ := declaration.exists_statement
      rw [← List.append_nil declaration.text] at hparse
      exact ⟨statement, [], hparse, by rw [hnormal, List.append_nil], rfl⟩
    | some remark =>
      obtain ⟨statement, hparse, hnormal⟩ := declaration.exists_statement_remarked line remark
      obtain ⟨words, hcomment, hspelling⟩ := declaration.normalize_remarked remark
      refine ⟨statement, _, hparse, hnormal.trans hspelling, ?_⟩
      have hfree := free remark rfl
      have hwords : ∀ spaces : Text, includes fromWord (spaces ++ '/' :: words) =
          (includes fromWord spaces || includes fromWord words) :=
        fun spaces => includes_append (by decide) (by decide) spaces words
      rw [hcomment, ← List.nil_append ('/' :: words), hwords] at hfree
      rw [hwords]
      split <;> exact hfree
  have hbindings := declaration.bindings_spelling hextra
  have hspecifier := declaration.specifier?_spelling hextra
  rw [← hnormal] at hbindings hspecifier
  refine ⟨statement, hparse, ?_⟩
  rw [← isUnused_iff hbindings hspecifier]
  simp [prune]

def lodash : Declaration where
  space := .blank
  front? := some ⟨none, .name (.ofWord "_"), .blank, .blank⟩
  source :=
    { quote := '"'
      isQuote := .inl rfl
      text := "lodash".toList
      closed := by decide
      line := by decide
      noFrom := by decide }
  semicolon? := some .empty

def wanted : Remark := ⟨⟨Space.blank.toGap, by decide⟩, " wanted".toList, by decide⟩

/-- A module reported as unused takes its one name with it. -/
theorem prune_eq_nil_iff_lodash :
    '\n' ∉ lodash.text ∧ includes fromWord (Statement.normalize wanted.comment) = false ∧
      ∃ statement,
        Block.parse "import _ from \"lodash\"; // wanted".toList = ⟨[], [statement], []⟩ ∧
        prune ["lodash".toList] [statement] = [] ∧ prune ["wanted".toList] [statement] ≠ [] := by
  have hline : '\n' ∉ lodash.text := by decide +kernel
  have hfree : includes fromWord (Statement.normalize wanted.comment) = false := by decide +kernel
  have hfree' : ∀ remark ∈ some wanted,
      includes fromWord (Statement.normalize remark.comment) = false := by
    intro remark member
    cases member
    exact hfree
  obtain ⟨statement, hparse, hdropped⟩ :=
    lodash.prune_eq_nil_iff hline (some wanted) hfree' ["lodash".toList]
  obtain ⟨other, hother, hkept⟩ :=
    lodash.prune_eq_nil_iff hline (some wanted) hfree' ["wanted".toList]
  obtain rfl : statement = other := by simpa [hparse] using hother
  refine ⟨hline, hfree, statement, hparse, hdropped.mpr ?_, fun hnil => ?_⟩
  · exact .inr ⟨rfl, by decide⟩
  · exact absurd (hkept.mp hnil) (by decide +kernel)

def effect : Declaration where
  space := .blank
  front? := none
  source := { lodash.source with
    text := "./setup".toList
    closed := by decide
    line := by decide
    noFrom := by decide }
  semicolon? := some .empty

def misleading : Remark := ⟨⟨Space.blank.toGap, by decide⟩, " from \"x\"".toList, by decide⟩

/-- Behind a remark with ` from ` even an import for its effect is dropped. -/
theorem dropped_effect :
    let text := "import \"./setup\"; // from \"x\"".toList
    text = effect.text ++ remarkText (some misleading) ∧ '\n' ∉ effect.text ∧
      effect.semicolon?.isSome = true ∧ effect.names = [] ∧
      Block.parse text = ⟨[], [⟨[], [text], 0⟩], []⟩ ∧ prune [['x']] [⟨[], [text], 0⟩] = [] := by
  decide +kernel

end Declaration
end ImportBlock
