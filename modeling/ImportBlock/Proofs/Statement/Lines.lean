import ImportBlock.Proofs.Line.Literal
import ImportBlock.Proofs.Region.Paired
import ImportBlock.Proofs.Statement.Normal

namespace ImportBlock

open Text Line

namespace Line

/-- Nothing is quoted here, no comment begins and no statement ends. -/
def Bare (text : Text) : Prop := ∀ c ∈ text, isQuote c = false ∧ c ≠ ';' ∧ c ≠ '/'

instance (text : Text) : Decidable (Bare text) :=
  List.decidableBAll _ text

theorem Bare.append {upper lower : Text} (hupper : Bare upper) (hlower : Bare lower) :
    Bare (upper ++ lower) :=
  List.forall_mem_append.mpr ⟨hupper, hlower⟩

theorem braceSum_white {text : Text} (quote : Option Char) (white : ∀ c ∈ text, isWhite c = true) :
    braceSum quote text = 0 := by
  apply braceSum_of_not_mem
  · intro hc
    exact absurd (white _ hc) (by decide)
  · intro hc
    exact absurd (white _ hc) (by decide)

namespace Bare

variable {line : Text} (bare : Bare line)

include bare

theorem quotes : ∀ c ∈ line, isQuote c = false := fun c hc => (bare c hc).1

theorem trim : Bare (trim line) := fun c hc => bare c (mem_of_mem_trim hc)

theorem trimStart : Bare (trimStart line) := fun c hc =>
  bare c ((List.dropWhile_suffix isWhite).subset hc)

theorem beforeSlashes_append (lower : Text) :
    beforeSlashes none (line ++ lower) = (beforeSlashes none lower).map (line ++ ·) :=
  Line.beforeSlashes_append (fun c hc => ⟨(bare c hc).1, (bare c hc).2.2⟩) lower

theorem codePart_eq : codePart line = line := by
  have hnone := bare.beforeSlashes_append []
  rw [List.append_nil] at hnone
  rw [codePart, hnone]
  rfl

theorem not_closes (depth : Int) : closesStatement depth line = false := by
  have hsemicolon : ';' ∉ line := fun hc => (bare _ hc).2.1 rfl
  have hlast : line.getLast?.any isQuote = false := by
    cases hend : line.getLast? with
    | none => rfl
    | some c => exact (bare c (List.mem_of_getLast? hend)).1
  simp [closesStatement, bare.codePart_eq, hsemicolon, hlast]

theorem braceSum_trimStart : braceSum none (Text.trimStart line) = braceSum none line := by
  have hline : line.takeWhile isWhite ++ Text.trimStart line = line :=
    List.takeWhile_append_dropWhile
  have hwhite : ∀ c ∈ line.takeWhile isWhite, isWhite c = true := fun c hc =>
    List.mem_takeWhile_imp hc
  have hquotes : ∀ c ∈ line.takeWhile isWhite, isQuote c = false := fun c hc =>
    bare.quotes c ((List.takeWhile_prefix isWhite).subset hc)
  conv_rhs => rw [← hline]
  rw [braceSum_append hquotes, braceSum_white none hwhite, Int.zero_add]

theorem braceDelta_trim : braceDelta (Text.trim line) = braceSum none line := by
  obtain ⟨run, hline, hrun⟩ := exists_append_dropEndWhile isWhite (Text.trimStart line)
  have hcut : Text.trimStart line = Text.trim line ++ run := hline
  rw [braceDelta, bare.trim.codePart_eq, ← bare.braceSum_trimStart, hcut,
    braceSum_append bare.trim.quotes, braceSum_white none hrun, Int.add_zero]

theorem braceSum_endLines (ls : List Text) : braceSum none (endLines (line :: ls)) =
    braceSum none line + braceSum none (endLines ls) := by
  have hlines : endLines (line :: ls) = line ++ '\n' :: endLines ls := by simp [endLines]
  have hfeed : braceSum none ('\n' :: endLines ls) = braceSum none (endLines ls) := by
    simp [braceSum, braceValue, quoteAfter, isQuote]
  rw [hlines, braceSum_append bare.quotes, hfeed]

end Bare
end Line

namespace Mode

theorem afterStatementLine_bare {line : Text} (bare : Bare line) (depth : Int) :
    afterStatementLine depth (trim line) = .statement depth := by
  rw [afterStatementLine, bare.trim.not_closes]
  rfl

theorem statementRun_concat {ls : List Text} {last : Text} {depth : Int}
    (bare : ∀ l ∈ ls, Bare l)
    (closes : closesStatement (depth + braceSum none (endLines ls) + braceDelta (trim last))
      (trim last) = true) : StatementRun (.statement depth) (ls ++ [last]) := by
  induction ls generalizing depth with
  | nil =>
    rw [List.nil_append, statementRun_cons]
    have hdepth : depth + braceSum none (endLines []) = depth := Int.add_zero depth
    rw [hdepth] at closes
    exact ⟨rfl, by rw [read, afterStatementLine, if_pos closes]; exact statementRun_nil⟩
  | cons l ls ih =>
    rw [List.forall_mem_cons] at bare
    rw [bare.1.braceSum_endLines, ← Int.add_assoc] at closes
    rw [List.cons_append, statementRun_cons]
    refine ⟨rfl, ?_⟩
    rw [read, bare.1.braceDelta_trim, afterStatementLine_bare bare.1]
    exact ih bare.2 closes

theorem StatementRun.of_trim {mode : Mode} {xs ys : List Text} (run : mode.StatementRun xs)
    (same : xs.map trim = ys.map trim) : mode.StatementRun ys := by
  refine ⟨?_, by rw [← after_of_map_trim mode same, run.2]⟩
  intro line hline
  have hmem := List.mem_map_of_mem (f := trimmed) hline
  rw [← map_trimmed_label mode same] at hmem
  obtain ⟨other, hother, heq⟩ := List.mem_map.mp hmem
  rw [← kind_trimmed, ← heq, kind_trimmed, run.1 other hother]

end Mode

namespace Statement

theorem wholeLines_concat {ls : List Text} {last : Text} (bare : ∀ l ∈ ls, Bare l)
    (opens : ∀ first ∈ (ls ++ [last]).head?, isImport (trim first) = true)
    (closes : closesStatement (braceSum none (endLines ls) + braceDelta (trim last))
      (trim last) = true) : WholeLines (ls ++ [last]) := by
  cases ls with
  | nil =>
    have hread := Mode.read_import (opens last rfl)
    have hdepth : braceSum none (endLines []) + braceDelta (trim last) = braceDelta (trim last) :=
      Int.zero_add _
    rw [hdepth] at closes
    rw [Mode.afterStatementLine, if_pos closes] at hread
    exact ⟨last, [], rfl, by rw [hread], by rw [hread]; exact Mode.statementRun_nil⟩
  | cons first ls =>
    rw [List.forall_mem_cons] at bare
    rw [bare.1.braceSum_endLines] at closes
    have hread := Mode.read_import (opens first rfl)
    rw [bare.1.braceDelta_trim, Mode.afterStatementLine_bare bare.1] at hread
    refine ⟨first, ls ++ [last], rfl, by rw [hread], ?_⟩
    rw [hread]
    exact Mode.statementRun_concat bare.2 closes

theorem WholeLines.of_trim {xs ys : List Text} (whole : WholeLines xs)
    (same : xs.map trim = ys.map trim) : WholeLines ys := by
  obtain ⟨first, rest, rfl, hopening, hrun⟩ := whole
  cases ys with
  | nil => simp at same
  | cons y ys =>
    simp only [List.map_cons, List.cons.injEq] at same
    rw [same.1] at hopening hrun
    exact ⟨y, ys, rfl, hopening, hrun.of_trim same.2⟩

end Statement

theorem Block.parse_whole {text : Text} (whole : Statement.WholeLines (lines text)) :
    parse text = ⟨[], [⟨[], lines text, 0⟩], []⟩ := by
  obtain ⟨line, more, hlabel, hopening, hcontinued⟩ := whole.label_eq
  have hopens : ∃ first rest, label .code (lines text) = first :: rest ∧ first.kind = .opening :=
    ⟨line, more, hlabel, hopening⟩
  have hinside : ∀ line ∈ label .code (lines text), line.kind ≠ .code := by
    rw [hlabel, List.forall_mem_cons]
    refine ⟨by simp [hopening], fun other hother => ?_⟩
    simp [hcontinued other hother]
  have hsplit : lines text = [] ++ lines text := rfl
  rw [parse_of_split [] hsplit rfl (List.forall_mem_nil _) hopens hinside]
  obtain ⟨first, rest, hlines, hfirst, hrun⟩ := whole
  rw [hlines, Below.read_cons, hfirst, Below.read_continued _ _ _ hrun.1]
  simp [Below.add, Below.empty, label]

namespace Statement

theorem Draft.foldl_white_write {written white : Text} (h : ∀ c ∈ white, isWhite c = true) :
    white.foldl write (write ⟨written, none⟩ ' ') = write ⟨written, none⟩ ' ' := by
  have hmore : ∀ c ∈ ' ' :: white, isWhite c = true :=
    List.forall_mem_cons.mpr ⟨by decide, h⟩
  have hfold : (' ' :: white).foldl write ⟨written, none⟩ = write ⟨written, none⟩ ' ' :=
    foldl_write_white (List.cons_ne_nil _ _) hmore
  rwa [List.foldl_cons] at hfold

theorem filter_trim_concat (upper : List Text) {last : Text} (ne : trim last ≠ []) :
    ((upper ++ [last]).map trim).filter (!·.isEmpty) =
      (upper.map trim).filter (!·.isEmpty) ++ [trim last] := by
  rw [List.map_append, List.filter_append, List.map_singleton,
    List.filter_cons_of_pos (by simpa using ne), List.filter_nil]

/-- Lines without outer white space, joined by spaces, are written as the text that they make up. -/
theorem foldl_joined {ls : List Text} {last : Text} (written : Text) (bare : ∀ l ∈ ls, Bare l)
    (stop : ∃ init c, last = init ++ [c] ∧ isWhite c = false) :
    (joinWith [' '] (((ls ++ [last]).map trim).filter (!·.isEmpty))).foldl Draft.write
        (Draft.write ⟨written, none⟩ ' ') =
      (endLines ls ++ last).foldl Draft.write (Draft.write ⟨written, none⟩ ' ') := by
  -- Ahead of each line stands a space already, so that white space above it adds nothing.
  obtain ⟨htrim, hne⟩ := trim_of_last stop
  simp only [filter_trim_concat _ hne]
  induction ls generalizing written with
  | nil =>
    have hcut : last.takeWhile isWhite ++ trimStart last = last := List.takeWhile_append_dropWhile
    have hwhite : ∀ c ∈ last.takeWhile isWhite, isWhite c = true := fun c hc =>
      List.mem_takeWhile_imp hc
    rw [List.map_nil, List.filter_nil, List.nil_append, joinWith, htrim]
    conv_rhs => rw [endLines, List.flatMap_nil, List.nil_append, ← hcut, List.foldl_append,
      Draft.foldl_white_write hwhite]
  | cons l ls ih =>
    rw [List.forall_mem_cons] at bare
    obtain ⟨above, below, hl, habove, hbelow⟩ := exists_eq_trim l
    have hbreak : ∀ c ∈ below ++ ['\n'], isWhite c = true :=
      List.forall_mem_append.mpr ⟨hbelow, List.forall_mem_singleton.mpr (by decide)⟩
    have hcut : endLines (l :: ls) ++ last =
        above ++ (trim l ++ ((below ++ ['\n']) ++ (endLines ls ++ last))) := by
      conv_lhs => rw [hl]
      simp [endLines]
    rw [hcut, List.foldl_append, Draft.foldl_white_write habove, List.foldl_append]
    by_cases hnil : trim l = []
    · rw [List.map_cons, List.filter_cons_of_neg (by simp [hnil]), hnil, List.foldl_nil,
        List.foldl_append, Draft.foldl_white_write hbreak, ih written bare.2]
    · have hquote := Draft.quote_foldl_write (Draft.write ⟨written, none⟩ ' ').written
        bare.1.trim.quotes
      have hspaced : Draft.write ⟨written, none⟩ ' ' =
          ⟨(Draft.write ⟨written, none⟩ ' ').written, none⟩ := rfl
      rw [← hspaced] at hquote
      rw [List.map_cons, List.filter_cons_of_pos (by simpa using hnil), List.cons_append,
        joinWith_cons (by simp), List.foldl_append, List.foldl_append]
      generalize (trim l).foldl Draft.write (Draft.write ⟨written, none⟩ ' ') = draft at hquote
      obtain ⟨more, quote⟩ := draft
      dsimp only at hquote
      subst hquote
      rw [List.foldl_append, Draft.foldl_write_white (by simp) hbreak]
      exact ih more bare.2

theorem normal_of_concat {statement : Statement} {ls : List Text} {last : Text}
    (same : statement.lines.map trim = (ls ++ [last]).map trim) (bare : ∀ l ∈ ls, Bare l)
    (stop : ∃ init c, last = init ++ [c] ∧ isWhite c = false) :
    statement.normal = normalize (endLines ls ++ last) := by
  have hempty : Draft.write ⟨[], none⟩ ' ' = ⟨[], none⟩ := rfl
  have hjoined := foldl_joined [] bare stop
  rw [hempty] at hjoined
  rw [normal, same, normalize, hjoined, normalize]

end Statement
end ImportBlock
