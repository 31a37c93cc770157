import ImportBlock.Line.Basic
import ImportBlock.Proofs.Text.Parts

namespace ImportBlock

open Text

namespace Line

def slashes : Text := ['/', '/']

theorem exists_of_beforeSlashes {quote : Option Char} {line code : Text}
    (h : beforeSlashes quote line = some code) :
    ∃ rest, line = code ++ slashes ++ rest ∧
      ∀ other, beforeSlashes quote (code ++ slashes ++ other) = some code := by
  induction line generalizing quote code with
  | nil => simp [beforeSlashes] at h
  | cons c line ih =>
    rw [beforeSlashes] at h
    split at h
    · next hstart =>
      cases h
      simp only [Bool.and_eq_true, beq_iff_eq] at hstart
      obtain ⟨⟨hquote, rfl⟩, hhead⟩ := hstart
      obtain ⟨rest, rfl⟩ : ∃ rest, line = '/' :: rest := by
        cases line with
        | nil => simp at hhead
        | cons d rest => exact ⟨rest, by simp_all⟩
      exact ⟨rest, rfl, fun other => by simp [slashes, beforeSlashes, hquote]⟩
    · next hstart =>
      obtain ⟨inner, found, rfl⟩ := Option.map_eq_some_iff.mp h
      obtain ⟨rest, rfl, hother⟩ := ih found
      refine ⟨rest, rfl, fun other => ?_⟩
      have hhead : ∀ more : Text, (inner ++ slashes ++ more).head? = (inner ++ slashes).head? := by
        intro more
        cases inner <;> rfl
      rw [List.cons_append, List.cons_append, beforeSlashes, hhead, ← hhead rest, if_neg hstart,
        hother]
      rfl

theorem codePart_of_not_includes {line : Text} (h : includes slashes line = false) :
    codePart line = line := by
  rw [codePart]
  split
  · next code found =>
    obtain ⟨rest, rfl, -⟩ := exists_of_beforeSlashes found
    rw [(includes_iff (by decide)).mpr ⟨code, rest, rfl⟩] at h
    contradiction
  · rfl

theorem mem_of_mem_codePart {line : Text} {c : Char} (h : c ∈ codePart line) : c ∈ line := by
  rw [codePart] at h
  split at h
  · next code found =>
    obtain ⟨rest, rfl, -⟩ := exists_of_beforeSlashes found
    have hcode := (isPrefix_dropEndWhile isWhite code).subset h
    simp [hcode]
  · exact h

theorem codePart_cons {c : Char} (stays : isWhite c = false) (quote : isQuote c = false)
    (slash : c ≠ '/') (rest : Text) : codePart (c :: rest) = c :: codePart rest := by
  have hcons : beforeSlashes none (c :: rest) = (beforeSlashes none rest).map (c :: ·) := by
    simp [beforeSlashes, slash, quoteAfter, quote]
  rw [codePart, codePart, hcons]
  cases beforeSlashes none rest with
  | none => rfl
  | some code => exact trimEnd_cons code stays

theorem beforeSlashes_trimEnd (quote : Option Char) (line : Text) :
    beforeSlashes quote (trimEnd line) = beforeSlashes quote line := by
  obtain ⟨run, hline, -⟩ := exists_append_dropEndWhile isWhite line
  cases hcode : beforeSlashes quote line with
  | some code =>
    obtain ⟨rest, rfl, hother⟩ := exists_of_beforeSlashes hcode
    obtain ⟨rest', hrest⟩ :
        ∃ rest', trimEnd (code ++ slashes ++ rest) = code ++ slashes ++ rest' := by
      rw [List.append_assoc, trimEnd_append ⟨'/', by simp [slashes], by decide⟩, slashes,
        List.cons_append, List.cons_append, trimEnd_cons _ (by decide), trimEnd_cons _ (by decide)]
      exact ⟨trimEnd rest, by simp⟩
    rw [hrest, hother]
  | none =>
    cases hshort : beforeSlashes quote (trimEnd line) with
    | none => rfl
    | some code =>
      obtain ⟨rest, heq, hother⟩ := exists_of_beforeSlashes hshort
      have hfull := hother (rest ++ run)
      rw [← List.append_assoc, ← heq] at hfull
      have hsame : trimEnd line ++ run = line := hline.symm
      rw [hsame, hcode] at hfull
      contradiction

theorem closesStatement_trimEnd {depth : Int} {line : Text}
    (h : closesStatement depth line = true) : closesStatement depth (trimEnd line) = true := by
  have hslashes := beforeSlashes_trimEnd none line
  simp only [closesStatement, codePart, hslashes] at h ⊢
  cases hcode : beforeSlashes none line with
  | some code => rwa [hcode] at h
  | none =>
    simp only [hcode, Bool.and_eq_true, Bool.or_eq_true] at h ⊢
    obtain ⟨hdepth, hend⟩ := h
    obtain ⟨run, hline, hrun⟩ := exists_append_dropEndWhile isWhite line
    refine ⟨hdepth, ?_⟩
    rcases hend with hsemicolon | hquote
    · left
      rw [List.contains_iff_mem] at hsemicolon ⊢
      rw [hline] at hsemicolon
      rcases List.mem_append.mp hsemicolon with hmem | hmem
      · exact hmem
      · exact absurd (hrun ';' hmem) (by decide)
    · right
      rcases List.eq_nil_or_concat' run with rfl | ⟨front, c, rfl⟩
      · have hsame : trimEnd line = line := by simpa [trimEnd] using hline.symm
        rwa [hsame]
      · rw [hline, ← List.append_assoc, List.getLast?_concat, Option.any_some] at hquote
        have hwhite := hrun c (by simp)
        simp only [isQuote, Bool.or_eq_true, beq_iff_eq] at hquote
        rcases hquote with (rfl | rfl) | rfl <;> exact absurd hwhite (by decide)

theorem braceSum_of_not_mem {line : Text} (quote : Option Char) (opening : '{' ∉ line)
    (closing : '}' ∉ line) : braceSum quote line = 0 := by
  induction line generalizing quote with
  | nil => rfl
  | cons c rest ih =>
    rw [List.mem_cons, not_or] at opening closing
    rw [braceSum, ih _ opening.2 closing.2, braceValue, if_neg (Ne.symm opening.1),
      if_neg (Ne.symm closing.1)]
    simp

theorem braceSum_append {upper : Text} (quotes : ∀ c ∈ upper, isQuote c = false) (lower : Text) :
    braceSum none (upper ++ lower) = braceSum none upper + braceSum none lower := by
  induction upper with
  | nil => simp [braceSum]
  | cons c upper ih =>
    rw [List.forall_mem_cons] at quotes
    rw [List.cons_append, braceSum, braceSum, quoteAfter, quotes.1]
    simp only [Bool.false_eq_true, if_false, ih quotes.2]
    omega

theorem braceSum_closed {quote : Char} {inside : Text} (closed : quote ∉ inside) (rest : Text) :
    braceSum (some quote) (inside ++ quote :: rest) = braceSum none rest := by
  induction inside with
  | nil => simp [braceSum, quoteAfter]
  | cons c inside ih =>
    rw [List.mem_cons, not_or] at closed
    simp [braceSum, quoteAfter, Ne.symm closed.1, ih closed.2]

theorem beforeSlashes_closed {quote : Char} {inside : Text} (closed : quote ∉ inside)
    (rest : Text) : beforeSlashes (some quote) (inside ++ quote :: rest) =
      (beforeSlashes none rest).map (inside ++ quote :: ·) := by
  induction inside with
  | nil => simp [beforeSlashes, quoteAfter]
  | cons c inside ih =>
    rw [List.mem_cons, not_or] at closed
    simp [beforeSlashes, quoteAfter, Ne.symm closed.1, ih closed.2, Function.comp_def]

theorem beforeSlashes_append {upper : Text} (plain : ∀ c ∈ upper, isQuote c = false ∧ c ≠ '/')
    (lower : Text) :
    beforeSlashes none (upper ++ lower) = (beforeSlashes none lower).map (upper ++ ·) := by
  induction upper with
  | nil => simp
  | cons c upper ih =>
    rw [List.forall_mem_cons] at plain
    simp [beforeSlashes, quoteAfter, plain.1, ih plain.2, Function.comp_def]

theorem braceDelta_of_not_mem {line : Text} (opening : '{' ∉ line) (closing : '}' ∉ line) :
    braceDelta line = 0 :=
  braceSum_of_not_mem none (fun member => opening (mem_of_mem_codePart member))
    fun member => closing (mem_of_mem_codePart member)

theorem braceDelta_closing {rest : Text} (opening : '{' ∉ rest) (closing : '}' ∉ rest) :
    braceDelta ('}' :: rest) = -1 := by
  have hrest := braceDelta_of_not_mem opening closing
  rw [braceDelta] at hrest
  have hquote : quoteAfter none '}' = none := by decide
  rw [braceDelta, codePart_cons (by decide) (by decide) (by decide), braceSum, hquote, hrest]
  rfl

theorem isImport_append {upper rest : Text} :
    isImport (upper ++ '{' :: rest) = isImport (upper ++ ['{']) := by
  rw [isImport, isImport, stripStart_append_of_not_mem (by decide),
    stripStart_append_of_not_mem (by decide)]
  cases stripStart importWord upper with
  | none => rfl
  | some more => cases more <;> rfl

theorem exists_of_isImport {line : Text} (h : isImport line = true) :
    ∃ rest, line = importWord ++ rest := by
  rw [isImport] at h
  split at h
  · contradiction
  · next found => exact ⟨[], eq_append_of_stripStart found⟩
  · next c rest found => exact ⟨c :: rest, eq_append_of_stripStart found⟩

end Line

namespace Mode

theorem read_import {line : Text} (h : Line.isImport line = true) :
    Mode.code.read line = (.opening, afterStatementLine (Line.braceDelta line) line) := by
  obtain ⟨rest, hline⟩ := Line.exists_of_isImport h
  have hnotEmpty : line.isEmpty = false := by
    rw [hline]
    rfl
  have hnotComment : Line.isComment line = false := by
    rw [hline]
    rfl
  simp [read, hnotEmpty, hnotComment, h]

theorem isImport_of_opening {line : Text} (h : (Mode.code.read line).1 = .opening) :
    Line.isImport line = true := by
  simp only [read] at h
  split at h
  · contradiction
  · split at h
    · split at h <;> contradiction
    · split at h
      · assumption
      · contradiction

end Mode
end ImportBlock
