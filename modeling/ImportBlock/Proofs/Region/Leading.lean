import ImportBlock.Proofs.Region.Cut
import ImportBlock.Proofs.Region.Grammar

/-! The block that is found is the one that the grammar of lines tells, and no text has another. -/

namespace ImportBlock

open Text

namespace Line

theorem read_code {line : Text} {c : Char} (head : line.head? = some c)
    (plain : c ≠ '/' ∧ c ≠ 'i') : Mode.code.read line = (.code, .code) := by
  obtain ⟨rest, rfl⟩ : ∃ rest, line = c :: rest := by
    cases line with
    | nil => contradiction
    | cons d rest => exact ⟨rest, by rw [Option.some.inj head]⟩
  have hcomment : isComment (c :: rest) = false := by
    unfold isComment
    split <;> simp_all
  have himport : isImport (c :: rest) = false := by
    simp [isImport, importWord, stripStart, plain.2.symm]
  simp [Mode.read, hcomment, himport]

theorem read_directive {line : Text} (h : isDirective line = true) :
    Mode.code.read line = (.code, .code) := by
  rw [isDirective] at h
  split at h
  · next quote c rest hbody =>
    obtain ⟨run, hrun⟩ := (isPrefix_dropEndWhile isWhite _).trans
      (isPrefix_dropEndWhile (· == ';') line)
    have hhead : line.head? = some quote := by
      rw [← hrun]
      have hsame : dropEndWhile isWhite (dropEndWhile (· == ';') line) = quote :: c :: rest := hbody
      rw [hsame]
      rfl
    simp only [Bool.and_eq_true, Bool.or_eq_true, beq_iff_eq] at h
    rcases h.1.1 with rfl | rfl
    · exact read_code hhead (by decide)
    · exact read_code hhead (by decide)
  · contradiction

theorem read_shebang {line : Text} (h : isShebang line = true) :
    Mode.code.read line = (.code, .code) := by
  obtain ⟨rest, hrest⟩ := Option.isSome_iff_exists.mp h
  have hline := eq_append_of_stripStart hrest
  exact read_code (c := '#') (by rw [hline]; rfl) (by decide)

theorem inHeader_of_isFiller {line : Line} (h : line.isFiller = true) :
    line.inHeader false = true := by
  simp only [isFiller, inHeader] at h ⊢
  split at h <;> simp_all

theorem inBlock_of_isFiller {line : Line} (h : line.isFiller = true) : line.inBlock = true := by
  simp only [isFiller, inBlock] at h ⊢
  split at h <;> simp_all

theorem StartsImport.label {ls : List Text} (h : StartsImport ls) :
    ∃ first rest, Line.label .code ls = first :: rest ∧ first.kind = .opening := by
  obtain ⟨first, rest, rfl, himport⟩ := h
  exact ⟨⟨.opening, first⟩, _, by rw [Line.label, Mode.read_import himport], rfl⟩

theorem eq_nil_of_inHeader {ls : List Text} (stop : Halts isDirective ls ∨ StartsImport ls)
    (header : ∀ line ∈ label .code ls, line.inHeader false = true)
    (settled : Mode.after .code ls = .code) : ls = [] := by
  rcases stop with hhalts | himport
  · rcases hhalts.label with ⟨front, last, rest, hlabel, -, hlast⟩ | ⟨-, hnil⟩
    · have hheader := header last (by simp [hlabel])
      rcases hlast with ⟨hkind, -, hrefused⟩ | hkind
      · simp [inHeader, hkind, hrefused] at hheader
      · simp [inHeader, hkind] at hheader
    · exact hnil settled
  · obtain ⟨first, rest, hlabel, hkind⟩ := himport.label
    have hheader := header first (by simp [hlabel])
    simp [inHeader, hkind] at hheader

theorem Loose.header {ls : List Text} (h : Loose isDirective ls) :
    (∀ line ∈ Line.label .code ls, line.inHeader false = true) ∧ Mode.after .code ls = .code := by
  obtain ⟨hafter, hkinds⟩ := Loose.label h fun _ => read_directive
  refine ⟨fun line member => ?_, hafter⟩
  rcases hkinds line member with hfiller | ⟨hkind, hdirective⟩
  · exact inHeader_of_isFiller hfiller
  · simp [inHeader, hkind, hdirective]

theorem loose_of_header {ls : List Text}
    (header : ∀ line ∈ label .code ls, line.inHeader false = true)
    (settled : Mode.after .code ls = .code) : Loose isDirective ls := by
  obtain ⟨upper, lower, rfl, hloose, hstop⟩ := exists_loose isDirective ls
  rw [label_append, hloose.header.2, List.forall_mem_append] at header
  rw [Mode.after_append, hloose.header.2] at settled
  rwa [eq_nil_of_inHeader hstop header.2 settled, List.append_nil]

/-- What the grammar lets stand above the imports is what the reader lets stand there. -/
theorem header_iff {ls : List Text} :
    Header ls ↔ AllHeader (label .code ls) ∧ Mode.after .code ls = .code := by
  constructor
  · intro h
    cases h with
    | plain loose =>
      obtain ⟨hheader, hafter⟩ := loose.header
      have hnone : AllHeader [] := trivial
      exact ⟨hnone.append hheader, hafter⟩
    | @shebang l ls shebang loose =>
      obtain ⟨hheader, hafter⟩ := loose.header
      have hread := read_shebang shebang
      rw [label, Mode.after, hread]
      exact ⟨⟨by simp [inHeader, shebang], hheader⟩, hafter⟩
  · rintro ⟨hheader, hafter⟩
    cases ls with
    | nil => exact .plain .nil
    | cons l ls =>
      by_cases hshebang : isShebang (trim l) = true
      · have hread := read_shebang hshebang
        rw [label, hread] at hheader
        rw [Mode.after, hread] at hafter
        exact .shebang hshebang (loose_of_header hheader.2 hafter)
      · apply Header.plain
        refine loose_of_header (List.forall_mem_cons.mpr ⟨?_, hheader.2⟩) hafter
        have hfirst := hheader.1
        simp only [inHeader, hshebang] at hfirst ⊢
        split at hfirst <;> simp_all

theorem IsStatement.label {ls : List Text} (h : IsStatement ls) :
    (∃ first rest, Line.label .code ls = first :: rest ∧ first.kind = .opening ∧
      ∀ line ∈ rest, line.kind = .continued) ∧ Mode.after .code ls = .code :=
  ⟨h.wholeLines.label_eq, h.wholeLines.after_eq⟩

theorem Halts.stops {ls : List Text} (h : Halts (fun _ => false) ls) :
    ∀ line ∈ (Line.label .code ls).takeWhile inBlock, line.isFiller = true := by
  have hcomment : ∀ line : Line, line.kind = .comment false → line.isFiller = true := by
    intro line hkind
    rw [isFiller, hkind]
  rcases h.label with ⟨front, last, rest, hlabel, hfront, hlast⟩ | ⟨hkinds, -⟩
  · have hstop : last.inBlock = false := by
      rcases hlast with ⟨hkind, -⟩ | hkind <;> rw [inBlock, hkind]
    rw [hlabel, List.takeWhile_append_of_pos
      fun line member => inBlock_of_isFiller (hcomment line (hfront line member)),
      List.takeWhile_cons_of_neg (by simp [hstop]), List.append_nil]
    exact fun line member => hcomment line (hfront line member)
  · exact fun line member => hcomment line (hkinds line ((List.takeWhile_prefix _).subset member))

end Line

namespace Region

open Line

theorem IsBlock.startsImport {block : List Text} (h : IsBlock block) : StartsImport block := by
  obtain ⟨first, rest, hlabel, hkind⟩ := h.opens
  cases block with
  | nil => simp [label] at hlabel
  | cons l block =>
    rw [label, List.cons.injEq] at hlabel
    exact ⟨l, block, rfl, Mode.isImport_of_opening (by rw [← hkind, ← hlabel.1])⟩

theorem isBlock_of_label {ls : List Text}
    (h : ∃ first rest, label .code ls = first :: rest ∧ first.kind = .opening ∧
      ∀ line ∈ rest, line.kind = .continued) : IsBlock ls := by
  obtain ⟨first, rest, hlabel, hfirst, hrest⟩ := h
  have hkind : ∀ line ∈ label .code ls, line.kind = .opening ∨ line.kind = .continued := by
    rw [hlabel, List.forall_mem_cons]
    exact ⟨.inl hfirst, fun line member => .inr (hrest line member)⟩
  refine ⟨⟨first, rest, hlabel, hfirst⟩, ?_, ?_⟩
  · intro line member
    rcases hkind line member with h | h <;> rw [inBlock, h]
  · intro front last hlast
    rcases hkind last (by simp [hlast]) with h | h <;> rw [isFiller, h]

theorem IsBlock.append {upper gap lower : List Text} (above : IsBlock upper)
    (settled : Mode.after .code upper = .code) (fillers : Fillers gap) (below : IsBlock lower) :
    IsBlock (upper ++ gap ++ lower) := by
  obtain ⟨hgap, hfillers⟩ := fillers.label
  have hlabel : label .code (upper ++ gap ++ lower) =
      label .code upper ++ label .code gap ++ label .code lower := by
    rw [label_append, label_append, Mode.after_append, settled, hgap]
  refine ⟨?_, ?_, ?_⟩
  · obtain ⟨first, rest, hupper, hkind⟩ := above.opens
    exact ⟨first, rest ++ label .code gap ++ label .code lower, by rw [hlabel, hupper]; rfl, hkind⟩
  · rw [hlabel, List.forall_mem_append, List.forall_mem_append]
    exact ⟨⟨above.inside, fun line member => inBlock_of_isFiller (hfillers line member)⟩,
      below.inside⟩
  · intro front last hlast
    obtain ⟨front', last', hlower⟩ := (List.eq_nil_or_concat' (label .code lower)).resolve_left
      (by simp [label_eq_nil_iff, below.ne_nil])
    rw [hlabel, hlower, ← List.append_assoc] at hlast
    obtain ⟨-, hsame⟩ := List.append_inj' hlast rfl
    rw [← List.singleton_inj.mp hsame]
    exact below.ends front' last' hlower

end Region

namespace Line

open Region

theorem Imports.isBlock {block below : List Text} (imports : Imports block below) :
    IsBlock block ∧
      ∀ line ∈ (Line.label (Mode.after .code block) below).takeWhile inBlock,
        line.isFiller = true := by
  induction imports with
  | @last ls gap rest statement fillers halts =>
    obtain ⟨hlabel, hafter⟩ := statement.label
    obtain ⟨hgap, hfillers⟩ := fillers.label
    refine ⟨isBlock_of_label hlabel, ?_⟩
    rw [hafter, label_append, hgap, List.takeWhile_append_of_pos
      fun line member => inBlock_of_isFiller (hfillers line member), List.forall_mem_append]
    exact ⟨hfillers, halts.stops⟩
  | unfinished statement => exact ⟨isBlock_of_label statement.label.1, by simp [Line.label]⟩
  | @more ls gap block below statement fillers _ ih =>
    obtain ⟨hlabel, hafter⟩ := statement.label
    refine ⟨(isBlock_of_label hlabel).append hafter fillers ih.1, ?_⟩
    rw [Mode.after_append, Mode.after_append, hafter, fillers.label.1]
    exact ih.2

theorem Imports.cut {header block below : List Text} (imports : Imports block below)
    (above : Header header) : Cut header block below where
  toIsBlock := imports.isBlock.1
  settled := (header_iff.mp above).2
  header := (header_iff.mp above).1
  stops := imports.isBlock.2

theorem exists_imports {ls : List Text} (opens : StartsImport ls) :
    ∃ block below, ls = block ++ below ∧ Imports block below := by
  induction hn : ls.length using Nat.strong_induction_on generalizing ls with
  | _ n ih =>
    subst hn
    rcases statement_cases 0 ls with ⟨hnever, -⟩ | ⟨upper, lower, rfl, hends, hfirst, hrun⟩
    · exact ⟨ls, [], (List.append_nil ls).symm, .unfinished ⟨opens, hnever⟩⟩
    · have hne : upper ≠ [] := by
        rintro rfl
        exact not_endsFrom_nil 0 hends
      have hopens : StartsImport upper := by
        obtain ⟨first, rest, hlines, himport⟩ := opens
        obtain ⟨line, more, rfl⟩ := List.exists_cons_of_ne_nil hne
        rw [List.cons_append, List.cons.injEq] at hlines
        exact ⟨line, more, rfl, by rw [hlines.1]; exact himport⟩
      have hstatement : IsStatement upper := ⟨hopens, hends, hfirst⟩
      obtain ⟨gap, rest, rfl, hgap, hstop⟩ := exists_loose (fun _ => false) lower
      rcases hstop with hhalts | himport
      · exact ⟨upper, gap ++ rest, rfl, .last hstatement hgap hhalts⟩
      · have hshort : rest.length < (upper ++ (gap ++ rest)).length := by
          have hpos := List.length_pos_iff.mpr hne
          simp only [List.length_append]
          omega
        obtain ⟨block, below, rfl, himports⟩ := ih rest.length hshort himport rfl
        exact ⟨upper ++ gap ++ block, below, by simp, .more hstatement hgap himports⟩

end Line

namespace Region

open Line

theorem find?_of_grammar {text : Text} {header rest : List Text}
    (lines : pieces text = header ++ rest) (above : Header header) (opens : StartsImport rest) :
    ∃ block below, rest = block ++ below ∧ Imports block below ∧
      find? text = some ⟨header.flatten, flattenContent block,
        text.drop (header.flatten ++ flattenContent block).length⟩ := by
  obtain ⟨block, below, rfl, himports⟩ := exists_imports opens
  rw [← List.append_assoc] at lines
  exact ⟨block, below, rfl, himports, find?_of_cut lines (himports.cut above)⟩

theorem header_of_find? {text : Text} {region : Region} (found : find? text = some region) :
    ∃ header rest, pieces text = header ++ rest ∧ Header header ∧ StartsImport rest := by
  obtain ⟨header, block, below, hlines, hcut, -⟩ := exists_cut_of_find? found
  obtain ⟨first, rest, rfl, himport⟩ := hcut.toIsBlock.startsImport
  exact ⟨header, first :: rest ++ below, by rw [hlines, List.append_assoc],
    header_iff.mpr ⟨hcut.header, hcut.settled⟩, first, rest ++ below, rfl, himport⟩

/-- A block is found where an import line stands below a header, and the block is the one of the
grammar: statement after statement, as far as they go. -/
theorem find?_leading (text : Text) :
    (find? text = none ↔
      ¬ ∃ header rest, pieces text = header ++ rest ∧ Header header ∧ StartsImport rest) ∧
    ∀ region, find? text = some region ↔ ∃ header block below,
      pieces text = header ++ block ++ below ∧ Header header ∧ Imports block below ∧
        region.before = header.flatten ∧ region.block = flattenContent block ∧
        region.text = text := by
  constructor
  · constructor
    · rintro hnone ⟨header, rest, hlines, habove, hopens⟩
      obtain ⟨block, below, -, -, hfound⟩ := find?_of_grammar hlines habove hopens
      rw [hnone] at hfound
      contradiction
    · intro hno
      rw [Option.eq_none_iff_forall_ne_some]
      exact fun region found => hno (header_of_find? found)
  · intro region
    constructor
    · intro found
      obtain ⟨header, rest, hlines, habove, hopens⟩ := header_of_find? found
      obtain ⟨block, below, rfl, himports, hfound⟩ := find?_of_grammar hlines habove hopens
      rw [found] at hfound
      cases hfound
      exact ⟨header, block, below, by rw [hlines, List.append_assoc], habove, himports, rfl, rfl,
        text_of_find? found⟩
    · rintro ⟨header, block, below, hlines, habove, himports, hbefore, hblock, htext⟩
      rw [find?_of_cut hlines (himports.cut habove), ← hbefore, ← hblock]
      have hafter : text.drop (region.before ++ region.block).length = region.after := by
        rw [← htext, Region.text, List.drop_left]
      rw [hafter]

end Region
end ImportBlock
