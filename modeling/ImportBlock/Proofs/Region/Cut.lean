import ImportBlock.Region
import ImportBlock.Proofs.Line.Label

/-! The import block as the lines between a header and what stands below. -/

namespace ImportBlock

open Text

namespace Line

def AllHeader : List Line → Prop
  | [] => True
  | line :: rest => line.inHeader true = true ∧ ∀ l ∈ rest, l.inHeader false = true

theorem inHeader_of_not_top {line : Line} (h : line.inHeader false = true) (top : Bool) :
    line.inHeader top = true := by
  simp only [inHeader] at h ⊢
  split at h <;> simp_all

theorem inHeader_of_isCommentKind {line : Line} (h : line.isCommentKind = true) :
    line.inHeader false = true := by
  rcases exists_kind_of_isCommentKind h with ⟨done, hkind⟩
  rw [inHeader, hkind]

theorem inBlock_of_isCommentKind {line : Line} (h : line.isCommentKind = true) :
    line.inBlock = true := by
  rcases exists_kind_of_isCommentKind h with ⟨done, hkind⟩
  rw [inBlock, hkind]

theorem allHeader_iff {lines : List Line} : AllHeader lines ↔
    (∀ line ∈ lines, line.inHeader true = true) ∧
      ∀ line ∈ lines.tail, line.inHeader false = true := by
  cases lines with
  | nil => simp [AllHeader]
  | cons first rest =>
    rw [List.forall_mem_cons, List.tail_cons, AllHeader]
    constructor
    · intro h
      exact ⟨⟨h.1, fun line member => inHeader_of_not_top (h.2 line member) true⟩, h.2⟩
    · intro h
      exact ⟨h.1.1, h.2⟩

namespace AllHeader

theorem sublist {lines more : List Line} (h : AllHeader more) (sub : lines.Sublist more) :
    AllHeader lines := by
  rw [allHeader_iff] at h ⊢
  exact ⟨fun line member => h.1 line (sub.subset member),
    fun line member => h.2 line (sub.tail.subset member)⟩

theorem append {upper lower : List Line} (h : AllHeader upper)
    (hlower : ∀ line ∈ lower, line.inHeader false = true) : AllHeader (upper ++ lower) := by
  cases upper with
  | nil =>
    cases lower with
    | nil => trivial
    | cons first rest =>
      rw [List.forall_mem_cons] at hlower
      exact ⟨inHeader_of_not_top hlower.1 true, hlower.2⟩
  | cons first rest =>
    refine ⟨h.1, ?_⟩
    intro line member
    rcases List.mem_append.mp member with hmem | hmem
    · exact h.2 line hmem
    · exact hlower line hmem

end AllHeader

theorem splitHeader_of_allHeader {header : List Line} (h : AllHeader header) {first : Line}
    {rest : List Line} (opening : first.kind = .opening) :
    Region.splitHeader (header ++ first :: rest) = (header, first :: rest) := by
  have hstop : ∀ top, first.inHeader top = false := by simp [inHeader, opening]
  cases header with
  | nil => simp [Region.splitHeader, hstop]
  | cons line header =>
    rw [List.cons_append, Region.splitHeader, if_pos h.1]
    rw [List.takeWhile_append_of_pos h.2, List.dropWhile_append_of_pos h.2]
    simp [hstop]

theorem allHeader_splitHeader (lines : List Line) : AllHeader (Region.splitHeader lines).1 := by
  cases lines with
  | nil => trivial
  | cons line rest =>
    rw [Region.splitHeader]
    split
    · next h => exact ⟨h, fun l member => List.mem_takeWhile_imp member⟩
    · trivial

theorem not_header_splitHeader {lines rest : List Line} {first : Line}
    (h : (Region.splitHeader lines).2 = first :: rest) : first.inHeader false = false := by
  cases lines with
  | nil => simp [Region.splitHeader] at h
  | cons line more =>
    rw [Region.splitHeader] at h
    split at h
    · have hhead := List.head?_dropWhile_not (Line.inHeader false) more
      have hcut : more.dropWhile (·.inHeader false) = first :: rest := h
      rw [hcut] at hhead
      exact hhead
    · next hline =>
      rcases List.cons.inj h with ⟨rfl, -⟩
      simp only [inHeader] at hline ⊢
      split <;> simp_all

theorem inHeader_trimmed (top : Bool) (line : Line) :
    line.trimmed.inHeader top = line.inHeader top := by
  simp only [inHeader, trimmed, trim_trim]

theorem inBlock_trimmed (line : Line) : line.trimmed.inBlock = line.inBlock := rfl

theorem isFiller_trimmed (line : Line) : line.trimmed.isFiller = line.isFiller := rfl

theorem allHeader_trimmed {lines : List Line} :
    AllHeader (lines.map trimmed) ↔ AllHeader lines := by
  cases lines with
  | nil => rfl
  | cons line rest => simp [AllHeader, inHeader_trimmed]

theorem isFiller_of_inHeader {top : Bool} {line : Line} (header : line.inHeader top = false)
    (block : line.inBlock = true) : line.isFiller = false := by
  simp only [inHeader, inBlock, isFiller] at *
  split <;> simp_all

end Line

namespace Region

open Line

/-- Lines from an opening one to the last line of a statement. Reading starts afresh with them. -/
structure IsBlock (block : List Text) : Prop where
  opens : ∃ first rest, label .code block = first :: rest ∧ first.kind = .opening
  inside : ∀ line ∈ label .code block, line.inBlock = true
  ends : ∀ front last, label .code block = front ++ [last] → last.isFiller = false

/-- The lines above the block, of the block and below it. -/
structure Cut (header block below : List Text) : Prop extends IsBlock block where
  settled : Mode.after .code header = .code
  header : AllHeader (label .code header)
  stops : ∀ line ∈ (label (Mode.after .code block) below).takeWhile inBlock, line.isFiller = true

variable {header block below : List Text}

namespace IsBlock

theorem ne_nil (h : IsBlock block) : block ≠ [] := by
  rcases h.opens with ⟨first, rest, hlabel, -⟩
  intro hnil
  simp [hnil, label] at hlabel

theorem ne_code (h : IsBlock block) : ∀ line ∈ label .code block, line.kind ≠ .code := by
  intro line member hcode
  have hinside := h.inside line member
  simp [inBlock, hcode] at hinside

theorem of_trim {block' : List Text} (h : IsBlock block)
    (same : block.map trim = block'.map trim) : IsBlock block' where
  opens := by
    rcases h.opens with ⟨first, rest, hlabel, hkind⟩
    have hmap := map_trimmed_label .code same
    rw [hlabel, List.map_cons] at hmap
    rcases List.map_eq_cons_iff.mp hmap.symm with ⟨first', rest', hlabel', hfirst, -⟩
    refine ⟨first', rest', hlabel', ?_⟩
    rw [← kind_trimmed first', hfirst, kind_trimmed, hkind]
  inside := by
    intro line member
    have hmem := List.mem_map_of_mem (f := trimmed) member
    rw [← map_trimmed_label .code same] at hmem
    rcases List.mem_map.mp hmem with ⟨line', member', heq⟩
    rw [← inBlock_trimmed, ← heq, inBlock_trimmed]
    exact h.inside line' member'
  ends := by
    intro front last hlabel
    have hmap := map_trimmed_label .code same
    rw [hlabel, List.map_append, List.map_singleton] at hmap
    rcases List.map_eq_append_iff.mp hmap with ⟨front', tail, hlabel', -, htail⟩
    rcases List.map_eq_singleton_iff.mp htail with ⟨last', rfl, hlast⟩
    rw [← isFiller_trimmed, ← hlast, isFiller_trimmed]
    exact h.ends front' last' hlabel'

theorem open_of_blank_last {ls : List Text} {l : Text} (h : IsBlock (ls ++ [l]))
    (blank : trim l = []) : (Mode.after .code ls).inStatement = true := by
  have hfiller := h.ends (label .code ls) ⟨((Mode.after .code ls).read []).1, l⟩
    (by simp only [label_append, label, blank])
  generalize Mode.after .code ls = mode at hfiller
  cases mode with
  | code => simp [Mode.read, isFiller] at hfiller
  | comment => simp [Mode.read, splitFirst, isFiller] at hfiller
  | statement depth => rfl

theorem of_blank_last {ls : List Text} {l : Text} (h : IsBlock (ls ++ [l])) (blank : trim l = []) :
    IsBlock ls := by
  have hstatement := h.open_of_blank_last blank
  refine ⟨?_, ?_, ?_⟩
  · rcases h.opens with ⟨first, rest, hall, hkind⟩
    cases hls : label .code ls with
    | nil =>
      rw [label_eq_nil_iff.mp hls] at hstatement
      simp [Mode.after, Mode.inStatement] at hstatement
    | cons line more =>
      rw [label_append, hls, List.cons_append, List.cons.injEq] at hall
      exact ⟨line, more, rfl, hall.1 ▸ hkind⟩
  · intro line member
    exact h.inside line (label_append .code ls [l] ▸ List.mem_append_left _ member)
  · intro front last hls
    rcases last_of_inStatement hls hstatement with hkind | hkind <;> simp [isFiller, hkind]

/-- The last line ends in code unless it leaves its statement open. -/
theorem after_eq_code (h : IsBlock block) (closed : (Mode.after .code block).inStatement = false) :
    Mode.after .code block = .code := by
  rcases h.opens with ⟨first, rest, hlabel, -⟩
  obtain ⟨front, last, hlast⟩ :=
    (List.eq_nil_or_concat' (label .code block)).resolve_left (by simp [hlabel])
  have hfiller := h.ends front last hlast
  have hreads := reads_last hlast
  generalize Mode.after .code (front.map Line.text) = mode at hreads
  generalize Mode.after .code block = next at closed hreads ⊢
  rcases last with ⟨kind, text⟩
  dsimp only at hreads
  cases hreads <;> simp_all [isFiller, Mode.inStatement]

theorem last_ne_nil {ls : List Text} {l : Text} (h : IsBlock (ls ++ [l]))
    (closed : Mode.after .code (ls ++ [l]) = .code) : trim l ≠ [] := by
  intro blank
  have hstatement := h.open_of_blank_last blank
  rw [Mode.after_append] at closed
  generalize Mode.after .code ls = mode at hstatement closed
  cases mode with
  | code | comment => simp [Mode.inStatement] at hstatement
  | statement depth =>
    simp [Mode.after, blank, Mode.read, Mode.afterStatementLine, closesStatement, codePart,
      beforeSlashes] at closed

end IsBlock

namespace Cut

theorem of_trim {header' block' below' : List Text} (cut : Cut header block below)
    (hheader : header.map trim = header'.map trim) (hblock : block.map trim = block'.map trim)
    (hbelow : below.map trim = below'.map trim) : Cut header' block' below' where
  toIsBlock := cut.toIsBlock.of_trim hblock
  settled := by rw [← after_of_map_trim .code hheader, cut.settled]
  header := by
    rw [← allHeader_trimmed, ← map_trimmed_label .code hheader, allHeader_trimmed]
    exact cut.header
  stops := by
    rw [← after_of_map_trim .code hblock]
    exact forall_takeWhile_of_prefix inBlock_trimmed isFiller_trimmed
      (hbelow ▸ List.prefix_rfl) cut.stops

theorem closed (cut : Cut header block below) (ne : below ≠ []) :
    Mode.after .code block = .code := by
  apply cut.toIsBlock.after_eq_code
  have hstops := cut.stops
  obtain ⟨line, more, rfl⟩ := List.exists_cons_of_ne_nil ne
  generalize Mode.after .code block = mode at hstops
  cases mode with
  | code | comment => rfl
  | statement depth =>
    have hfirst := hstops ⟨.continued, line⟩ (by
      rw [label, List.takeWhile_cons_of_pos rfl]
      exact List.mem_cons_self)
    contradiction

end Cut

theorem settled_of_opening {header : List Text} (header_ok : AllHeader (label .code header))
    {first : Line} {rest : List Line} {texts : List Text}
    (h : label (Mode.after .code header) texts = first :: rest)
    (notHeader : first.inHeader false = false)
    (inside : first.inBlock = true) : Mode.after .code header = .code ∧ first.kind = .opening := by
  have hstatement : (Mode.after .code header).inStatement = false := by
    by_contra hopen
    rw [Bool.not_eq_false] at hopen
    rcases List.eq_nil_or_concat' (label .code header) with hnil | ⟨front, last, hlast⟩
    · rw [label_eq_nil_iff.mp hnil] at hopen
      simp [Mode.after, Mode.inStatement] at hopen
    · have hkind := last_of_inStatement hlast hopen
      have hmem : ∃ top, last.inHeader top = true := by
        rw [hlast] at header_ok
        cases front with
        | nil => exact ⟨true, header_ok.1⟩
        | cons line front => exact ⟨false, header_ok.2 last (by simp)⟩
      rcases hmem with ⟨top, hlast⟩
      rcases hkind with hkind | hkind <;> simp [inHeader, hkind] at hlast
  have hfiller := isFiller_of_inHeader notHeader inside
  cases texts with
  | nil => simp [label] at h
  | cons text texts =>
    simp only [label, List.cons.injEq] at h
    rcases h with ⟨rfl, -⟩
    apply (Mode.reads_read _ (trim text)).of_not_inStatement hstatement
    simp only [isFiller, inBlock] at hfiller inside
    split at hfiller <;> simp_all

/-- A block ends above the fillers that could still stand in it. -/
theorem exists_fillers (rest : List Line) : ∃ fillers,
    rest = dropEndWhile isFiller (rest.takeWhile inBlock) ++ (fillers ++ rest.dropWhile inBlock) ∧
      (∀ line ∈ dropEndWhile isFiller (rest.takeWhile inBlock), line.inBlock = true) ∧
      ∀ line ∈ (fillers ++ rest.dropWhile inBlock).takeWhile inBlock, line.isFiller = true := by
  obtain ⟨fillers, hfill, hfillers⟩ := exists_append_dropEndWhile isFiller (rest.takeWhile inBlock)
  have hinside : ∀ line ∈ dropEndWhile isFiller (rest.takeWhile inBlock) ++ fillers,
      line.inBlock = true := by
    rw [← hfill]
    exact fun line member => List.mem_takeWhile_imp member
  have hstops : (fillers ++ rest.dropWhile inBlock).takeWhile inBlock = fillers := by
    rw [List.takeWhile_append_of_pos fun line member =>
        hinside line (List.mem_append_right _ member),
      List.takeWhile_eq_nil_iff.mpr, List.append_nil]
    exact List.dropWhile_get_zero_not inBlock rest
  refine ⟨fillers, ?_, fun line member => hinside line (List.mem_append_left _ member), ?_⟩
  · rw [← List.append_assoc, ← hfill, List.takeWhile_append_dropWhile]
  · rw [hstops]
    exact hfillers

theorem exists_cut_of_find? {text : Text} {region : Region} (found : find? text = some region) :
    ∃ header block below, pieces text = header ++ block ++ below ∧ Cut header block below ∧
      region.before = header.flatten ∧ region.block = flattenContent block := by
  rw [find?] at found
  have hsplit := append_splitHeader (label .code (pieces text))
  have hheader := allHeader_splitHeader (label .code (pieces text))
  have hfirst := @not_header_splitHeader (label .code (pieces text))
  generalize splitHeader (label .code (pieces text)) = cut at found hsplit hheader hfirst
  rcases cut with ⟨above, rest⟩
  dsimp only at found hsplit hheader hfirst
  obtain ⟨fillers, hrest, hinside, hstops⟩ := exists_fillers rest
  have hlast := @not_last_dropEndWhile _ isFiller (rest.takeWhile inBlock)
  generalize dropEndWhile isFiller (rest.takeWhile inBlock) = body at found hrest hinside hlast
  split at found
  · simp at found
  next hbody =>
  obtain ⟨first, more, rfl⟩ : ∃ first more, body = first :: more :=
    List.exists_cons_of_ne_nil (by simpa using hbody)
  rw [hrest] at hsplit
  obtain ⟨htexts, habove, hlower⟩ := label_eq_append hsplit.symm
  obtain ⟨hlowerTexts, hblock, hbelow⟩ := label_eq_append hlower.symm
  rw [habove] at hheader
  obtain ⟨settled, opens⟩ := settled_of_opening hheader hlower.symm
    (hfirst hrest) (hinside first List.mem_cons_self)
  rw [settled] at hblock hbelow
  refine ⟨above.map Line.text, (first :: more).map Line.text,
    (fillers ++ rest.dropWhile inBlock).map Line.text, ?_, ?_, ?_⟩
  · rw [htexts, hlowerTexts]
    simp only [List.append_assoc]
  · refine ⟨⟨⟨first, more, hblock.symm, opens⟩, ?_, ?_⟩, settled, hheader, ?_⟩
    · rw [← hblock]
      exact hinside
    · rw [← hblock]
      exact fun front last => hlast
    · rw [← hbelow]
      exact hstops
  · cases found
    exact ⟨rfl, rfl⟩

theorem find?_of_cut {text : Text} {header block below : List Text}
    (split : pieces text = header ++ block ++ below) (cut : Cut header block below) :
    find? text = some ⟨header.flatten, flattenContent block,
      text.drop (header.flatten ++ flattenContent block).length⟩ := by
  rcases cut.opens with ⟨first, rest, hlabel, hkind⟩
  have hlines : label .code (pieces text) =
      label .code header ++ first :: (rest ++ label (Mode.after .code block) below) := by
    rw [split, label_append, label_append, cut.settled, Mode.after_append, cut.settled, hlabel,
      List.append_assoc, List.cons_append]
  have htake : (first :: (rest ++ label (Mode.after .code block) below)).takeWhile inBlock =
      label .code block ++ (label (Mode.after .code block) below).takeWhile inBlock := by
    rw [← List.cons_append, ← hlabel, List.takeWhile_append_of_pos cut.inside]
  have hdrop : dropEndWhile isFiller (label .code block ++
      (label (Mode.after .code block) below).takeWhile inBlock) = label .code block := by
    rw [dropEndWhile_append_of_all cut.stops]
    apply List.rdropWhile_eq_self_iff.mpr
    intro hne hfiller
    have hsnoc := (List.dropLast_append_getLast hne).symm
    rw [cut.ends _ _ hsnoc] at hfiller
    contradiction
  rw [find?, hlines, splitHeader_of_allHeader cut.header hkind]
  dsimp only
  rw [htake, hdrop, map_text_label, map_text_label, if_neg]
  rw [List.isEmpty_iff, label_eq_nil_iff]
  exact cut.ne_nil

end Region
end ImportBlock
