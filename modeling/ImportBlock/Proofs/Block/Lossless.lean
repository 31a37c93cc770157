import ImportBlock.Proofs.Block.Parts

/-! Every line that is read comes back at its place, blank lines between statements apart. -/

namespace ImportBlock

open Text Line

namespace Statement

def place (statement : Statement) : Nat × List Text := (statement.firstLine, statement.lines)

end Statement

namespace Block

namespace Below

def addPart (below : Below) (n : Nat) : Part → Below
  | .blank _ | .code _ => below
  | .comment ls => ls.foldr (fun text below => below.addComment text) below
  | .statement ls => { below with statements := ⟨[], ls, n⟩ :: below.statements }

def ofParts : Nat → List Part → Below
  | _, [] => empty
  | n, part :: rest => (ofParts (n + part.lines.length) rest).addPart n part

section Comments

variable (below : Below) (ls : List Text)

theorem continued_foldr :
    (ls.foldr (fun text below => below.addComment text) below).continued = below.continued := by
  induction ls with
  | nil => rfl
  | cons l ls ih => exact (continued_addComment _ l).trans ih

theorem map_place_foldr :
    (ls.foldr (fun text below => below.addComment text) below).statements.map Statement.place =
      below.statements.map Statement.place := by
  induction ls with
  | nil => rfl
  | cons l ls ih => exact (map_addComment _ l fun _ _ => rfl).trans ih

theorem texts_foldr (none : below.continued = []) :
    (ls.foldr (fun text below => below.addComment text) below).texts = ls ++ below.texts := by
  induction ls with
  | nil => rfl
  | cons l ls ih =>
    rw [List.foldr_cons, texts_addComment l ((continued_foldr below ls).trans none), ih]
    rfl

theorem read_foldr {mode : Mode} {n : Nat}
    (h : ∀ line ∈ label mode ls, line.kind = .mixed ∨ ∃ done, line.kind = .comment done) :
    below.read mode n ls = ls.foldr (fun text below => below.addComment text) below := by
  induction ls generalizing mode n with
  | nil => rfl
  | cons l ls ih =>
    simp only [label, List.mem_cons, forall_eq_or_imp] at h
    rw [read_cons, ih h.2, List.foldr_cons, add]
    rcases h.1 with hkind | ⟨done, hkind⟩
    · rw [hkind]
    · rw [hkind]

end Comments

theorem continued_ofParts (n : Nat) (parts : List Part) : (ofParts n parts).continued = [] := by
  induction parts generalizing n with
  | nil => rfl
  | cons part rest ih =>
    cases part with
    | comment ls => exact (continued_foldr _ ls).trans (ih _)
    | blank | statement | code => exact ih _

theorem read_part (below : Below) (n : Nat) {part : Part}
    (labelled : part.Labelled (label .code part.lines)) (none : below.continued = []) :
    below.read .code n part.lines = below.addPart n part := by
  cases part with
  | blank l | code l =>
    rw [read, labelled]
    rfl
  | comment ls => exact read_foldr below ls labelled
  | statement ls =>
    obtain ⟨first, rest, hlabel, hopening, hrest⟩ := labelled
    cases ls with
    | nil => contradiction
    | cons l more =>
      simp only [Part.lines, label, List.cons.injEq] at hlabel
      obtain ⟨rfl, rfl⟩ := hlabel
      dsimp only at hopening
      rw [Part.lines, read_cons, hopening, read_continued _ _ _ hrest]
      simp [add, addPart, none]

theorem read_parts (n : Nat) {parts : List Part} (sequence : Part.Sequence parts) :
    empty.read .code n (parts.flatMap Part.lines) = ofParts n parts := by
  induction sequence generalizing n with
  | nil => rfl
  | @endless part endless =>
    rw [List.flatMap_singleton, read_part empty n endless.label rfl]
    rfl
  | @cons part rest ended _ ih =>
    obtain ⟨hafter, hlabel⟩ := ended.label
    rw [List.flatMap_cons, read_append, hafter, ih, read_part _ n hlabel (continued_ofParts _ _)]
    rfl

theorem texts_ofParts (n : Nat) {parts : List Part}
    (noCode : ∀ part ∈ parts, part.isCode = false) :
    (ofParts n parts).texts = parts.flatMap Part.kept := by
  induction parts generalizing n with
  | nil => rfl
  | cons part rest ih =>
    rw [List.forall_mem_cons] at noCode
    have hrest := ih (n + part.lines.length) noCode.2
    have hnone := continued_ofParts (n + part.lines.length) rest
    rw [List.flatMap_cons, ← hrest, ofParts]
    cases part with
    | blank => rfl
    | code => simp [Part.isCode] at noCode
    | comment ls => exact texts_foldr _ ls hnone
    | statement ls => simp [addPart, texts, hnone, Statement.source, Part.kept]

theorem map_place_ofParts (n : Nat) (parts : List Part) :
    (ofParts n parts).statements.map Statement.place = Part.places n parts := by
  induction parts generalizing n with
  | nil => rfl
  | cons part rest ih =>
    have hrest := ih (n + part.lines.length)
    rw [ofParts, Part.places, ← hrest]
    cases part with
    | blank | code => rfl
    | comment ls => exact map_place_foldr _ ls
    | statement ls => rfl

end Below

theorem map_text_comments {read : List Line}
    (h : ∀ line ∈ read, line.kind = .mixed ∨ ∃ done, line.kind = .comment done) :
    (read.filterMap HeaderLine.ofLine?).map HeaderLine.text = read.map Line.text := by
  induction read with
  | nil => rfl
  | cons line rest ih =>
    rw [List.forall_mem_cons] at h
    have hline : HeaderLine.ofLine? line = some (.comment line.text) := by
      rcases h.1 with hkind | ⟨done, hkind⟩
      · rw [HeaderLine.ofLine?, hkind]
      · rw [HeaderLine.ofLine?, hkind]
    rw [List.filterMap_cons, hline, List.map_cons, List.map_cons, ih h.2]
    rfl

theorem map_text_part {part : Part} (noStatement : part.statement? = none)
    (labelled : part.Labelled (label .code part.lines)) :
    ((label .code part.lines).filterMap HeaderLine.ofLine?).map HeaderLine.text = part.kept := by
  cases part with
  | blank | code =>
    rw [labelled]
    rfl
  | comment ls =>
    rw [map_text_comments labelled, map_text_label]
    rfl
  | statement ls => contradiction

theorem map_text_header {parts : List Part} (sequence : Part.Sequence parts)
    (noStatement : ∀ part ∈ parts, part.statement? = none) :
    ((label .code (parts.flatMap Part.lines)).filterMap HeaderLine.ofLine?).map HeaderLine.text =
      parts.flatMap Part.kept := by
  induction sequence with
  | nil => rfl
  | @endless part endless =>
    rw [List.flatMap_singleton, List.flatMap_singleton]
    exact map_text_part (noStatement part List.mem_cons_self) endless.label
  | @cons part rest ended _ ih =>
    obtain ⟨hafter, hlabel⟩ := ended.label
    rw [List.forall_mem_cons] at noStatement
    rw [List.flatMap_cons, label_append, hafter, List.filterMap_append, List.map_append,
      map_text_part noStatement.1 hlabel, ih noStatement.2, List.flatMap_cons]

/-- The parts above the first statement, those from there down to code, and the rest. -/
structure Cut (header body left : List Part) : Prop where
  sequence : Part.Sequence (header ++ (body ++ left))
  above : ∀ part ∈ header, part.statement? = none
  opens : body = [] ∧ left = [] ∨ ∃ ls rest, body = .statement ls :: rest
  inside : ∀ part ∈ body, part.isCode = false
  stops : left = [] ∨ ∃ l rest, left = .code l :: rest

theorem exists_cut {parts : List Part} (sequence : Part.Sequence parts) :
    ∃ header body left, parts = header ++ (body ++ left) ∧ Cut header body left := by
  set header := parts.takeWhile (·.statement?.isNone) with hheader
  set below := parts.dropWhile (·.statement?.isNone) with hbelow
  set body := below.takeWhile (!·.isCode) with hbody
  set left := below.dropWhile (!·.isCode) with hleft
  have hsplit : below = body ++ left := List.takeWhile_append_dropWhile.symm
  have hparts : parts = header ++ (body ++ left) := by
    rw [← hsplit]
    exact List.takeWhile_append_dropWhile.symm
  refine ⟨header, body, left, hparts, hparts ▸ sequence, ?_, ?_, ?_, ?_⟩
  · intro part member
    simpa using List.mem_takeWhile_imp member
  · cases hcase : below with
    | nil => exact .inl (by simpa [hsplit] using hcase)
    | cons part rest =>
      have hhead := List.head?_dropWhile_not (·.statement?.isNone) parts
      rw [← hbelow, hcase] at hhead
      cases part with
      | statement ls => exact .inr ⟨ls, rest.takeWhile (!·.isCode), by rw [hbody, hcase]; rfl⟩
      | blank | comment | code => simp [Part.statement?] at hhead
  · intro part member
    simpa using List.mem_takeWhile_imp member
  · cases hcase : left with
    | nil => exact .inl rfl
    | cons part rest =>
      have hhead := List.head?_dropWhile_not (!·.isCode) below
      rw [← hleft, hcase] at hhead
      cases part with
      | code l => exact .inr ⟨l, rest, rfl⟩
      | blank | comment | statement => simp [Part.isCode] at hhead

namespace Cut

variable {header body left : List Part}

theorem ended (cut : Cut header body left) :
    (body ≠ [] → ∀ part ∈ header, part.Ended) ∧
      (left ≠ [] → ∀ part ∈ header ++ body, part.Ended) := by
  refine ⟨fun hbody => ?_, fun hleft => ?_⟩
  · exact (Part.sequence_append cut.sequence).2.2 (List.append_ne_nil_of_left_ne_nil hbody left)
  · have hsequence := cut.sequence
    rw [← List.append_assoc] at hsequence
    exact (Part.sequence_append hsequence).2.2 hleft

theorem sequences (cut : Cut header body left) : Part.Sequence header ∧ Part.Sequence body ∧
    Part.Sequence left ∧ Part.Sequence (header ++ body) := by
  obtain ⟨hheader, hbelow, -⟩ := Part.sequence_append cut.sequence
  obtain ⟨hbody, hleft, -⟩ := Part.sequence_append hbelow
  have hread := cut.sequence
  rw [← List.append_assoc] at hread
  exact ⟨hheader, hbody, hleft, (Part.sequence_append hread).1⟩

theorem kind_ne_opening (cut : Cut header body left) :
    ∀ line ∈ label .code (header.flatMap Part.lines), line.kind ≠ .opening := by
  refine Part.forall_label cut.sequences.1 fun part member read labelled line hline hkind => ?_
  have hsome := (labelled.part_of_kind line hline).1 hkind
  simp [cut.above part member] at hsome

theorem kind_ne_code (cut : Cut header body left) :
    ∀ line ∈ label .code (body.flatMap Part.lines), line.kind ≠ .code := by
  refine Part.forall_label cut.sequences.2.1 fun part member read labelled line hline hkind => ?_
  have hcode := (labelled.part_of_kind line hline).2 hkind
  simp [cut.inside part member] at hcode

theorem label_body {ls : List Text} {rest : List Part}
    (cut : Cut header (.statement ls :: rest) left) : ∃ first more,
      label .code ((.statement ls :: rest : List Part).flatMap Part.lines) = first :: more ∧
        first.kind = .opening := by
  have hlabel : (Part.statement ls).Labelled (label .code ls) := by
    cases cut.sequences.2.1 with
    | endless endless => exact endless.label
    | cons ended => exact ended.label.2
  obtain ⟨first, more, hlabel, hopening, -⟩ := hlabel
  rw [List.flatMap_cons, label_append]
  exact ⟨first, _, by rw [Part.lines, hlabel]; rfl, hopening⟩

theorem ended_code {l : Text} {rest : List Part} (cut : Cut header body (.code l :: rest)) :
    (Part.code l).Ended := by
  cases cut.sequences.2.2.1 with
  | endless endless => cases endless
  | cons ended => exact ended

theorem label_left (cut : Cut header body left) :
    ∀ line ∈ (label (Mode.after .code (body.flatMap Part.lines))
      (left.flatMap Part.lines)).head?, line.kind = .code := by
  rcases cut.stops with rfl | ⟨l, rest, rfl⟩
  · simp [label]
  have hended := cut.ended.2 (List.cons_ne_nil _ _)
  rw [Part.after_parts fun part member => hended part (List.mem_append_right _ member),
    List.flatMap_cons, label_append, cut.ended_code.label.2]
  rintro line ⟨rfl⟩
  rfl

theorem parse_eq {text : Text} (cut : Cut header body left)
    (split : lines text = (header ++ (body ++ left)).flatMap Part.lines) :
    let below := Below.ofParts (header.flatMap Part.lines).length body
    parse text = ⟨(label .code (header.flatMap Part.lines)).filterMap HeaderLine.ofLine?,
      below.statements, below.trailing⟩ := by
  rw [List.flatMap_append, List.flatMap_append] at split
  rcases cut.opens with ⟨rfl, rfl⟩ | ⟨ls, rest, rfl⟩
  · have hlines : lines text = header.flatMap Part.lines := by simpa using split
    rw [parse_of_none (hlines ▸ cut.kind_ne_opening), hlines]
    rfl
  · have hsettled := Part.after_parts (cut.ended.1 (List.cons_ne_nil _ _))
    rw [parse_of_cut _ split hsettled cut.kind_ne_opening cut.label_body cut.kind_ne_code
      cut.label_left, Below.read_parts _ cut.sequences.2.1]

theorem stops_lines (cut : Cut header body left) : left.flatMap Part.lines = [] ∨
    (∀ part ∈ header ++ body, part.Ended) ∧
    (∃ part ∈ header ++ body, part.statement?.isSome = true) ∧
    ∃ l rest, left.flatMap Part.lines = l :: rest ∧ (Part.code l).Ended := by
  rcases cut.stops with rfl | ⟨l, rest, rfl⟩
  · exact .inl rfl
  rcases cut.opens with ⟨-, hnil⟩ | ⟨ls, more, rfl⟩
  · contradiction
  · exact .inr ⟨cut.ended.2 (List.cons_ne_nil _ _), ⟨.statement ls, by simp, rfl⟩, l,
      rest.flatMap Part.lines, rfl, cut.ended_code⟩

theorem noCode (cut : Cut header body left) : (header ++ body).Pairwise fun upper lower =>
    upper.statement?.isSome = true → lower.isCode = false := by
  refine List.pairwise_append.mpr ⟨?_, ?_, fun upper member lower _ hsome => ?_⟩
  · refine List.pairwise_of_forall_mem_list fun upper member lower _ hsome => ?_
    simp [cut.above upper member] at hsome
  · exact List.pairwise_of_forall_mem_list fun _ _ lower member _ => cut.inside lower member
  · simp [cut.above upper member] at hsome

end Cut

/-- How the lines of a text come back from reading it. They are cut into parts down to code that
stands below a statement, or all of them. -/
structure Accounts (text : Text) (parts : List Part) (unread : List Text) : Prop where
  whole : lines text = parts.flatMap Part.lines ++ unread
  sequence : Part.Sequence parts
  stops : unread = [] ∨ (∀ part ∈ parts, part.Ended) ∧
    (∃ part ∈ parts, part.statement?.isSome = true) ∧
    ∃ l rest, unread = l :: rest ∧ (Part.code l).Ended
  noCode : parts.Pairwise fun upper lower =>
    upper.statement?.isSome = true → lower.isCode = false
  kept : (parse text).header.map HeaderLine.text ++
    (parse text).statements.flatMap Statement.source ++ (parse text).trailing =
      parts.flatMap Part.kept
  statements : (parse text).statements.map Statement.lines = parts.filterMap Part.statement?
  ne_nil : ∀ statement ∈ (parse text).statements, statement.lines ≠ []
  place : ∀ statement ∈ (parse text).statements,
    ((lines text).take (statement.lastLine + 1)).drop statement.firstLine = statement.lines
  apart : (parse text).statements.Pairwise fun upper lower => upper.lastLine < lower.firstLine
  first : ∀ statement ∈ (parse text).statements.head?, statement.comments = []
  ends : ∀ statement ∈ (parse text).statements.dropLast, EndsFrom 0 statement.lines

theorem lastLine_add_one {statement : Statement} (ne : statement.lines ≠ []) :
    statement.lastLine + 1 = statement.firstLine + statement.lines.length := by
  have hpos := List.length_pos_iff.mpr ne
  rw [Statement.lastLine]
  omega

section Places

variable {n : Nat} {parts : List Part}

theorem ne_nil_ofParts (sequence : Part.Sequence parts) :
    ∀ statement ∈ (Below.ofParts n parts).statements, statement.lines ≠ [] := by
  intro statement member
  have hmem := List.mem_map_of_mem (f := Prod.snd)
    (Below.map_place_ofParts n parts ▸ List.mem_map_of_mem (f := Statement.place) member)
  rw [Part.map_snd_places] at hmem
  obtain ⟨first, rest, hlines, -⟩ := sequence.statements.1 _ hmem
  rw [show statement.lines = first :: rest from hlines]
  exact List.cons_ne_nil first rest

theorem place_ofParts (sequence : Part.Sequence parts) {upper : List Text} (lower : List Text)
    (above : upper.length = n) : ∀ statement ∈ (Below.ofParts n parts).statements,
    ((upper ++ (parts.flatMap Part.lines ++ lower)).take (statement.lastLine + 1)).drop
      statement.firstLine = statement.lines := by
  intro statement member
  have hmem := Below.map_place_ofParts n parts ▸ List.mem_map_of_mem (f := Statement.place) member
  obtain ⟨front, back, hlines, hfirst⟩ := (Part.places_spec n parts).1 _ hmem
  dsimp only [Statement.place] at hlines hfirst
  have hwhole : upper ++ (parts.flatMap Part.lines ++ lower) =
      (upper ++ front) ++ (statement.lines ++ (back ++ lower)) := by
    rw [hlines]
    simp only [List.append_assoc]
  have hlength : statement.firstLine = (upper ++ front).length := by
    rw [hfirst, List.length_append, above]
  rw [lastLine_add_one (ne_nil_ofParts sequence statement member), hwhole, hlength,
    List.take_length_add_append, List.drop_left, List.take_left]

theorem apart_ofParts (sequence : Part.Sequence parts) :
    (Below.ofParts n parts).statements.Pairwise fun upper lower =>
      upper.lastLine < lower.firstLine := by
  have hpairwise := (Part.places_spec n parts).2
  rw [← Below.map_place_ofParts, List.pairwise_map] at hpairwise
  refine hpairwise.imp_of_mem fun member _ hle => ?_
  have hlast := lastLine_add_one (ne_nil_ofParts sequence _ member)
  dsimp only [Statement.place] at hle
  omega

theorem map_lines_ofParts (n : Nat) (parts : List Part) :
    (Below.ofParts n parts).statements.map Statement.lines = parts.filterMap Part.statement? := by
  rw [← Part.map_snd_places n, ← Below.map_place_ofParts, List.map_map]
  rfl

end Places

theorem startsImport_of_mem_parse {text : Text} {statement : Statement}
    (member : statement ∈ (parse text).statements) : StartsImport statement.lines := by
  obtain ⟨parts, hlines, hsequence⟩ := Part.exists_sequence (lines text)
  obtain ⟨header, body, left, rfl, cut⟩ := exists_cut hsequence
  rw [cut.parse_eq hlines] at member
  have hmem := List.mem_map_of_mem (f := Statement.lines) member
  rw [map_lines_ofParts] at hmem
  exact cut.sequences.2.1.statements.1 _ hmem

theorem parse_of_isStatement {text : Text} {ls rest : List Text} (split : lines text = ls ++ rest)
    (statement : IsStatement ls) :
    ∃ more trailing, parse text = ⟨[], ⟨[], ls, 0⟩ :: more, trailing⟩ := by
  obtain ⟨parts, rfl, hbelow⟩ := Part.exists_sequence rest
  have hsequence : Part.Sequence (.statement ls :: parts) := .cons (.statement statement) hbelow
  obtain ⟨header, body, left, hparts, cut⟩ := exists_cut hsequence
  have hheader : header = [] := by
    cases header with
    | nil => rfl
    | cons part more =>
      have hnone := cut.above part List.mem_cons_self
      rw [← (List.cons.inj hparts).1] at hnone
      contradiction
  subst hheader
  have hsplit : lines text = ([] ++ (body ++ left)).flatMap Part.lines := by
    rw [← hparts, split]
    rfl
  rcases cut.opens with ⟨rfl, rfl⟩ | ⟨first, more, rfl⟩
  · contradiction
  obtain ⟨hfirst, -⟩ := List.cons.inj hparts
  obtain rfl := Part.statement.inj hfirst
  rw [cut.parse_eq hsplit]
  exact ⟨_, _, rfl⟩

/-- Whatever the text, reading loses and reorders none of the lines that it reaches. -/
theorem parse_accounts (text : Text) : ∃ parts unread, Accounts text parts unread := by
  obtain ⟨parts, hlines, hsequence⟩ := Part.exists_sequence (lines text)
  obtain ⟨header, body, left, rfl, cut⟩ := exists_cut hsequence
  set n := (header.flatMap Part.lines).length with hn
  have hparse := cut.parse_eq hlines
  have hwhole : lines text = header.flatMap Part.lines ++
      (body.flatMap Part.lines ++ left.flatMap Part.lines) := by
    rw [hlines, List.flatMap_append, List.flatMap_append]
  obtain ⟨hheader, hbody, -, hread⟩ := cut.sequences
  have hnone : header.filterMap Part.statement? = [] := List.filterMap_eq_nil_iff.mpr cut.above
  refine ⟨header ++ body, left.flatMap Part.lines, ?_⟩
  constructor
  case whole => rw [hlines, ← List.append_assoc, List.flatMap_append]
  case sequence => exact hread
  case stops => exact cut.stops_lines
  case noCode => exact cut.noCode
  case kept =>
    have htexts := Below.texts_ofParts n cut.inside
    rw [Below.texts, Below.continued_ofParts, List.nil_append] at htexts
    rw [hparse, map_text_header hheader cut.above, List.append_assoc, htexts,
      List.flatMap_append]
  case statements =>
    rw [hparse, map_lines_ofParts, List.filterMap_append, hnone, List.nil_append]
  case ne_nil => exact hparse ▸ ne_nil_ofParts hbody
  case place =>
    rw [hparse, hwhole]
    exact place_ofParts hbody _ rfl
  case apart => exact hparse ▸ apart_ofParts hbody
  case first =>
    rw [hparse]
    rcases cut.opens with ⟨rfl, -⟩ | ⟨ls, rest, rfl⟩
    · rintro _ ⟨⟩
    · rintro _ ⟨rfl⟩
      rfl
  case ends =>
    intro statement member
    have hmem := List.mem_map_of_mem (f := Statement.lines) member
    rw [List.map_dropLast, hparse, map_lines_ofParts] at hmem
    exact (hbody.statements.2 _ hmem).ends

end Block
end ImportBlock
