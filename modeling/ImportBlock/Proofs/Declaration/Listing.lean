import ImportBlock.Proofs.Declaration.Settled
import ImportBlock.Proofs.Region.Agreement
import ImportBlock.Proofs.Region.Grammar
import ImportBlock.Proofs.Text.Tail

/-! Import lines above other code, and where the block that is found in them ends. -/

namespace ImportBlock

open Text Line

structure Aside where
  gap : LineGap
  words : Text
  closed : includes commentEnd words = false
  line : '\n' ∉ words
  after : LineGap

/-- What stands behind a declaration on its line. -/
inductive Postscript where
  | blank (gap : LineGap)
  | remark (remark : Remark)
  | aside (aside : Aside)

/-- A line that imports: code without comments in which all is closed, and what stands behind it. -/
structure Entry where
  indent : LineGap
  clause : Text
  opens : ∃ c rest, clause = c :: rest ∧
    (isWhite c = true ∨ c = '{' ∨ c = '*' ∨ c = '"' ∨ c = '\'')
  settled : Settled clause
  line : '\n' ∉ clause
  stop : ∃ init c, clause = init ++ [c] ∧ isWhite c = false
  postscript : Postscript

namespace Aside

variable (aside : Aside)

def comment : Text := '/' :: '*' :: (aside.words ++ commentEnd)

def text : Text := aside.gap.text ++ (aside.comment ++ aside.after.text)

theorem solid_comment : Solid aside.comment :=
  ⟨⟨'/', _, rfl, by decide⟩, '/' :: '*' :: (aside.words ++ ['*']), '/',
    by simp [comment, commentEnd], by decide⟩

theorem feed : '\n' ∉ aside.text := by
  simp only [text, comment, List.mem_append, List.mem_cons, not_or]
  exact ⟨aside.gap.line, ⟨by decide, by decide, aside.line, by decide⟩, aside.after.line⟩

/-- Only `//` cuts a comment off, so the whole of this one may be read as code. -/
theorem codePart_append {code : Text} (settled : Settled code) :
    codePart (code ++ aside.gap.text ++ aside.comment) =
      code ++ aside.gap.text ++ codePart aside.comment := by
  have hcode : beforeSlashes none (code ++ aside.gap.text ++ aside.comment) =
      (beforeSlashes none aside.comment).map (code ++ aside.gap.text ++ ·) := by
    rw [List.append_assoc, settled.beforeSlashes_append,
      aside.gap.neutral.bare.beforeSlashes_append]
    simp [Function.comp_def]
  have hfirst : beforeSlashes none aside.comment =
      (beforeSlashes none ('*' :: (aside.words ++ commentEnd))).map ('/' :: ·) := rfl
  rw [codePart, codePart, hcode, hfirst]
  cases beforeSlashes none ('*' :: (aside.words ++ commentEnd)) with
  | none => rfl
  | some more => exact trimEnd_append ⟨'/', List.mem_cons_self, by decide⟩

theorem codePart_ne_nil : codePart aside.comment ≠ [] := by
  have hfirst : beforeSlashes none aside.comment =
      (beforeSlashes none ('*' :: (aside.words ++ commentEnd))).map ('/' :: ·) := rfl
  rw [codePart, hfirst]
  cases beforeSlashes none ('*' :: (aside.words ++ commentEnd)) with
  | none => exact List.cons_ne_nil _ _
  | some more =>
    rw [Option.map_some]
    dsimp only
    rw [trimEnd_cons more (by decide)]
    exact List.cons_ne_nil _ _

end Aside

namespace Postscript

def text : Postscript → Text
  | blank gap => gap.text
  | remark note => note.text
  | aside note => note.text

theorem feed (postscript : Postscript) : '\n' ∉ postscript.text := by
  cases postscript with
  | blank gap => exact gap.line
  | remark note => exact note.feed
  | aside note => exact note.feed

def code : Postscript → Text
  | blank _ | remark _ => []
  | aside note => note.gap.text ++ codePart note.comment

end Postscript

namespace Entry

variable (entry : Entry)

def code : Text := importWord ++ entry.clause

def text : Text := entry.indent.text ++ (entry.code ++ entry.postscript.text)

/-- The statement ends with the line: by a semicolon or a quote at the end of the code, and if a
block comment follows, read as code, that opens no brace and leaves the end in place. -/
def Ends : Prop :=
  match entry.postscript with
  | .blank _ | .remark _ => ';' ∈ entry.code ∨ entry.code.getLast?.any isQuote = true
  | .aside aside => braceDelta aside.comment ≤ 0 ∧
    (';' ∈ entry.code ∨ terminates aside.comment = true)

theorem feed : '\n' ∉ entry.text := by
  simp only [text, code, List.mem_append, not_or]
  exact ⟨entry.indent.line, ⟨by decide, entry.line⟩, entry.postscript.feed⟩

theorem solid_code : Solid entry.code := by
  obtain ⟨init, c, hclause, hc⟩ := entry.stop
  exact ⟨⟨'i', _, rfl, by decide⟩, importWord ++ init, c, by simp [code, hclause], hc⟩

theorem settled_code : Settled entry.code :=
  .plain rfl (by decide) <| .plain rfl (by decide) <| .plain rfl (by decide) <|
    .plain rfl (by decide) <| .plain rfl (by decide) <| .plain rfl (by decide) entry.settled

theorem trim_text : ∃ more, trim entry.text = entry.code ++ more ∧
    codePart (entry.code ++ more) = entry.code ++ entry.postscript.code := by
  have hsolid := entry.solid_code
  have hstart : trimStart entry.indent.text = [] := by
    simpa [trimStart, List.dropWhile_eq_nil_iff] using entry.indent.white
  rw [text]
  cases entry.postscript with
  | blank gap =>
    refine ⟨[], ?_, ?_⟩
    · rw [Postscript.text, trim_white_append entry.indent.white, trim_append_white gap.white,
        hsolid.trim_eq, List.append_nil]
    · rw [Postscript.code, List.append_nil, entry.settled_code.codePart_eq]
  | remark remark =>
    refine ⟨remark.gap.text ++ remark.comment, ?_, ?_⟩
    · rw [Postscript.text, remark.trim_append _ hsolid, hstart, List.append_assoc]
      rfl
    · have hcomment : beforeSlashes none remark.comment = some [] := rfl
      have hslashes : beforeSlashes none (entry.code ++ (remark.gap.text ++ remark.comment)) =
          some (entry.code ++ remark.gap.text) := by
        rw [entry.settled_code.beforeSlashes_append, remark.gap.neutral.bare.beforeSlashes_append,
          hcomment]
        simp
      rw [codePart, hslashes, Postscript.code, List.append_nil]
      exact (dropEndWhile_append_of_all remark.gap.white).trans (hsolid.trimEnd_append [])
  | aside aside =>
    refine ⟨aside.gap.text ++ aside.comment, ?_, ?_⟩
    · rw [Postscript.text, Aside.text, trim_white_append entry.indent.white, ← List.append_assoc,
        ← List.append_assoc, ← List.append_assoc, trim_append_white aside.after.white,
        (hsolid.append _ aside.solid_comment).trim_eq, List.append_assoc]
    · rw [← List.append_assoc, aside.codePart_append entry.settled_code, List.append_assoc]
      rfl

theorem isImport_text : isImport (trim entry.text) = true := by
  obtain ⟨more, htrim, -⟩ := entry.trim_text
  obtain ⟨c, rest, hclause, hc⟩ := entry.opens
  rw [htrim, code, List.append_assoc, isImport, stripStart_append, hclause]
  rcases hc with hc | rfl | rfl | rfl | rfl
  · simp [hc]
  all_goals rfl

theorem endsFrom_text : EndsFrom 0 [entry.text] ↔ entry.Ends := by
  obtain ⟨more, htrim, hcode⟩ := entry.trim_text
  have hsum := entry.settled_code.braceSum_append entry.postscript.code
  rw [endsFrom_singleton, closesStatement_iff, Int.zero_add, htrim, braceDelta, terminates, hcode,
    hsum, Ends]
  cases entry.postscript with
  | blank gap | remark remark => simp [Postscript.code, braceSum]
  | aside aside =>
    have hgap : ';' ∉ aside.gap.text := fun hc => (aside.gap.neutral.bare _ hc).2.1 rfl
    have hdelta : braceSum none (aside.gap.text ++ codePart aside.comment) =
        braceDelta aside.comment := by
      rw [braceSum_append aside.gap.neutral.bare.quotes, aside.gap.neutral.balance, braceDelta,
        Int.zero_add]
    have hlast : (entry.code ++ (aside.gap.text ++ codePart aside.comment)).getLast? =
        (codePart aside.comment).getLast? := by
      rw [← List.append_assoc, List.getLast?_append_of_ne_nil _ aside.codePart_ne_nil]
    simp only [Postscript.code, hdelta, hlast, terminates, Bool.or_eq_true, List.contains_iff_mem,
      List.mem_append, hgap, false_or, or_assoc]

theorem ends_of_declaration {declaration : Declaration} (same : entry.code = declaration.text)
    (plain : ∀ aside, entry.postscript ≠ .aside aside) : entry.Ends := by
  have hcode := declaration.codePart_tail declaration.neutral_head.bare
  have hends := declaration.closes_tail hcode
  rw [declaration.head_append_tail, ← same, closesStatement_iff, terminates,
    entry.settled_code.codePart_eq] at hends
  have hor := hends.2
  rw [Bool.or_eq_true, List.contains_iff_mem] at hor
  rw [Ends]
  split
  · exact hor
  · exact hor
  · next aside h => exact absurd h (plain aside)

/-- Each line opens a statement of its own if and only if none but the last is left open. -/
theorem all_opening_iff (entries : List Entry) :
    (∀ entry ∈ entries, entry.Ends) ↔ Mode.after .code (entries.map text) = .code ∧
      ∀ line ∈ label .code (entries.map text), line.kind = .opening := by
  induction entries with
  | nil => simp [Mode.after, label]
  | cons entry rest ih =>
    have hread := Mode.read_import entry.isImport_text
    have hends := entry.endsFrom_text
    rw [endsFrom_singleton, Int.zero_add] at hends
    rw [List.map_cons, Mode.after, label, hread, List.forall_mem_cons, List.forall_mem_cons,
      Mode.afterStatementLine]
    by_cases hcloses : closesStatement (braceDelta (trim entry.text)) (trim entry.text) = true
    · rw [if_pos hcloses, ih]
      simp [hends.mp hcloses]
    · rw [if_neg hcloses]
      refine ⟨fun h => absurd (hends.mpr h.1) hcloses, fun h => ?_⟩
      cases rest with
      | nil => simp [Mode.after] at h
      | cons next rest =>
        have hnext := h.2.2
        rw [List.map_cons, label, List.forall_mem_cons] at hnext
        simp [Mode.read] at hnext

end Entry

def Declaration.entry (declaration : Declaration) (line : '\n' ∉ declaration.text)
    (postscript : Postscript) : Entry where
  indent := .empty
  clause := declaration.clause
  opens := by
    obtain ⟨c, more, hspace⟩ := List.exists_cons_of_ne_nil declaration.space.ne
    refine ⟨c, _, by rw [clause, hspace]; rfl, .inl (declaration.space.white c ?_)⟩
    rw [hspace]
    exact List.mem_cons_self
  settled := declaration.settled_clause
  line := fun feed => line (by rw [declaration.text_eq]; exact List.mem_append_right _ feed)
  stop := by
    obtain ⟨init, c, htail, hc⟩ := declaration.solid_tail.2
    exact ⟨declaration.space.text ++ (frontText declaration.front? ++ init), c,
      by simp [clause, htail], hc⟩
  postscript := postscript

namespace Block.Below

theorem length_read (below : Below) (mode : Mode) (n : Nat) (texts : List Text) :
    (below.read mode n texts).statements.length =
      (label mode texts).countP (·.kind == .opening) + below.statements.length := by
  induction texts generalizing mode n with
  | nil => simp [read_nil, label]
  | cons text rest ih =>
    have hrest := ih (mode.read (trim text)).2 (n + 1)
    have hcomment := congrArg List.length
      (lines_addComment (below.read (mode.read (trim text)).2 (n + 1) rest) text)
    simp only [List.length_map] at hcomment
    rw [read_cons, label, List.countP_cons]
    cases (mode.read (trim text)).1 with
    | opening =>
      simp [add, hrest]
      omega
    | comment | mixed => simp [add, hcomment, hrest]
    | blank | continued | code => simp [add, hrest]

end Block.Below

theorem Region.length_statements {text : Text} {region : Region} (found : find? text = some region)
    {texts : List Text} (same : (lines region.block).map trim = texts.map trim) :
    (Block.parse region.block).statements.length =
      (label .code texts).countP (·.kind == .opening) := by
  have hblock := isBlock_lines found
  rw [Block.parse_of_split [] (rfl : lines region.block = _) rfl (by simp [label]) hblock.opens
    hblock.ne_code]
  have hkinds := congrArg (List.countP (·.kind == .opening)) (map_trimmed_label .code same)
  simp only [List.countP_map, Function.comp_def, kind_trimmed] at hkinds
  rw [← hkinds]
  exact Block.Below.length_read _ _ _ _

/-- Lines that import, a line of other code below them, and anything below that. -/
structure Listing where
  entries : List Entry
  ne : entries ≠ []
  code : Text
  line : '\n' ∉ code
  nonBlank : isBlank code = false
  noComment : isComment (trim code) = false
  noImport : isImport (trim code) = false
  rest : Text
  follows : Follows rest

namespace Listing

variable (listing : Listing)

def imports : List Text := listing.entries.map Entry.text

def text : Text := endLines listing.imports ++ (listing.code ++ listing.rest)

def block : Text := flattenContent (listing.imports.map (· ++ ['\n']))

theorem free : NoFeed listing.imports := by
  intro l member
  obtain ⟨entry, -, rfl⟩ := List.mem_map.mp member
  exact entry.feed

theorem exists_last : ∃ xs x, listing.imports = xs ++ [x] ∧ NoFeed (xs ++ [x]) ∧ trim x ≠ [] := by
  obtain ⟨entries, entry, hentries⟩ :=
    (List.eq_nil_or_concat' listing.entries).resolve_left listing.ne
  have himports : listing.imports = entries.map Entry.text ++ [entry.text] := by
    rw [imports, hentries, List.map_append, List.map_singleton]
  refine ⟨_, _, himports, himports ▸ listing.free, fun hnil => ?_⟩
  have himport := entry.isImport_text
  rw [hnil] at himport
  contradiction

theorem map_trim_lines : (lines listing.block).map trim = listing.imports.map trim := by
  obtain ⟨xs, x, himports, hfree, hne⟩ := listing.exists_last
  obtain ⟨hxs, hx⟩ := noFeed_append.mp hfree
  have hcontent : content x ≠ [] := by
    intro hnil
    rw [← trim_content, hnil] at hne
    contradiction
  rw [block, himports, List.map_append, List.map_singleton, flattenContent_concat,
    map_trim_lines_endLines hxs, content_append_breaks break_feed,
    lines_last (not_mem_content (hx x (by simp))) hcontent, List.map_append, List.map_singleton,
    trim_content, List.map_singleton]

theorem pieces_text : ∃ feed below, (∀ c ∈ feed, isBreak c = true) ∧
    pieces listing.text =
      listing.imports.map (· ++ ['\n']) ++ (listing.code ++ feed) :: below := by
  have hne : listing.code ≠ [] := by
    intro hnil
    have hblank := listing.nonBlank
    rw [hnil] at hblank
    contradiction
  have hfree : NoFeed ([] ++ [listing.code]) := by simpa [NoFeed] using listing.line
  obtain ⟨feed, hfeed, -, hpieces⟩ := pieces_joinWith hfree hne listing.follows
  have hcode : pieces (listing.code ++ listing.rest) =
      (listing.code ++ feed) :: pieces listing.rest.tail := hpieces
  refine ⟨feed, pieces listing.rest.tail, break_of_feed hfeed, ?_⟩
  rw [text, pieces_endLines listing.free, hcode]

theorem read_code {feed : Text} (breaks : ∀ c ∈ feed, isBreak c = true) :
    Mode.code.read (trim (listing.code ++ feed)) = (.code, .code) := by
  have hne : (trim listing.code).isEmpty = false := by
    rw [← Bool.not_eq_true, List.isEmpty_iff, ← isBlank_iff_trim, listing.nonBlank]
    decide
  rw [trim_append_breaks breaks]
  simp [Mode.read, hne, listing.noComment, listing.noImport]

theorem eq_imports {header block below : List Text}
    (split : pieces listing.text = header ++ block ++ below) (above : header.flatten = [])
    (same : flattenContent block = listing.block) (ne : block ≠ []) :
    header = [] ∧ block = listing.imports.map (· ++ ['\n']) := by
  have hheader : header = [] := by
    by_contra hne
    have hsplit : pieces listing.text = [] ++ header ++ (block ++ below) := by
      rw [split, List.append_assoc, List.nil_append]
    obtain ⟨ls, l, feed, -, hfeed, rfl⟩ := exists_lines_of_pieces hsplit hne
    rcases hfeed with rfl | ⟨-, -, hl⟩
    · simp at above
    · simp [hl] at above
  subst hheader
  obtain ⟨feed, more, -, hpieces⟩ := listing.pieces_text
  obtain ⟨ls, l, feed', hfree, hfeed, rfl⟩ := exists_lines_of_pieces split ne
  obtain ⟨xs, x, himports, hfree', -⟩ := listing.exists_last
  have hcontent : ∀ {ls : List Text} {l : Text}, NoFeed (ls ++ [l]) →
      NoFeed (ls ++ [content l]) := by
    intro ls l h
    obtain ⟨hls, hl⟩ := noFeed_append.mp h
    exact noFeed_append.mpr ⟨hls, by simpa [NoFeed] using not_mem_content (hl l (by simp))⟩
  rw [Listing.block, himports, List.map_append, List.map_singleton, flattenContent_concat,
    flattenContent_concat, content_append_breaks break_feed,
    content_append_breaks (break_of_feed hfeed), ← joinWith_concat, ← joinWith_concat] at same
  have hlines := joinWith_injective (hcontent hfree) (hcontent hfree') (by simp) (by simp) same
  have hlength : ls.length = xs.length := by simpa using congrArg List.length hlines
  refine ⟨rfl, ?_⟩
  rw [List.nil_append, hpieces] at split
  refine (List.append_inj split.symm ?_).1
  simp [himports, hlength]

theorem isCut (ends : ∀ entry ∈ listing.entries, entry.Ends) {feed : Text} (below : List Text)
    (breaks : ∀ c ∈ feed, isBreak c = true) : Region.Cut []
      (listing.imports.map (· ++ ['\n'])) ((listing.code ++ feed) :: below) := by
  obtain ⟨hafter, hopening⟩ := (Entry.all_opening_iff listing.entries).mp ends
  have hblock : Region.IsBlock listing.imports := by
    refine ⟨?_, fun line member => ?_, fun front last hlast => ?_⟩
    · obtain ⟨first, rest, hlabel⟩ := List.exists_cons_of_ne_nil
        (l := label .code listing.imports) (by simpa [label_eq_nil_iff, imports] using listing.ne)
      exact ⟨first, rest, hlabel, hopening first (by rw [← imports, hlabel]; simp)⟩
    · rw [inBlock, hopening line member]
    · rw [isFiller, hopening last (by rw [← imports, hlast]; simp)]
  have hsame := map_trim_feed listing.imports
  refine ⟨hblock.of_trim hsame.symm, rfl, trivial, ?_⟩
  rw [after_of_map_trim .code hsame, imports, hafter, label, listing.read_code breaks,
    List.takeWhile_cons_of_neg (by simp [inBlock])]
  simp

/-- The block that is found ends with the last of the lines, and each of them is a statement, if
and only if each line ends its statement. All do that have no block comment behind a declaration. -/
theorem find?_iff :
    ((∃ region, Region.find? listing.text = some region ∧ region.before = [] ∧
      region.block = listing.block ∧
        (Block.parse region.block).statements.length = listing.entries.length) ↔
      ∀ entry ∈ listing.entries, entry.Ends) ∧
    ∀ entry ∈ listing.entries, (∃ declaration : Declaration, entry.code = declaration.text) →
      (∀ aside, entry.postscript ≠ .aside aside) → entry.Ends := by
  obtain ⟨feed, below, hbreaks, hpieces⟩ := listing.pieces_text
  have hcount : ∀ region, Region.find? listing.text = some region →
      region.block = listing.block → (Block.parse region.block).statements.length =
        (label .code listing.imports).countP (·.kind == .opening) := by
    intro region hfound hblock
    exact Region.length_statements hfound (hblock ▸ listing.map_trim_lines)
  have hlabels : (label .code listing.imports).length = listing.entries.length := by
    rw [length_label, imports, List.length_map]
  constructor
  · constructor
    · rintro ⟨region, hfound, hbefore, hblock, hlength⟩
      rw [hcount region hfound hblock, ← hlabels, List.countP_eq_length] at hlength
      obtain ⟨header, block, rest, hsplit, hcut, habove, hbody⟩ :=
        Region.exists_cut_of_find? hfound
      obtain ⟨rfl, rfl⟩ := listing.eq_imports hsplit (habove ▸ hbefore) (hbody ▸ hblock) hcut.ne_nil
      rw [List.nil_append, hpieces, List.append_cancel_left_eq] at hsplit
      have hclosed := hcut.closed (hsplit ▸ List.cons_ne_nil _ _)
      rw [after_of_map_trim .code (map_trim_feed listing.imports)] at hclosed
      exact (Entry.all_opening_iff listing.entries).mpr
        ⟨hclosed, by simpa [imports] using hlength⟩
    · intro hends
      have hcut := listing.isCut hends below hbreaks
      have hsplit : pieces listing.text = [] ++ listing.imports.map (· ++ ['\n']) ++
          (listing.code ++ feed) :: below := hpieces
      have hfound := Region.find?_of_cut hsplit hcut
      refine ⟨_, hfound, rfl, rfl, ?_⟩
      rw [hcount _ hfound rfl, ← hlabels, List.countP_eq_length]
      intro line member
      rw [((Entry.all_opening_iff listing.entries).mp hends).2 line member]
      rfl
  · rintro entry - ⟨declaration, hsame⟩ hplain
    exact entry.ends_of_declaration hsame hplain

def ofPostscript (postscript : Postscript) : Listing where
  entries := [Declaration.lodash.entry (by decide +kernel) postscript]
  ne := List.cons_ne_nil _ _
  code := "run();".toList
  line := by decide
  nonBlank := by decide
  noComment := by decide
  noImport := by decide
  rest := ['\n']
  follows := .inr ⟨[], rfl⟩

theorem find?_iff_remarked : ∃ region, Region.find?
    "import _ from \"lodash\"; // wanted\nrun();\n".toList = some region ∧
      region.block = "import _ from \"lodash\"; // wanted".toList ∧
        (Block.parse region.block).statements.length = 1 := by
  obtain ⟨hfound, hends⟩ := (ofPostscript (.remark Declaration.wanted)).find?_iff
  have hall : ∀ entry ∈ (ofPostscript (.remark Declaration.wanted)).entries, entry.Ends := by
    intro entry member
    obtain rfl := List.mem_singleton.mp member
    exact hends _ member ⟨Declaration.lodash, (Declaration.text_eq _).symm⟩
      fun aside => Postscript.noConfusion
  obtain ⟨region, hregion, -, hblock, hlength⟩ := hfound.mpr hall
  exact ⟨region, hregion, hblock, hlength⟩

/-- The brace in the comment keeps the statement open, which then takes the line below. -/
theorem swallowed_braced :
    let listing := ofPostscript (.aside
      ⟨⟨Space.blank.toGap, by decide⟩, " \x7b ".toList, by decide, by decide, .empty⟩)
    listing.text = "import _ from \"lodash\"; /* \x7b */\nrun();\n".toList ∧
      ∃ region, Region.find? listing.text = some region ∧
        region.block = "import _ from \"lodash\"; /* \x7b */\nrun();".toList ∧
          region.block ≠ listing.block := by
  refine ⟨by decide +kernel, ⟨[], _, ['\n']⟩, by decide +kernel, rfl, by decide +kernel⟩

end Listing
end ImportBlock
