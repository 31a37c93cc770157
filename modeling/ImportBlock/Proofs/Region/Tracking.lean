import ImportBlock.Proofs.Line.Tracking
import ImportBlock.Proofs.Region.Paired

/-! What is taken as the start of a statement, or as the end of the comments below, stands outside
of block comments. -/

namespace ImportBlock

open Text Line

namespace Mode

theorem not_inComment_of_opening {mode : Mode} {line : Text}
    (opens : (mode.read line).1 = .opening) : mode.inComment = false := by
  have hreads := reads_read mode line
  rw [opens] at hreads
  generalize (mode.read line).2 = next at hreads
  cases hreads <;> rfl

end Mode

namespace Line

theorem kind_of_getElem? {mode : Mode} {texts : List Text} {n : Nat} {line : Line}
    (h : (label mode texts)[n]? = some line) :
    line.kind = ((mode.after (texts.take n)).read (trim line.text)).1 := by
  induction texts generalizing mode n with
  | nil => simp [label] at h
  | cons text rest ih =>
    cases n with
    | zero =>
      rw [label, List.getElem?_cons_zero, Option.some.injEq] at h
      rw [← h]
      rfl
    | succ n =>
      rw [label, List.getElem?_cons_succ] at h
      exact ih h

end Line

namespace Block

namespace Below

theorem firstLine_addComment (below : Below) (text : Text) :
    (below.addComment text).statements.map Statement.firstLine =
      below.statements.map Statement.firstLine :=
  map_addComment below text fun _ _ => rfl

theorem exists_opening {numbered : List (Line × Nat)} {n : Nat}
    (member : n ∈ (numbered.foldr add empty).statements.map Statement.firstLine) :
    ∃ line, (line, n) ∈ numbered ∧ line.kind = .opening := by
  induction numbered with
  | nil => simp [empty] at member
  | cons line rest ih =>
    have hrest : n ∈ (rest.foldr add empty).statements.map Statement.firstLine →
        ∃ other, (other, n) ∈ line :: rest ∧ other.kind = .opening := by
      intro hmem
      obtain ⟨other, hother, hkind⟩ := ih hmem
      exact ⟨other, List.mem_cons_of_mem line hother, hkind⟩
    rw [List.foldr_cons, add] at member
    split at member
    · next hkind =>
      rcases List.mem_cons.mp member with rfl | hmem
      · exact ⟨line.1, List.mem_cons_self, hkind⟩
      · exact hrest hmem
    · exact hrest member
    · exact hrest (firstLine_addComment _ line.1.text ▸ member)
    · exact hrest (firstLine_addComment _ line.1.text ▸ member)
    · exact hrest member
    · exact hrest member

end Below

theorem not_inComment_firstLine {text : Text} {statement : Statement}
    (member : statement ∈ (parse text).statements) :
    (Mode.after .code ((lines text).take statement.firstLine)).inComment = false := by
  obtain ⟨line, hline, hkind⟩ := Below.exists_opening (List.mem_map_of_mem member)
  have hnumbered : (line, statement.firstLine) ∈ (label .code (lines text)).zipIdx :=
    (List.dropWhile_suffix _).subset ((List.takeWhile_prefix _).subset hline)
  have hread := kind_of_getElem? (List.mem_zipIdx_iff_getElem?.mp hnumbered)
  exact Mode.not_inComment_of_opening (hread.symm.trans hkind)

end Block

namespace Region

theorem IsBlock.not_inComment {ls : List Text} (h : IsBlock ls) :
    (Mode.after .code ls).inComment = false := by
  cases hopen : (Mode.after .code ls).inStatement with
  | false =>
    rw [h.after_eq_code hopen]
    rfl
  | true =>
    generalize Mode.after .code ls = mode at hopen
    cases mode <;> simp_all [Mode.inStatement, Mode.inComment]

variable {text : Text} {region : Region}

theorem OfText.trailing_cases {header block : List Text} {last run rest : Text}
    (h : OfText region header block last run rest) :
    (splitTrailingComments region.after).1 = [] ∨ ∃ ls l, NoFeed (ls ++ [l]) ∧
      Mode.CommentRun .code (ls ++ [l]) ∧ Mode.after .code (block ++ [last]) = .code ∧
      (splitTrailingComments region.after).1 = run ++ '\n' :: (endLines ls ++ l) := by
  rcases h.follows with rfl | ⟨below, rfl⟩
  · left
    rw [h.after_eq, List.append_nil, splitTrailingComments, splitFirst_of_not_mem h.feed]
  · have htaken := splitTrailingComments_feed h.feed below
    rw [← h.after_eq] at htaken
    by_cases hnil : topComments (pieces below) = []
    · left
      rw [htaken, if_pos hnil]
    · right
      obtain ⟨lower, hsplit, hrun, -⟩ := exists_topComments (pieces below)
      obtain ⟨ls, l, _, _, hfree, -, -, -, -, -, hsame, hcontent, -⟩ :=
        exists_content_of_split hsplit hnil
      have hbelow : pieces below ≠ [] := by
        rw [hsplit]
        exact List.append_ne_nil_of_left_ne_nil hnil lower
      rw [if_neg hnil, hcontent] at htaken
      exact ⟨ls, l, hfree, hrun.of_trim hsame, h.after_block hbelow, htaken⟩

theorem not_inComment_trailing (found : find? text = some region) :
    (Mode.after .code (pieces (region.before ++ region.block ++
      (splitTrailingComments region.after).1))).inComment = false := by
  obtain ⟨header, block, last, run, rest, h⟩ := exists_ofText found
  have habove : ∀ below : Text, Mode.after .code (pieces (region.before ++ below)) =
      Mode.after .code (pieces below) := by
    intro below
    rw [h.before_eq, pieces_endLines h.free.1, Mode.after_append,
      after_of_map_trim .code (map_trim_feed header), h.cut.settled]
  rw [List.append_assoc, habove]
  rcases h.trailing_cases with hnil | ⟨ls, l, hfree, hrun, hclosed, htaken⟩
  · have hsame := map_trim_map trim_dropBreak (pieces region.block)
    rw [hnil, List.append_nil, ← after_of_map_trim .code hsame]
    exact (isBlock_lines found).not_inComment
  · obtain ⟨hls, hl⟩ := noFeed_append.mp hfree
    obtain ⟨hblock, hlast⟩ := noFeed_append.mp h.free.2
    have hends : NoFeed [last ++ run] := by
      simpa [NoFeed, h.feed] using hlast
    have hlines : NoFeed (block ++ ([last ++ run] ++ ls)) :=
      noFeed_append.mpr ⟨hblock, noFeed_append.mpr ⟨hends, hls⟩⟩
    have hwhole : region.block ++ (splitTrailingComments region.after).1 =
        endLines (block ++ ([last ++ run] ++ ls)) ++ l := by
      rw [htaken, h.block_eq]
      simp [endLines]
    have htrim : (block ++ ([last ++ run] ++ ls) ++ [l]).map trim =
        (block ++ [last] ++ (ls ++ [l])).map trim := by
      simp [trim_append_breaks h.breaks]
    rw [hwhole, pieces_endLines hlines, pieces_last (hl l (List.mem_singleton_self l))
        hrun.last_ne_nil, Mode.after_append, after_of_map_trim .code (map_trim_feed _),
      ← Mode.after_append, after_of_map_trim .code htrim, Mode.after_append, hclosed, hrun.2]
    rfl

end Region

/-- What stands above the start of a statement, or above the end of the comments below the block. -/
inductive Place (text : Text) : List Text → Prop where
  | found {region : Region} {upper lower : List Text} {line : Text}
      (found : Region.find? text = some region) (cut : pieces text = upper ++ line :: lower)
      (inside : byteLength upper.flatten < region.stop)
      (opens : ((Mode.after .code upper).read (trim line)).1 = .opening) : Place text upper
  | parsed {statement : Statement} (member : statement ∈ (Block.parse text).statements) :
      Place text ((lines text).take statement.firstLine)
  | trailing {region : Region} (found : Region.find? text = some region) :
      Place text (pieces (region.before ++ region.block ++
        (splitTrailingComments region.after).1))

namespace Place

variable {text : Text} {above : List Text}

theorem not_inComment (place : Place text above) : (Mode.after .code above).inComment = false := by
  cases place with
  | found _ _ _ opens => exact Mode.not_inComment_of_opening opens
  | parsed member => exact Block.not_inComment_firstLine member
  | trailing found => exact Region.not_inComment_trailing found

/-- Statements start and trailing comments end outside of block comments if no line above opens
another comment behind the end of one. Only then the modes are right at all the lines. -/
theorem outside_of_unreopened (place : Place text above) :
    (reopensWithin .code above = false → inBlockComment (label .code above) = false) ∧
      (Tracked above ↔ reopensWithin .code above = false) := by
  refine ⟨fun closed => ?_, tracked_iff above⟩
  rw [(tracked_iff above).mpr closed above List.prefix_rfl, place.not_inComment]

def commented : Region where
  before := endLines (["/* a */ // b /*", "/* one", "two */ /* three */"].map String.toList)
  block := joinWith ['\n'] (["import a from \"a\";", "// /* b", "import b from \"b\";"].map
    String.toList)
  after := "\n/* last */\nrun();\n".toList

theorem outside_of_unreopened_commented :
    let text := commented.text
    let header := pieces commented.before
    let second := (lines text).take 5
    let below := pieces (commented.before ++ commented.block ++
      (splitTrailingComments commented.after).1)
    Region.find? text = some commented ∧ Place text header ∧ Place text second ∧
      Place text below ∧ below.length = 7 ∧ inBlockComment (label .code header) = false ∧
      inBlockComment (label .code second) = false ∧
      inBlockComment (label .code below) = false := by
  intro text header second below
  have hfound : Region.find? text = some commented := by decide +kernel
  have hheader : Place text header :=
    .found hfound (by decide +kernel : pieces text = header ++
      "import a from \"a\";\n".toList :: (pieces text).drop 4) (by decide +kernel)
      (by decide +kernel)
  have hmember : (⟨["// /* b".toList], ["import b from \"b\";".toList], 5⟩ : Statement) ∈
      (Block.parse text).statements := by decide +kernel
  have hsecond : Place text second := .parsed hmember
  have hbelow : Place text below := .trailing hfound
  exact ⟨hfound, hheader, hsecond, hbelow, by decide +kernel,
    hheader.outside_of_unreopened.1 (by decide +kernel),
    hsecond.outside_of_unreopened.1 (by decide +kernel),
    hbelow.outside_of_unreopened.1 (by decide +kernel)⟩

/-- Only the first comment of a line is looked at: a statement is found inside the second one, and
comments below a block are cut off there. -/
theorem inside_reopened :
    let text := "/* a */ /* b\nimport c from \"c\";\n*/\nimport d from \"d\";\n".toList
    let more := "import a from \"a\";\n/* b */ /* c\n*/\nrun();\n".toList
    let above := ["/* a */ /* b\n".toList]
    let comments := ["import a from \"a\";\n".toList, "/* b */ /* c".toList]
    (Place text above ∧ inBlockComment (label .code above) = true) ∧
      Place more comments ∧ inBlockComment (label .code comments) = true := by
  intro text more above comments
  have hfound : Region.find? text = some ⟨"/* a */ /* b\n".toList, "import c from \"c\";".toList,
      "\n*/\nimport d from \"d\";\n".toList⟩ := by decide +kernel
  have hmore : Region.find? more = some ⟨[], "import a from \"a\";".toList,
      "\n/* b */ /* c\n*/\nrun();\n".toList⟩ := by decide +kernel
  have hplace : Place text above :=
    .found hfound (by decide +kernel : pieces text = above ++
      "import c from \"c\";\n".toList :: (pieces text).drop 2) (by decide +kernel)
      (by decide +kernel)
  have hcomments : comments = pieces ([] ++ "import a from \"a\";".toList ++
      (splitTrailingComments "\n/* b */ /* c\n*/\nrun();\n".toList).1) := by decide +kernel
  have hbelow : Place more comments := hcomments ▸ .trailing hmore
  exact ⟨⟨hplace, by decide +kernel⟩, hbelow, by decide +kernel⟩

end Place
end ImportBlock
