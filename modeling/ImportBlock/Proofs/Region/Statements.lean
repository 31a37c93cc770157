import ImportBlock.Proofs.Block.Statements
import ImportBlock.Proofs.Region.Agreement
import ImportBlock.Proofs.Region.Lines

namespace ImportBlock

open Text Line

namespace Block.Below

variable {block : List Text}

theorem mem_of_mem_source (n : Nat) (inside : ∀ line ∈ label .code block, line.inBlock = true)
    {statement : Statement} (member : statement ∈ (empty.read .code n block).statements)
    {text : Text} (line : text ∈ statement.source) : text ∈ block := by
  have htexts := texts_read (n := n) inside
  apply (dropLooseBlanks_sublist .code block).subset
  rw [← htexts, texts]
  exact List.mem_append_left _ (List.mem_append_right _
    (List.mem_flatMap.mpr ⟨statement, member, line⟩))

theorem read_comments_below (n : Nat) {comments : List Text}
    (closed : Mode.after .code block = .code) (run : Mode.CommentRun .code comments) :
    empty.read .code n (block ++ comments) = (empty.read .code n block).withTrailing comments := by
  have hcomments := read_trailing empty .code (n + block.length) run.1 rfl
  rw [read_append, closed, hcomments, ← read_withTrailing, withTrailing]
  simp [empty]

end Block.Below

/-- A block is read alike with a header above it and, once it is closed, comments below it. -/
theorem Block.parse_of_isBlock {text : Text} {header block comments : List Text}
    (split : lines text = header ++ (block ++ comments)) (settled : Mode.after .code header = .code)
    (allHeader : AllHeader (label .code header)) (isBlock : Region.IsBlock block)
    (run : Mode.CommentRun .code comments)
    (closed : comments ≠ [] → Mode.after .code block = .code) :
    parse text = ⟨(label .code header).filterMap HeaderLine.ofLine?,
      (Below.empty.read .code header.length block).statements, comments⟩ := by
  have habove : ∀ line ∈ label .code header, line.kind ≠ .opening := by
    intro line member hopening
    have hheader := (allHeader_iff.mp allHeader).1 line member
    simp [inHeader, hopening] at hheader
  have htrailing := (Below.none_trailing_read (n := header.length) isBlock.inside isBlock.ends
    isBlock.ne_nil).1
  by_cases hnil : comments = []
  · subst hnil
    rw [List.append_nil] at split
    rw [parse_of_split header split settled habove isBlock.opens isBlock.ne_code]
    simp only [htrailing]
  · have hclosed := closed hnil
    have hinside : ∀ line ∈ label .code (block ++ comments), line.kind ≠ .code := by
      intro line member
      rw [label_append, hclosed] at member
      rcases List.mem_append.mp member with hline | hline
      · exact isBlock.ne_code line hline
      · rcases exists_kind_of_isCommentKind (run.1 line hline) with ⟨done, hkind⟩
        simp [hkind]
    have hopens : ∃ first rest, label .code (block ++ comments) = first :: rest ∧
        first.kind = .opening := by
      rcases isBlock.opens with ⟨first, rest, hlabel, hopening⟩
      exact ⟨first, rest ++ label .code comments, by rw [label_append, hclosed, hlabel]; rfl,
        hopening⟩
    rw [parse_of_split header split settled habove hopens hinside,
      Below.read_comments_below _ hclosed run]
    simp only [Below.withTrailing, htrailing, List.nil_append]

namespace Region.OfLines

variable {region : Region} {header block : List Text}

/-- The statements of the block, the first line of it having the number `n`. -/
def statements (_ : OfLines region header block) (n : Nat) : List Statement :=
  (Block.Below.empty.read .code n block).statements

theorem parse_block (h : OfLines region header block) :
    Block.parse region.block = ⟨[], h.statements 0, []⟩ := by
  have hlines : lines region.block = [] ++ (block ++ []) := by
    rw [h.lines_block, List.nil_append, List.append_nil]
  exact Block.parse_of_isBlock hlines rfl trivial h.cut.toIsBlock Mode.commentRun_nil
    fun ne => absurd rfl ne

theorem whole (h : OfLines region header block) (n : Nat) :
    ∀ statement ∈ h.statements n, statement.Whole :=
  (Block.Below.fits_read h.cut.inside h.closed).whole

theorem free_source (h : OfLines region header block) (n : Nat) :
    ∀ statement ∈ h.statements n, ∀ line ∈ statement.source, '\n' ∉ line ∧ '\r' ∉ line := by
  intro statement member line hline
  have hmem := Block.Below.mem_of_mem_source n h.cut.inside member hline
  exact ⟨(noFeed_append.mp h.free).2 line hmem, h.noReturn line hmem⟩

theorem statements_ne_nil (h : OfLines region header block) (n : Nat) : h.statements n ≠ [] :=
  (Block.Below.none_trailing_read h.cut.inside h.cut.ends h.cut.ne_nil).2 rfl

end Region.OfLines

end ImportBlock
