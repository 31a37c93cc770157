import ImportBlock.Proofs.Format.Written
import ImportBlock.Proofs.Layout.Repeated

/-! The comments between statements, and which of them are lost when a block is put in order. -/

namespace ImportBlock

open Text Line Layout

namespace Block.Below

variable {mode : Mode} {n : Nat} {texts : List Text}

def comments (below : Below) : List Text :=
  below.statements.flatMap Statement.comments ++ below.trailing

theorem comments_addComment (below : Below) (text : Text) :
    (below.addComment text).comments = text :: below.comments := by
  rw [addComment]
  split
  · next hnone => simp [comments, hnone]
  · next statement rest hsome => simp [comments, hsome]

theorem comments_read (inside : ∀ line ∈ label mode texts, line.inBlock = true) :
    (empty.read mode n texts).comments =
      ((label mode texts).filter (·.isCommentKind)).map Line.text := by
  induction texts generalizing mode n with
  | nil => rfl
  | cons text rest ih =>
    rw [label, List.forall_mem_cons] at inside
    obtain ⟨hhere, hrest⟩ := inside
    have hbelow := ih (n := n + 1) hrest
    rw [read_cons, label]
    dsimp only
    generalize (mode.read (trim text)).2 = next at hbelow ⊢
    cases hkind : (mode.read (trim text)).1 with
    | blank | opening | continued =>
      rw [List.filter_cons_of_neg (by simp [isCommentKind]), ← hbelow]
      rfl
    | comment done =>
      rw [List.filter_cons_of_pos rfl, List.map_cons, ← hbelow]
      exact comments_addComment _ text
    | mixed | code => simp [inBlock, hkind] at hhere

end Block.Below

namespace Region

/-- The lines of comments between the statements of the block. -/
def commentLines (region : Region) : List Text :=
  ((label .code (lines region.block)).filter (·.isCommentKind)).map (content ·.text)

theorem commentLines_eq {text : Text} {region : Region} (found : find? text = some region) :
    region.commentLines =
      ((Block.parse region.block).statements.flatMap Statement.comments).map content := by
  have hblock := isBlock_lines found
  have hread := Block.Below.comments_read (n := 0) hblock.inside
  have htrailing := (Block.Below.none_trailing_read (n := 0) hblock.inside hblock.ends
    hblock.ne_nil).1
  rw [Block.Below.comments, htrailing, List.append_nil] at hread
  rw [parse_block_of_find? found, commentLines, hread, List.map_map]
  rfl

end Region

namespace Format

variable {settings : Settings} {text : Text} {region : Region}

/-- The comments of the statements that are left out. -/
def droppedComments (settings : Settings) (region : Region) : List Text :=
  ((repeats settings (Block.parse region.block).statements).flatMap Statement.comments).map content

def otherLines (settings : Settings) (region : Region) : List Text :=
  contents region.before ++
    (groupLines (gap settings) false
      ((writtenGroups settings (Block.parse region.block).statements).map
        (·.map Statement.uncommented))).map content ++
    (contents region.after).tail

theorem flatMap_comments_writtenGroups (settings : Settings) (statements : List Statement) :
    (writtenGroups settings statements).flatten.flatMap Statement.comments =
      (arranged settings statements).flatten.flatMap Statement.comments := by
  rw [writtenGroups, ← List.map_flatten, List.flatMap_map]
  rfl

section Found

variable (found : Region.find? text = some region) (closed : region.Closed)
  (valid : settings.validate = .ok ()) (mode : settings.wholeDocument = false)

include found

theorem contents_region {middle : List Text} (free : NoFeed middle) (filled : EndsFilled middle) :
    contents (region.before ++ (joinWith (lineBreak text) middle ++ region.after)) =
      contents region.before ++ (middle.map content ++ (contents region.after).tail) := by
  obtain ⟨header, block, last, run, rest, h⟩ := Region.exists_ofText found
  rw [contents_append h.ended_before, h.after_eq, contents_joinWith (wholeBreak_lineBreak text) free
    filled h.breaks h.feed h.follows]

include closed valid mode

/-- The lines that are read and those that are written share the comments that stay. -/
theorem exists_kept_comments : ∃ kept : List Text,
    region.commentLines.Perm (kept ++ droppedComments settings region) ∧
      (contents (formatted settings [] text)).Perm (kept ++ otherLines settings region) := by
  refine ⟨((arranged settings (Block.parse region.block).statements).flatten.flatMap
    Statement.comments).map content, ?_, ?_⟩
  · have hperm := (arranged_append_repeats_perm valid
      (Block.parse region.block).statements).flatMap_right Statement.comments
    have hlines := (hperm.map content).symm
    rw [List.flatMap_append, List.map_append] at hlines
    rwa [Region.commentLines_eq found]
  · have hwritten := (groupLines_perm (gap settings) false
      (writtenGroups settings (Block.parse region.block).statements)).map content
    rw [flatMap_comments_writtenGroups, List.map_append] at hwritten
    have hfree : NoFeed (writtenLines settings (Block.parse region.block).statements) :=
      noFeed_writtenLines (Region.noFeed_source_of_find? found)
    have hlines := contents_region found hfree (endsFilled_writtenLines found closed valid)
    rw [formatted_of_closed found closed valid mode, hlines, otherLines, writtenLines,
      List.perm_iff_count]
    intro line
    have hcount := hwritten.count_eq line
    simp only [List.count_append] at hcount ⊢
    omega

/-- No line of a comment becomes rarer if and only if those of the statements left out stand in
other places of the formatted text. -/
theorem count_commentLines_le_iff :
    (∀ line, region.commentLines.count line ≤
        (contents (formatted settings [] text)).count line) ↔
      ∀ line, (droppedComments settings region).count line ≤
        (otherLines settings region).count line := by
  obtain ⟨kept, hread, hwritten⟩ := exists_kept_comments found closed valid mode
  simp only [hread.count_eq, hwritten.count_eq, List.count_append, Nat.add_le_add_iff_left]

end Found

def annotated : Region where
  before := endLines ["// top".toList]
  block := joinWith ['\n'] (["import z from \"./z\";", "// about a", "import a from \"a\";",
    "/* two", "", "   lines */", "import b from \"b\";", "import z from \"./z\";"].map
      String.toList)
  after := "\nrun();\n".toList

theorem count_commentLines_annotated :
    let settings : Settings := { }
    Region.find? annotated.text = some annotated ∧ annotated.Closed ∧
      settings.validate = .ok () ∧ settings.wholeDocument = false ∧
      annotated.commentLines = ["// about a", "/* two", "", "   lines */"].map String.toList ∧
      (repeats settings (Block.parse annotated.block).statements).map Statement.rawText =
        ["import z from \"./z\";".toList] ∧
      ∀ line, annotated.commentLines.count line ≤
        (contents (formatted settings [] annotated.text)).count line := by
  intro settings
  have hfound : Region.find? annotated.text = some annotated := by decide +kernel
  have hclosed : annotated.Closed := by decide +kernel
  have hnone : droppedComments settings annotated = [] := by
    rw [droppedComments, repeats, group_eq_insertionSort]
    decide +kernel
  refine ⟨hfound, hclosed, rfl, rfl, by decide +kernel, ?_,
    (count_commentLines_le_iff hfound hclosed rfl rfl).mpr fun line => ?_⟩
  · rw [repeats, group_eq_insertionSort]
    decide +kernel
  · rw [hnone, List.count_nil]
    exact Nat.zero_le _

def restated : Region where
  before := []
  block := joinWith ['\n'] (["import a from \"a\";", "// keep me", "import a from \"a\";"].map
    String.toList)
  after := ['\n']

/-- The comment is dropped with the statement that repeats another. -/
theorem lost_comment_restated :
    let settings : Settings := { }
    Region.find? restated.text = some restated ∧ restated.Closed ∧
      settings.validate = .ok () ∧ settings.wholeDocument = false ∧
      restated.commentLines.count "// keep me".toList = 1 ∧
      contents (formatted settings [] restated.text) = ["import a from \"a\";".toList] := by
  intro settings
  have hfound : Region.find? restated.text = some restated := by decide +kernel
  refine ⟨hfound, by decide +kernel, rfl, rfl, by decide +kernel, ?_⟩
  rw [formatted_of_find? hfound, replacement, rendered, keptGroup_eq, group_eq_insertionSort]
  decide +kernel

end Format
end ImportBlock
