import ImportBlock.Proofs.Block.Below
import ImportBlock.Proofs.Region.Cut

/-! A found block is read to its last line: reading statements out of it loses nothing but the
blank lines between them. -/

namespace ImportBlock

open Text

namespace Line

/-- The lines without the blank ones outside statements and block comments. -/
def dropLooseBlanks : Mode → List Text → List Text
  | _, [] => []
  | mode, line :: rest =>
    let kept := dropLooseBlanks (mode.read (trim line)).2 rest
    if mode = .code ∧ isBlank line = true then kept else line :: kept

theorem dropLooseBlanks_cons (mode : Mode) (line : Text) (rest : List Text) :
    dropLooseBlanks mode (line :: rest) =
      if (mode.read (trim line)).1 = .blank then dropLooseBlanks (mode.read (trim line)).2 rest
      else line :: dropLooseBlanks (mode.read (trim line)).2 rest := by
  simp only [dropLooseBlanks, ← Mode.read_trim_eq_blank_iff]

theorem dropLooseBlanks_sublist (mode : Mode) (texts : List Text) :
    (dropLooseBlanks mode texts).Sublist texts := by
  induction texts generalizing mode with
  | nil => exact .slnil
  | cons text rest ih =>
    rw [dropLooseBlanks_cons]
    split
    · exact (ih _).cons text
    · exact (ih _).cons_cons text

end Line

namespace Block.Below

open Line

variable {mode : Mode} {n : Nat} {texts : List Text}

theorem none_continued_read (outside : mode.inStatement = false)
    (inside : ∀ line ∈ label mode texts, line.inBlock = true) :
    (empty.read mode n texts).continued = [] := by
  induction texts generalizing mode n with
  | nil => rfl
  | cons text rest ih =>
    simp only [label, List.mem_cons, forall_eq_or_imp] at inside
    rcases inside with ⟨hhere, hrest⟩
    have hreads := Mode.reads_read mode (trim text)
    rw [read_cons]
    rcases hread : mode.read (trim text) with ⟨kind, next⟩
    rw [hread] at hreads hhere hrest
    dsimp only at hreads hhere hrest ⊢
    cases hreads with
    | blank => exact ih rfl hrest
    | code | mixed => simp [inBlock] at hhere
    | comment | openComment | insideComment | closeComment =>
      exact (continued_addComment _ _).trans (ih rfl hrest)
    | openStatement | wholeStatement => rfl
    | insideStatement | closeStatement => simp [Mode.inStatement] at outside

theorem texts_read (inside : ∀ line ∈ label mode texts, line.inBlock = true) :
    (empty.read mode n texts).texts = dropLooseBlanks mode texts := by
  induction texts generalizing mode n with
  | nil => rfl
  | cons text rest ih =>
    simp only [label, List.mem_cons, forall_eq_or_imp] at inside
    rcases inside with ⟨hhere, hrest⟩
    have htexts := ih (n := n + 1) hrest
    have hnone := fun outside => none_continued_read (n := n + 1) outside hrest
    have hreads := Mode.reads_read mode (trim text)
    rw [read_cons, dropLooseBlanks_cons, ← htexts]
    generalize empty.read _ (n + 1) rest = below at hnone ⊢
    rcases hread : mode.read (trim text) with ⟨kind, next⟩
    rw [hread] at hreads hhere hnone
    dsimp only at hreads hhere hnone ⊢
    cases hreads with
    | blank => rfl
    | code | mixed => simp [inBlock] at hhere
    | comment | openComment | insideComment | closeComment =>
      exact texts_addComment text (hnone rfl)
    | openStatement | wholeStatement => rfl
    | insideStatement | closeStatement => rfl

theorem none_trailing_read (inside : ∀ line ∈ label mode texts, line.inBlock = true)
    (ends : ∀ front last, label mode texts = front ++ [last] → last.isFiller = false)
    (ne : texts ≠ []) :
    (empty.read mode n texts).trailing = [] ∧
      (mode.inStatement = false → (empty.read mode n texts).statements ≠ []) := by
  -- Lines are read from below, so a comment goes to the statements only if there is one by then.
  induction texts generalizing mode n with
  | nil => contradiction
  | cons text rest ih =>
    simp only [label, List.mem_cons, forall_eq_or_imp] at inside
    rcases inside with ⟨hhere, hinside⟩
    have hreads := Mode.reads_read mode (trim text)
    have hends : ∀ front last, label (mode.read (trim text)).2 rest = front ++ [last] →
        last.isFiller = false := by
      intro front last h
      exact ends (⟨(mode.read (trim text)).1, text⟩ :: front) last (congrArg (List.cons _) h)
    -- A filler line is not the last of the block.
    have hrest : isFiller ⟨(mode.read (trim text)).1, text⟩ = true → rest ≠ [] := by
      intro hfiller hnil
      have := ends [] ⟨(mode.read (trim text)).1, text⟩ (by rw [hnil]; rfl)
      simp [hfiller] at this
    have hih := fun ne => ih (n := n + 1) hinside hends ne
    have hnil : rest = [] → empty.read (mode.read (trim text)).2 (n + 1) rest = empty := by
      rintro rfl
      rfl
    rw [read_cons]
    generalize empty.read _ (n + 1) rest = below at hih hnil ⊢
    rcases hread : mode.read (trim text) with ⟨kind, next⟩
    rw [hread] at hreads hhere hrest hih
    dsimp only at hreads hhere hrest hih ⊢
    have htrailing : below.trailing = [] := by
      by_cases hempty : rest = []
      · rw [hnil hempty]
        rfl
      · exact (hih hempty).1
    cases hreads with
    | blank => exact hih (hrest rfl)
    | code | mixed => simp [inBlock] at hhere
    | comment | openComment | insideComment | closeComment =>
      have hsome := (hih (hrest rfl)).2 rfl
      refine ⟨?_, fun _ => ?_⟩
      · rw [add, trailing_addComment text hsome, htrailing]
      · rw [add, Ne, statements_addComment]
        exact hsome
    | openStatement | wholeStatement => exact ⟨htrailing, fun _ => List.cons_ne_nil _ _⟩
    | insideStatement | closeStatement => exact ⟨htrailing, by simp [Mode.inStatement]⟩

end Block.Below

namespace Region

open Line

theorem isBlock_lines {text : Text} {region : Region} (found : find? text = some region) :
    IsBlock (lines region.block) := by
  rcases exists_cut_of_find? found with ⟨header, block, below, hsplit, hcut, -, hblock⟩
  rcases exists_lines_of_pieces hsplit hcut.ne_nil with ⟨ls, l, feed, hfree, hfeed, rfl⟩
  rcases noFeed_append.mp hfree with ⟨hls, hl⟩
  have hcontent := content_append_breaks (break_of_feed hfeed) l
  have htrim := trim_append_breaks (break_of_feed hfeed) l
  have hno : '\n' ∉ content l := not_mem_content (hl l (by simp))
  rw [flattenContent_concat, hcontent] at hblock
  have hmap : ∀ xs : List Text, ((xs.map (· ++ ['\n'])).map dropBreak).map trim = xs.map trim := by
    intro xs
    rw [map_trim_map trim_dropBreak, map_trim_feed]
  rw [hblock, lines, pieces_endLines hls, List.map_append]
  by_cases hnil : content l = []
  · have hblank : trim (l ++ feed) = [] := by
      rw [htrim, ← trim_content, hnil]
      rfl
    have hshort := hcut.toIsBlock.of_blank_last hblank
    rw [hnil, pieces, List.map_nil, List.append_nil]
    exact hshort.of_trim (by rw [hmap, map_trim_feed])
  · rw [pieces_last hno hnil, List.map_singleton, dropBreak_of_not_mem hno]
    apply hcut.toIsBlock.of_trim
    rw [List.map_append, List.map_append, hmap, map_trim_feed]
    simp only [List.map_singleton, htrim, trim_content]

/-- Finding a block and reading it agree line by line, whatever the text. -/
theorem parse_block_of_found {text : Text} {region : Region} (found : find? text = some region) :
    let block := Block.parse region.block
    block.header = [] ∧ block.trailing = [] ∧ block.statements ≠ [] ∧
      block.statements.flatMap (fun statement => statement.comments ++ statement.lines) =
        dropLooseBlanks .code (lines region.block) := by
  have hblock := isBlock_lines found
  have hparse := Block.parse_of_split [] (rfl : lines region.block = _) rfl
    (by simp [label]) hblock.opens hblock.ne_code
  have hnone := Block.Below.none_continued_read (n := 0) rfl hblock.inside
  have htexts := Block.Below.texts_read (n := 0) hblock.inside
  obtain ⟨htrailing, hsome⟩ := Block.Below.none_trailing_read (n := 0) hblock.inside hblock.ends
    hblock.ne_nil
  rw [Block.Below.texts, hnone, htrailing, List.nil_append, List.append_nil] at htexts
  rw [hparse]
  exact ⟨rfl, htrailing, hsome rfl, htexts⟩

def ragged : Region where
  before := endLines ["// top".toList]
  block := joinWith ['\n'] (["import \x7b", "", "  a,", "\x7d from \"a\";\r\r", "\r", "/* one", "",
    "two */", "import b from \"b\"", " ", "import (", "", "// inside"].map String.toList)
  after := []

theorem parse_block_ragged :
    let block := Block.parse ragged.block
    find? ragged.text = some ragged ∧ block.header = [] ∧ block.trailing = [] ∧
      block.statements ≠ [] ∧
      block.statements.flatMap (fun statement => statement.comments ++ statement.lines) =
        dropLooseBlanks .code (lines ragged.block) := by
  have hfound : find? ragged.text = some ragged := by decide +kernel
  exact ⟨hfound, parse_block_of_found hfound⟩

end Region
end ImportBlock
