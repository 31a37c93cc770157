import ImportBlock.Line.Basic

/-! Where the leading import block of a source file lies. -/

namespace ImportBlock

open Text

/-- A source file cut around its import block. The block runs from the start of the first import
line to the end of the last statement, line break excluded. -/
structure Region where
  before : Text
  block : Text
  after : Text
  deriving DecidableEq, Repr

namespace Line

/-- Lines that may stand above the imports. A `#!` line counts only at the very top. -/
def inHeader (top : Bool) (line : Line) : Bool :=
  match line.kind with
  | .blank | .comment _ => true
  | .code => top && isShebang (trim line.text) || isDirective (trim line.text)
  | .mixed | .opening | .continued => false

def inBlock (line : Line) : Bool :=
  match line.kind with
  | .mixed | .code => false
  | .blank | .comment _ | .opening | .continued => true

/-- Blank and comment lines belong to the block only with a statement below them. -/
def isFiller (line : Line) : Bool :=
  match line.kind with
  | .blank | .comment _ => true
  | .mixed | .opening | .continued | .code => false

def isCommentKind (line : Line) : Bool := line.kind matches .comment _

def leavesOpen (line : Line) : Bool := line.kind == .comment false

end Line

namespace Region

def splitHeader : List Line → List Line × List Line
  | [] => ([], [])
  | line :: rest =>
    if line.inHeader true then
      (line :: rest.takeWhile (·.inHeader false), rest.dropWhile (·.inHeader false))
    else ([], line :: rest)

def find? (text : Text) : Option Region :=
  let (header, rest) := splitHeader (Line.label .code (pieces text))
  let block := dropEndWhile Line.isFiller (rest.takeWhile Line.inBlock)
  if block.isEmpty then none
  else
    let before := (header.map Line.text).flatten
    let block := flattenContent (block.map Line.text)
    some ⟨before, block, text.drop (before ++ block).length⟩

def text (region : Region) : Text := region.before ++ region.block ++ region.after

theorem append_splitHeader (lines : List Line) :
    (splitHeader lines).1 ++ (splitHeader lines).2 = lines := by
  cases lines with
  | nil => rfl
  | cons line rest =>
    rw [splitHeader]
    split
    · simp [List.takeWhile_append_dropWhile]
    · rfl

theorem text_of_find? {text : Text} {region : Region} (found : find? text = some region) :
    region.text = text := by
  rw [find?] at found
  split at found
  rename_i header rest cut
  have lines : header ++ rest = Line.label .code (pieces text) := by
    rw [← append_splitHeader (Line.label .code (pieces text)), cut]
  dsimp only at found
  split at found
  · simp at found
  · cases found
    have whole : (header.map Line.text).flatten ++ (rest.map Line.text).flatten = text := by
      rw [← List.flatten_append, ← List.map_append, lines, Line.map_text_label, flatten_pieces]
    have block := (isPrefix_dropEndWhile Line.isFiller (rest.takeWhile Line.inBlock)).trans
      (List.takeWhile_prefix _)
    obtain ⟨after, split⟩ := isPrefix_flattenContent (block.map Line.text)
    rw [Region.text]
    simp only [← whole, ← split, ← List.append_assoc, List.drop_left]

def start (region : Region) : Nat := byteLength region.before

def stop (region : Region) : Nat := byteLength (region.before ++ region.block)

end Region

/-- The line break after the block and the comment lines directly below it, then the rest. A
comment that never ends is left to the rest. -/
def splitTrailingComments (after : Text) : Text × Text :=
  match splitFirst ['\n'] after with
  | none => ([], after)
  | some (gap, below) =>
    let run := (Line.label .code (pieces below)).takeWhile Line.isCommentKind
    let comments := dropEndWhile Line.leavesOpen run
    if comments.isEmpty then ([], after)
    else
      let taken := gap ++ '\n' :: flattenContent (comments.map Line.text)
      (taken, after.drop taken.length)

theorem append_splitTrailingComments (after : Text) :
    (splitTrailingComments after).1 ++ (splitTrailingComments after).2 = after := by
  rw [splitTrailingComments]
  split
  · rfl
  · next gap below found =>
    have cut := eq_append_of_splitFirst found
    dsimp only
    split
    · rfl
    · have run := (isPrefix_dropEndWhile Line.leavesOpen
        ((Line.label .code (pieces below)).takeWhile Line.isCommentKind)).trans
        (List.takeWhile_prefix _)
      obtain ⟨rest, split⟩ := isPrefix_flattenContent (run.map Line.text)
      rw [Line.map_text_label, flatten_pieces] at split
      generalize flattenContent _ = taken at split ⊢
      rw [cut, ← split]
      simp

end ImportBlock
