import ImportBlock.Text.Basic

/-! Lines with and without the line break that ends them. Only a line feed ends a line. -/

namespace ImportBlock.Text

/-- The lines of a text, each with its line feed. -/
def pieces : Text → List Text
  | [] => []
  | c :: rest =>
    if c = '\n' then [c] :: pieces rest
    else
      match pieces rest with
      | [] => [[c]]
      | piece :: more => (c :: piece) :: more

/-- The piece without its line feed and one carriage return before that. -/
def dropBreak (piece : Text) : Text :=
  match piece.reverse with
  | '\n' :: '\r' :: body => body.reverse
  | '\n' :: body => body.reverse
  | _ => piece

def lines (text : Text) : List Text := (pieces text).map dropBreak

/-- The piece without any line feeds and carriage returns at its end. -/
def content (piece : Text) : Text := dropEndWhile isBreak piece

def flattenContent (pieces : List Text) : Text :=
  pieces.dropLast.flatten ++ content (pieces.getLast?.getD [])

theorem flatten_pieces (text : Text) : (pieces text).flatten = text := by
  induction text with
  | nil => rfl
  | cons c rest ih =>
    rw [pieces]
    split
    · simp [ih]
    · split
      · next none => rw [none] at ih; simpa using ih
      · next more => rw [more] at ih; simpa using ih

theorem isPrefix_flattenContent {front whole : List Text} (h : front <+: whole) :
    flattenContent front <+: whole.flatten := by
  obtain ⟨more, rfl⟩ := h
  rw [flattenContent, List.flatten_append]
  refine List.IsPrefix.trans ?_ (List.prefix_append _ _)
  rcases List.eq_nil_or_concat front with rfl | ⟨init, last, rfl⟩
  · simp [content, dropEndWhile]
  · simpa [content] using isPrefix_dropEndWhile isBreak last

end ImportBlock.Text
