import ImportBlock.Text.Basic

namespace ImportBlock.Text

/-- Both sides of a byte offset, if a character starts there or the text ends. -/
def splitAtByte? : Nat → Text → Option (Text × Text)
  | 0, text => some ([], text)
  | _ + 1, [] => none
  | offset, c :: rest =>
    if offset < c.utf8Size then none
    else (splitAtByte? (offset - c.utf8Size) rest).map fun sides => (c :: sides.1, sides.2)

def replaceRange? (start stop : Nat) (new text : Text) : Option Text :=
  if start ≤ stop then do
    let (before, rest) ← splitAtByte? start text
    let (_, after) ← splitAtByte? (stop - start) rest
    some (before ++ new ++ after)
  else none

theorem eq_append_of_splitAtByte? {offset : Nat} {text : Text} {sides : Text × Text}
    (cut : splitAtByte? offset text = some sides) :
    text = sides.1 ++ sides.2 ∧ byteLength sides.1 = offset := by
  induction text generalizing offset sides with
  | nil =>
    cases offset with
    | zero => cases cut; exact ⟨rfl, rfl⟩
    | succ offset => simp [splitAtByte?] at cut
  | cons c rest ih =>
    cases offset with
    | zero => cases cut; exact ⟨rfl, rfl⟩
    | succ offset =>
      rw [splitAtByte?] at cut
      · split at cut
        · simp at cut
        · next fits =>
          obtain ⟨inner, found, rfl⟩ := Option.map_eq_some_iff.1 cut
          obtain ⟨same, size⟩ := ih found
          refine ⟨by simp [← same], ?_⟩
          simp only [byteLength, size]
          omega
      · intro h; simp at h

end ImportBlock.Text
