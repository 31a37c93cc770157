import ImportBlock.Text.Offset
import ImportBlock.Proofs.Text.Utf8

namespace ImportBlock.Text

theorem splitAtByte?_append (left right : Text) :
    splitAtByte? (byteLength left) (left ++ right) = some (left, right) := by
  induction left with
  | nil =>
    rw [byteLength, List.nil_append, splitAtByte?.eq_1]
  | cons c left ih =>
    have hsize := c.utf8Size_pos
    obtain ⟨size, hsucc⟩ : ∃ size, byteLength (c :: left) = size + 1 :=
      Nat.exists_eq_succ_of_ne_zero (by simp only [byteLength]; omega)
    rw [hsucc, List.cons_append, splitAtByte?, ← hsucc, byteLength, if_neg (by omega),
      Nat.add_sub_cancel_left, ih]
    · rfl
    · simp

theorem replaceRange?_append (before old new after : Text) :
    replaceRange? (byteLength before) (byteLength (before ++ old)) new (before ++ old ++ after) =
      some (before ++ new ++ after) := by
  have hsize := byteLength_append before old
  rw [replaceRange?, if_pos (by omega), List.append_assoc, splitAtByte?_append]
  simp only [Option.bind_eq_bind, Option.bind_some]
  rw [hsize, Nat.add_sub_cancel_left, splitAtByte?_append]
  rfl

/-- A character starts at the offset or the text ends there. -/
def IsBoundary (text : Text) (offset : Nat) : Prop :=
  ∃ front back, text = front ++ back ∧ byteLength front = offset

variable {text : Text} {start stop : Nat}

structure IsRange (text : Text) (start stop : Nat) : Prop where
  ordered : start ≤ stop
  inside : stop ≤ byteLength text
  first : IsBoundary text start
  last : IsBoundary text stop

theorem isRange_append (before old after : Text) :
    IsRange (before ++ old ++ after) (byteLength before) (byteLength (before ++ old)) where
  ordered := by
    rw [byteLength_append]
    omega
  inside := by
    rw [byteLength_append _ after]
    omega
  first := ⟨before, old ++ after, List.append_assoc _ _ _, rfl⟩
  last := ⟨before ++ old, after, rfl, rfl⟩

theorem eq_nil_of_byteLength (size : byteLength text = 0) : text = [] := by
  cases text with
  | nil => rfl
  | cons c rest =>
    have hsize := c.utf8Size_pos
    rw [byteLength] at size
    omega

theorem IsRange.exists_append (range : IsRange text start stop) :
    ∃ before old after, text = before ++ old ++ after ∧ byteLength before = start ∧
      byteLength (before ++ old) = stop := by
  obtain ⟨before, rest, rfl, rfl⟩ := range.first
  obtain ⟨front, after, same, rfl⟩ := range.last
  have hordered := range.ordered
  rcases List.append_eq_append_iff.mp same with ⟨old, rfl, rfl⟩ | ⟨more, rfl, rfl⟩
  · exact ⟨before, old, after, (List.append_assoc _ _ _).symm, rfl, rfl⟩
  · -- The end is not ahead of the start, so nothing lies between them.
    have hmore : more = [] := by
      rw [byteLength_append] at hordered
      exact eq_nil_of_byteLength (by omega)
    rw [hmore, List.append_nil] at *
    exact ⟨front, [], rest, by simp, rfl, by simp⟩

/-- What can be replaced is what begins and ends between characters. -/
theorem isSome_replaceRange?_iff {new : Text} :
    (replaceRange? start stop new text).isSome ↔ IsRange text start stop := by
  constructor
  · intro replaces
    rw [replaceRange?] at replaces
    split at replaces
    · next ordered =>
      obtain ⟨result, replaced⟩ := Option.isSome_iff_exists.mp replaces
      simp only [Option.bind_eq_bind, Option.bind_eq_some_iff] at replaced
      obtain ⟨⟨before, rest⟩, hbefore, ⟨old, after⟩, hold, -⟩ := replaced
      obtain ⟨rfl, rfl⟩ := eq_append_of_splitAtByte? hbefore
      obtain ⟨hrest, hsize⟩ := eq_append_of_splitAtByte? hold
      dsimp only at hrest hsize ordered ⊢
      subst hrest
      have hstop : stop = byteLength (before ++ old) := by
        rw [byteLength_append]
        omega
      rw [hstop, ← List.append_assoc]
      exact isRange_append before old after
    · simp at replaces
  · intro range
    obtain ⟨before, old, after, rfl, rfl, rfl⟩ := range.exists_append
    rw [replaceRange?_append]
    rfl

theorem encode_append (left right : Text) : encode (left ++ right) = encode left ++ encode right :=
  List.flatMap_append

theorem length_encode (text : Text) : (encode text).length = byteLength text := by
  induction text with
  | nil => rfl
  | cons c rest ih =>
    rw [encode, List.flatMap_cons, List.length_append, String.length_utf8EncodeChar, byteLength]
    rw [encode] at ih
    rw [ih]

theorem take_encode_append (front back : Text) :
    (encode (front ++ back)).take (byteLength front) = encode front := by
  rw [encode_append, ← length_encode, List.take_left]

theorem drop_encode_append (front back : Text) :
    (encode (front ++ back)).drop (byteLength front) = encode back := by
  rw [encode_append, ← length_encode, List.drop_left]

def isBreakByte (b : UInt8) : Bool := b == 0x0A || b == 0x0D

theorem encode_dropWhile_isBreak (text : Text) :
    encode (text.dropWhile isBreak) = (encode text).dropWhile isBreakByte := by
  induction text with
  | nil => rfl
  | cons c rest ih =>
    have hcons : encode (c :: rest) = String.utf8EncodeChar c ++ encode rest := List.flatMap_cons
    by_cases breaks : isBreak c = true
    · rw [List.dropWhile_cons_of_pos breaks, ih, hcons]
      simp only [isBreak, Bool.or_eq_true, beq_iff_eq] at breaks
      rcases breaks with rfl | rfl <;> rfl
    · rw [List.dropWhile_cons_of_neg breaks]
      -- What starts with the byte of a line break is decoded as that line break.
      have hdecoded := decodePart_encode (c :: rest)
      cases hbytes : encode (c :: rest) with
      | nil => rfl
      | cons b bytes =>
        rw [List.dropWhile_cons_of_neg]
        intro hb
        apply breaks
        simp only [isBreakByte, Bool.or_eq_true, beq_iff_eq] at hb
        have hsmall : b < 0x80 := by rcases hb with rfl | rfl <;> decide
        rw [hbytes, decodePart_one bytes hsmall, Prod.mk.injEq, List.cons.injEq] at hdecoded
        rw [← hdecoded.1.1]
        rcases hb with rfl | rfl <;> rfl

end ImportBlock.Text
