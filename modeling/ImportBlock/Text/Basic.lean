namespace ImportBlock

abbrev Text := List Char

namespace Text

/-- Offsets count the bytes of the UTF-8 form. -/
def byteLength : Text → Nat
  | [] => 0
  | c :: rest => c.utf8Size + byteLength rest

/-- The `White_Space` characters of Unicode. -/
def isWhite (c : Char) : Bool :=
  let n := c.toNat
  (9 ≤ n && n ≤ 13) || n == 32 || n == 0x85 || n == 0xA0 || n == 0x1680 ||
    (0x2000 ≤ n && n ≤ 0x200A) || n == 0x2028 || n == 0x2029 || n == 0x202F ||
    n == 0x205F || n == 0x3000

def isBreak (c : Char) : Bool := c == '\n' || c == '\r'

def dropEndWhile {α : Type} (p : α → Bool) (xs : List α) : List α :=
  (xs.reverse.dropWhile p).reverse

def trimStart (text : Text) : Text := text.dropWhile isWhite

def trimEnd (text : Text) : Text := dropEndWhile isWhite text

def trim (text : Text) : Text := trimEnd (trimStart text)

def isBlank (text : Text) : Bool := text.all isWhite

/-- What follows `start`, if the text begins with it. -/
def stripStart : Text → Text → Option Text
  | [], text => some text
  | _ :: _, [] => none
  | c :: start, d :: text => if c = d then stripStart start text else none

def startsWith (start text : Text) : Bool := (stripStart start text).isSome

def splitFirst (pattern : Text) : Text → Option (Text × Text)
  | [] => none
  | c :: rest =>
    match stripStart pattern (c :: rest) with
    | some after => some ([], after)
    | none => (splitFirst pattern rest).map fun sides => (c :: sides.1, sides.2)

def splitLast (pattern : Text) : Text → Option (Text × Text)
  | [] => none
  | c :: rest =>
    match splitLast pattern rest with
    | some sides => some (c :: sides.1, sides.2)
    | none => (stripStart pattern (c :: rest)).map fun after => ([], after)

def includes (pattern text : Text) : Bool := (splitFirst pattern text).isSome

/-- The parts between the separators, one more than there are separators. -/
def splitBy (isSeparator : Char → Bool) : Text → List Text
  | [] => [[]]
  | c :: rest =>
    if isSeparator c then [] :: splitBy isSeparator rest
    else
      match splitBy isSeparator rest with
      | [] => [[c]]
      | part :: parts => (c :: part) :: parts

def splitOn (separator : Char) (text : Text) : List Text := splitBy (· == separator) text

def words (text : Text) : List Text := (splitBy isWhite text).filter (!·.isEmpty)

/-- The parts between the separators, trimmed, empty ones left out. -/
def items (separator : Char) (text : Text) : List Text :=
  ((splitOn separator text).map trim).filter (!·.isEmpty)

def joinWith (separator : Text) : List Text → Text
  | [] => []
  | [part] => part
  | part :: parts => part ++ separator ++ joinWith separator parts

def replaceChar (old : Char) (new : Text) (text : Text) : Text :=
  text.flatMap fun c => if c = old then new else [c]

def le : Text → Text → Bool
  | [], _ => true
  | _ :: _, [] => false
  | c :: cs, d :: ds => if c = d then le cs ds else c < d

theorem isPrefix_dropEndWhile {α : Type} (p : α → Bool) (xs : List α) :
    dropEndWhile p xs <+: xs := by
  have h := List.reverse_prefix.2 (@List.dropWhile_suffix _ xs.reverse p)
  rwa [List.reverse_reverse] at h

theorem byteLength_append (left right : Text) :
    byteLength (left ++ right) = byteLength left + byteLength right := by
  induction left with
  | nil => simp [byteLength]
  | cons c rest ih => simp only [List.cons_append, byteLength, ih, Nat.add_assoc]

theorem eq_append_of_stripStart {start text rest : Text} (h : stripStart start text = some rest) :
    text = start ++ rest := by
  induction start generalizing text with
  | nil => simpa [stripStart] using h
  | cons c start ih =>
    cases text with
    | nil => simp [stripStart] at h
    | cons d text =>
      rw [stripStart] at h
      split at h
      · next same => rw [ih h, same]; rfl
      · simp at h

theorem eq_append_of_splitFirst {pattern text : Text} {sides : Text × Text}
    (h : splitFirst pattern text = some sides) : text = sides.1 ++ pattern ++ sides.2 := by
  induction text generalizing sides with
  | nil => simp [splitFirst] at h
  | cons c text ih =>
    rw [splitFirst] at h
    split at h
    · next after found => cases h; simpa using eq_append_of_stripStart found
    · obtain ⟨inner, found, rfl⟩ := Option.map_eq_some_iff.1 h
      simpa using ih found

end Text
end ImportBlock
