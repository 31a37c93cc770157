import ImportBlock.Proofs.Line.Label
import ImportBlock.Proofs.Region.Grammar

/-! Block comments as they open and end from character to character, and as the modes of the lines
tell of them. -/

namespace ImportBlock

open Text

def Mode.inComment : Mode → Bool
  | .comment => true
  | .code | .statement _ => false

namespace Line

mutual

/-- The line ends inside a block comment: `//` outside of one takes the rest of the line. -/
def endsOpen : Text → Bool
  | [] => false
  | '/' :: '/' :: _ => false
  | '/' :: '*' :: rest => endsOpenAfterOpening rest
  | _ :: rest => endsOpen rest

def endsOpenAfterOpening : Text → Bool
  | [] => true
  | '*' :: '/' :: rest => endsOpen rest
  | _ :: rest => endsOpenAfterOpening rest

end

/-- Whether the line below begins inside a block comment. Code leaves none open. -/
def beginsInside (inside : Bool) (line : Text) : Bool :=
  if inside then onlyCommentsAfterClose line && endsOpenAfterOpening line
  else onlyComments line && endsOpen line

def isStatementKind (line : Line) : Bool :=
  match line.kind with
  | .opening | .continued => true
  | .blank | .comment _ | .mixed | .code => false

def insideBelow (inside : Bool) (line : Line) : Bool :=
  if line.isStatementKind then inside else beginsInside inside (trim line.text)

/-- What stands below the lines begins inside a block comment. -/
def inBlockComment (lines : List Line) : Bool := lines.foldl insideBelow false

def behindComment? : Mode → Text → Option Text
  | .code, '/' :: '*' :: rest => (splitFirst commentEnd rest).map Prod.snd
  | .comment, line => (splitFirst commentEnd line).map Prod.snd
  | _, _ => none

/-- Behind the block comment that it ends the line has comments only, the last of which it leaves
open. -/
def reopens (mode : Mode) (line : Text) : Bool :=
  (behindComment? mode line).any (beginsInside false)

theorem beginsInside_opening (rest : Text) :
    beginsInside false ('/' :: '*' :: rest) = beginsInside true rest := rfl

theorem beginsInside_cons {c : Char} {rest : Text}
    (stays : stripStart commentEnd (c :: rest) = none) :
    beginsInside true (c :: rest) = beginsInside true rest := by
  have hne : ∀ more, c = '*' → rest = '/' :: more → False := by
    rintro more rfl rfl
    contradiction
  rw [beginsInside, if_pos rfl, beginsInside, if_pos rfl, onlyCommentsAfterClose,
    endsOpenAfterOpening]
  · exact hne
  · exact hne

theorem beginsInside_closing (rest : Text) :
    beginsInside true ('*' :: '/' :: rest) = beginsInside false rest := by
  simp [beginsInside, onlyCommentsAfterClose, endsOpenAfterOpening]

theorem beginsInside_true (line : Text) : beginsInside true line =
    match splitFirst commentEnd line with
    | none => true
    | some sides => beginsInside false sides.2 := by
  induction line with
  | nil => rfl
  | cons c rest ih =>
    cases hstrip : stripStart commentEnd (c :: rest) with
    | some after =>
      rw [splitFirst, hstrip, eq_append_of_stripStart hstrip]
      exact beginsInside_closing after
    | none =>
      rw [beginsInside_cons hstrip, ih, splitFirst, hstrip]
      cases splitFirst commentEnd rest <;> rfl

theorem beginsInside_false {line : Text} (stop : ∀ c rest, line = c :: rest → isWhite c = false)
    (plain : ∀ rest, line ≠ '/' :: '*' :: rest) : beginsInside false line = false := by
  rw [beginsInside, if_neg Bool.false_ne_true]
  unfold onlyComments
  split
  · rfl
  · rw [endsOpen, Bool.and_false]
  · next rest => exact absurd rfl (plain rest)
  · next c rest _ _ => rw [stop c rest rfl, Bool.false_and, Bool.false_and]

theorem not_inComment_afterStatementLine (depth : Int) (line : Text) :
    (Mode.afterStatementLine depth line).inComment = false := by
  rw [Mode.afterStatementLine]
  split <;> rfl

theorem insideBelow_of_read {inside : Bool} {text : Text} {kind : Kind}
    (outside : isStatementKind ⟨kind, text⟩ = false) :
    insideBelow inside ⟨kind, text⟩ = beginsInside inside (trim text) := by
  rw [insideBelow, outside]
  rfl

section Steps

variable (text : Text)

theorem insideBelow_comment : insideBelow true ⟨(Mode.comment.read (trim text)).1, text⟩ =
    xor (Mode.comment.read (trim text)).2.inComment (reopens .comment (trim text)) := by
  rw [reopens, behindComment?]
  cases hends : splitFirst commentEnd (trim text) with
  | none =>
    rw [Mode.read, hends, insideBelow_of_read rfl, beginsInside_true, hends]
    rfl
  | some sides =>
    have hkind : isStatementKind ⟨if onlyComments sides.2 then .comment true else .mixed, text⟩ =
        false := by
      split <;> rfl
    rw [read_closesComment hends, insideBelow_of_read hkind, beginsInside_true, hends]
    simp [Mode.inComment]

theorem insideBelow_opening {rest : Text} (opening : trim text = '/' :: '*' :: rest) :
    insideBelow false ⟨(Mode.code.read (trim text)).1, text⟩ =
      xor (Mode.code.read (trim text)).2.inComment (reopens .code (trim text)) := by
  rw [opening, reopens, behindComment?]
  cases hends : splitFirst commentEnd rest with
  | none =>
    have hopens : opensComment ('/' :: '*' :: rest) = true := by
      rw [opensComment, includes, hends]
      rfl
    rw [read_opensComment hopens, insideBelow_of_read rfl, opening, beginsInside_opening,
      beginsInside_true, hends]
    rfl
  | some sides =>
    have hopens : opensComment ('/' :: '*' :: rest) = false := by
      rw [opensComment, includes, hends]
      rfl
    have hread : Mode.code.read ('/' :: '*' :: rest) =
        (if isComment ('/' :: '*' :: rest) then .comment true else .code, .code) := by
      have himport : isImport ('/' :: '*' :: rest) = false := rfl
      rw [Mode.read, hopens, himport]
      simp only [List.isEmpty_cons, Bool.false_eq_true, if_false]
      split <;> rfl
    have hkind : isStatementKind
        ⟨if isComment ('/' :: '*' :: rest) then .comment true else .code, text⟩ = false := by
      split <;> rfl
    rw [hread, insideBelow_of_read hkind, opening, beginsInside_opening, beginsInside_true, hends]
    simp [Mode.inComment]

theorem insideBelow_plain (plain : ∀ rest, trim text ≠ '/' :: '*' :: rest) :
    insideBelow false ⟨(Mode.code.read (trim text)).1, text⟩ =
      xor (Mode.code.read (trim text)).2.inComment (reopens .code (trim text)) := by
  have hstop : ∀ c rest, trim text = c :: rest → isWhite c = false := fun c rest h =>
    not_white_of_trimStart (trimStart_trim text ▸ h)
  have hbehind : behindComment? .code (trim text) = none := by
    unfold behindComment?
    split
    · next h => exact absurd h (plain _)
    · next h => contradiction
    · rfl
  have hnext : (Mode.code.read (trim text)).2.inComment = false := by
    have hopens : opensComment (trim text) = false := by
      rw [opensComment]
      exact plain
    rw [Mode.read, hopens]
    simp only [Bool.false_eq_true, if_false]
    split
    · rfl
    · split
      · rfl
      · split
        · exact not_inComment_afterStatementLine _ _
        · rfl
  rw [hnext, reopens, hbehind, insideBelow, beginsInside_false hstop plain, ite_self]
  rfl

/-- The mode of the next line tells whether it begins inside a block comment, unless this line
opens another one. -/
theorem insideBelow_eq (mode : Mode) :
    insideBelow mode.inComment ⟨(mode.read (trim text)).1, text⟩ =
      xor (mode.read (trim text)).2.inComment (reopens mode (trim text)) := by
  cases mode with
  | statement depth =>
    rw [Mode.read, not_inComment_afterStatementLine]
    rfl
  | comment => exact insideBelow_comment text
  | code =>
    by_cases hopening : ∃ rest, trim text = '/' :: '*' :: rest
    · obtain ⟨rest, hrest⟩ := hopening
      exact insideBelow_opening text hrest
    · exact insideBelow_plain text fun rest h => hopening ⟨rest, h⟩

end Steps

/-- At each of the lines the mode tells whether it begins inside a block comment. -/
def Tracked (texts : List Text) : Prop :=
  ∀ upper, upper <+: texts → inBlockComment (label .code upper) = (Mode.after .code upper).inComment

def reopensWithin : Mode → List Text → Bool
  | _, [] => false
  | mode, text :: rest => reopens mode (trim text) || reopensWithin (mode.read (trim text)).2 rest

theorem reopensWithin_concat (mode : Mode) (upper : List Text) (text : Text) :
    reopensWithin mode (upper ++ [text]) =
      (reopensWithin mode upper || reopens (mode.after upper) (trim text)) := by
  induction upper generalizing mode with
  | nil => simp [reopensWithin, Mode.after]
  | cons line upper ih => rw [List.cons_append, reopensWithin, reopensWithin, ih, Mode.after,
      Bool.or_assoc]

theorem inBlockComment_concat (upper : List Text) (text : Text) :
    inBlockComment (label .code (upper ++ [text])) =
      insideBelow (inBlockComment (label .code upper))
        ⟨((Mode.after .code upper).read (trim text)).1, text⟩ := by
  rw [inBlockComment, label_append, List.foldl_append]
  rfl

theorem inBlockComment_concat_iff {upper : List Text}
    (same : inBlockComment (label .code upper) = (Mode.after .code upper).inComment) (text : Text) :
    inBlockComment (label .code (upper ++ [text])) =
        (Mode.after .code (upper ++ [text])).inComment ↔
      reopens (Mode.after .code upper) (trim text) = false := by
  have hxor : ∀ next reopened : Bool, xor next reopened = next ↔ reopened = false := by decide
  have hafter : Mode.after .code (upper ++ [text]) =
      ((Mode.after .code upper).read (trim text)).2 := by
    rw [Mode.after_append]
    rfl
  rw [inBlockComment_concat, same, insideBelow_eq, hafter, hxor]

theorem tracked_concat {upper : List Text} {text : Text} : Tracked (upper ++ [text]) ↔
    Tracked upper ∧ inBlockComment (label .code (upper ++ [text])) =
      (Mode.after .code (upper ++ [text])).inComment := by
  simp only [Tracked, List.prefix_concat_iff, or_imp, forall_and, forall_eq, and_comm]

theorem tracked_iff (texts : List Text) : Tracked texts ↔ reopensWithin .code texts = false := by
  induction texts using List.reverseRecOn with
  | nil =>
    refine iff_of_true (fun upper cut => ?_) rfl
    rw [List.prefix_nil.mp cut]
    rfl
  | append_singleton upper text ih =>
    rw [tracked_concat, reopensWithin_concat, Bool.or_eq_false_iff, ← ih]
    exact and_congr_right fun tracked =>
      inBlockComment_concat_iff (tracked upper List.prefix_rfl) text

end Line
end ImportBlock
