import ImportBlock.Region
import ImportBlock.Proofs.Text.Lines

namespace ImportBlock

open Text

namespace Mode

/-- Where the line below all of these begins. -/
def after : Mode → List Text → Mode
  | mode, [] => mode
  | mode, line :: rest => after (mode.read (trim line)).2 rest

/-- What one line can be read as, and where it can leave the next one. -/
inductive Reads : Mode → Kind → Mode → Prop where
  | blank : Reads .code .blank .code
  | code : Reads .code .code .code
  | comment : Reads .code (.comment true) .code
  | openComment : Reads .code (.comment false) .comment
  | insideComment : Reads .comment (.comment false) .comment
  | closeComment : Reads .comment (.comment true) .code
  | mixed : Reads .comment .mixed .code
  | openStatement (depth : Int) : Reads .code .opening (.statement depth)
  | wholeStatement : Reads .code .opening .code
  | insideStatement (depth next : Int) : Reads (.statement depth) .continued (.statement next)
  | closeStatement (depth : Int) : Reads (.statement depth) .continued .code

theorem reads_read (mode : Mode) (line : Text) :
    Reads mode (mode.read line).1 (mode.read line).2 := by
  cases mode with
  | code =>
    rw [read]
    split
    · exact .blank
    split
    · split
      · exact .openComment
      · exact .comment
    split
    · dsimp only [afterStatementLine]
      split
      · exact .wholeStatement
      · exact .openStatement _
    · exact .code
  | comment =>
    rw [read]
    split
    · exact .insideComment
    · dsimp only
      split
      · exact .closeComment
      · exact .mixed
  | statement depth =>
    dsimp only [read, afterStatementLine]
    split
    · exact .closeStatement depth
    · exact .insideStatement depth _

theorem read_trim_eq_blank_iff {mode : Mode} {line : Text} :
    (mode.read (trim line)).1 = .blank ↔ mode = .code ∧ isBlank line = true := by
  rw [isBlank_iff_trim]
  constructor
  · intro h
    have hreads := reads_read mode (trim line)
    rw [h] at hreads
    generalize hnext : (mode.read (trim line)).2 = next at hreads
    cases hreads
    refine ⟨rfl, ?_⟩
    by_contra hne
    rw [read, if_neg (by simpa using hne)] at h
    split at h
    · split at h <;> simp at h
    · split at h <;> simp at h
  · rintro ⟨rfl, h⟩
    simp [read, h]

def inStatement : Mode → Bool
  | .statement _ => true
  | .code | .comment => false

theorem Reads.of_inStatement {mode next : Mode} {kind : Kind} (h : Reads mode kind next)
    (still : next.inStatement = true) : kind = .opening ∨ kind = .continued := by
  cases h <;> simp [inStatement] at still ⊢

theorem Reads.of_not_inStatement {mode next : Mode} {kind : Kind} (h : Reads mode kind next)
    (outside : mode.inStatement = false) (opens : kind = .opening ∨ kind = .continued) :
    mode = .code ∧ kind = .opening := by
  cases h <;> simp [inStatement] at outside opens ⊢

theorem after_append (mode : Mode) (xs ys : List Text) :
    after mode (xs ++ ys) = after (after mode xs) ys := by
  induction xs generalizing mode with
  | nil => rfl
  | cons x xs ih => exact ih _

end Mode

namespace Line

theorem label_append (mode : Mode) (xs ys : List Text) :
    label mode (xs ++ ys) = label mode xs ++ label (mode.after xs) ys := by
  induction xs generalizing mode with
  | nil => rfl
  | cons x xs ih => simp only [List.cons_append, label, Mode.after, ih]

theorem length_label (mode : Mode) (xs : List Text) : (label mode xs).length = xs.length := by
  rw [← List.length_map, map_text_label]

theorem label_eq_append {mode : Mode} {texts : List Text} {upper lower : List Line}
    (h : label mode texts = upper ++ lower) :
    texts = upper.map text ++ lower.map text ∧ upper = label mode (upper.map text) ∧
      lower = label (mode.after (upper.map text)) (lower.map text) := by
  have htexts : texts = upper.map text ++ lower.map text := by
    rw [← map_text_label mode texts, h, List.map_append]
  have hparts := h
  rw [htexts, label_append] at hparts
  rcases List.append_inj hparts (by simp [length_label]) with ⟨hupper, hlower⟩
  exact ⟨htexts, hupper.symm, hlower.symm⟩

theorem reads_last {mode : Mode} {texts : List Text} {front : List Line} {last : Line}
    (h : label mode texts = front ++ [last]) :
    Mode.Reads (mode.after (front.map text)) last.kind (mode.after texts) := by
  rcases label_eq_append h with ⟨rfl, -, hlast⟩
  simp only [List.map_singleton, label, List.cons.injEq, and_true] at hlast
  have hkind : last.kind = ((mode.after (front.map text)).read (trim last.text)).1 :=
    congrArg kind hlast
  rw [Mode.after_append, hkind]
  exact Mode.reads_read _ (trim last.text)

theorem last_of_inStatement {mode : Mode} {texts : List Text} {front : List Line} {last : Line}
    (h : label mode texts = front ++ [last]) (still : (mode.after texts).inStatement = true) :
    last.kind = .opening ∨ last.kind = .continued :=
  (reads_last h).of_inStatement still

theorem label_eq_nil_iff {mode : Mode} {xs : List Text} : label mode xs = [] ↔ xs = [] := by
  rw [← List.length_eq_zero_iff, length_label, List.length_eq_zero_iff]

theorem exists_kind_of_isCommentKind {line : Line} (comment : line.isCommentKind = true) :
    ∃ done, line.kind = .comment done := by
  rw [isCommentKind] at comment
  split at comment
  · next hkind => exact ⟨_, hkind⟩
  · contradiction

def trimmed (line : Line) : Line := ⟨line.kind, trim line.text⟩

theorem label_map {f : Text → Text} {texts : List Text} (mode : Mode)
    (same : (texts.map f).map trim = texts.map trim) :
    label mode (texts.map f) = (label mode texts).map fun line => ⟨line.kind, f line.text⟩ := by
  induction texts generalizing mode with
  | nil => rfl
  | cons text rest ih =>
    simp only [List.map_cons, List.cons.injEq] at same
    simp only [List.map_cons, label, same.1, ih _ same.2]

section SameTrim

variable {xs ys : List Text}

theorem map_trimmed_label (mode : Mode) (same : xs.map trim = ys.map trim) :
    (label mode xs).map trimmed = (label mode ys).map trimmed := by
  induction xs generalizing mode ys with
  | nil => rw [List.map_eq_nil_iff.mp same.symm]
  | cons x xs ih =>
    cases ys with
    | nil => simp at same
    | cons y ys =>
      simp only [List.map_cons, List.cons.injEq] at same
      simp only [label, List.map_cons, trimmed, same.1, ih _ same.2]

theorem after_of_map_trim (mode : Mode) (same : xs.map trim = ys.map trim) :
    mode.after xs = mode.after ys := by
  induction xs generalizing mode ys with
  | nil => rw [List.map_eq_nil_iff.mp same.symm]
  | cons x xs ih =>
    cases ys with
    | nil => simp at same
    | cons y ys =>
      simp only [List.map_cons, List.cons.injEq] at same
      simp only [Mode.after, same.1, ih _ same.2]

theorem forall_takeWhile_of_prefix {mode : Mode} {p q : Line → Bool}
    (stopping : ∀ line : Line, p line.trimmed = p line)
    (holding : ∀ line : Line, q line.trimmed = q line) (upper : xs.map trim <+: ys.map trim)
    (h : ∀ line ∈ (label mode ys).takeWhile p, q line = true) :
    ∀ line ∈ (label mode xs).takeWhile p, q line = true := by
  rcases upper with ⟨more, hmore⟩
  rcases List.map_eq_append_iff.mp hmore.symm with ⟨upper, lower, rfl, hupper, -⟩
  have hwhile : ∀ lines : List Line, (lines.takeWhile p).map trimmed =
      (lines.map trimmed).takeWhile p := by
    intro lines
    rw [List.takeWhile_map]
    simp only [Function.comp_def, stopping]
  intro line member
  have hmem := List.mem_map_of_mem (f := trimmed) member
  rw [hwhile, ← map_trimmed_label mode hupper, ← hwhile] at hmem
  rcases List.mem_map.mp hmem with ⟨other, hother, heq⟩
  rw [← holding, ← heq, holding]
  apply h other
  rw [label_append, List.takeWhile_append]
  split
  · exact List.mem_append_left _ ((List.takeWhile_prefix p).subset hother)
  · exact hother

end SameTrim

@[simp] theorem kind_trimmed (line : Line) : line.trimmed.kind = line.kind := rfl

end Line
end ImportBlock
