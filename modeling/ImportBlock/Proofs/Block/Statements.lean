import ImportBlock.Proofs.Block.Below

namespace ImportBlock

open Text Line

namespace Mode

/-- Comment lines after which reading is back in code. -/
def CommentRun (mode : Mode) (texts : List Text) : Prop :=
  (∀ line ∈ label mode texts, line.isCommentKind = true) ∧ mode.after texts = .code

def StatementRun (mode : Mode) (texts : List Text) : Prop :=
  (∀ line ∈ label mode texts, line.kind = .continued) ∧ mode.after texts = .code

theorem commentRun_cons {mode : Mode} {text : Text} {rest : List Text} :
    mode.CommentRun (text :: rest) ↔
      isCommentKind ⟨(mode.read (trim text)).1, text⟩ = true ∧
        (mode.read (trim text)).2.CommentRun rest := by
  simp only [CommentRun, label, List.mem_cons, forall_eq_or_imp, after, and_assoc]

theorem statementRun_cons {mode : Mode} {text : Text} {rest : List Text} :
    mode.StatementRun (text :: rest) ↔
      (mode.read (trim text)).1 = .continued ∧ (mode.read (trim text)).2.StatementRun rest := by
  simp only [StatementRun, label, List.mem_cons, forall_eq_or_imp, after, and_assoc]

theorem commentRun_nil : CommentRun .code [] := ⟨by simp [label], rfl⟩

theorem statementRun_nil : StatementRun .code [] := ⟨by simp [label], rfl⟩

def outside : Mode → Mode
  | .comment => .comment
  | .code | .statement _ => .code

end Mode

namespace Statement

/-- The lines from the opening one to the one that closes the statement. -/
def WholeLines (texts : List Text) : Prop :=
  ∃ first rest, texts = first :: rest ∧ (Mode.code.read (trim first)).1 = .opening ∧
    (Mode.code.read (trim first)).2.StatementRun rest

structure Whole (statement : Statement) : Prop where
  comments : Mode.CommentRun .code statement.comments
  lines : WholeLines statement.lines

namespace WholeLines

variable {texts : List Text}

theorem ne_nil (h : WholeLines texts) : texts ≠ [] := by
  rcases h with ⟨first, rest, rfl, -⟩
  simp

theorem after_eq (h : WholeLines texts) : Mode.after .code texts = .code := by
  rcases h with ⟨first, rest, rfl, -, hrun⟩
  exact hrun.2

theorem label_eq (h : WholeLines texts) :
    ∃ first rest, label .code texts = first :: rest ∧ first.kind = .opening ∧
      ∀ line ∈ rest, line.kind = .continued := by
  rcases h with ⟨first, rest, rfl, hfirst, hrest⟩
  exact ⟨_, _, rfl, hfirst, hrest.1⟩

end WholeLines

theorem Whole.after_source {statement : Statement} (h : Whole statement) :
    Mode.after .code statement.source = .code := by
  rw [source, Mode.after_append, h.comments.2, h.lines.after_eq]

end Statement

namespace Block.Below

open Statement

/-- What has been read fits to a line of this mode above it. -/
structure Fits (mode : Mode) (below : Below) : Prop where
  continued : mode.inStatement = true → mode.StatementRun below.continued
  none : mode.inStatement = false → below.continued = []
  first : ∀ statement rest, below.statements = statement :: rest →
    mode.outside.CommentRun statement.comments ∧ WholeLines statement.lines ∧
      ∀ other ∈ rest, Whole other

theorem Fits.addComment {mode next : Mode} {text : Text} {below : Below} (fits : Fits next below)
    (outside : next.inStatement = false) (here : mode.inStatement = false)
    (comment : ∀ rest, next.CommentRun rest → mode.CommentRun (text :: rest)) :
    Fits mode (below.addComment text) := by
  have hmode : mode.outside = mode := by cases mode <;> simp_all [Mode.outside, Mode.inStatement]
  have hnext : next.outside = next := by cases next <;> simp_all [Mode.outside, Mode.inStatement]
  refine ⟨by simp [here], ?_, ?_⟩
  · intro _
    rw [continued_addComment, fits.none outside]
  · intro statement rest hstatements
    rw [Below.addComment] at hstatements
    split at hstatements
    · next hnone => simp [hnone] at hstatements
    · next first more hsome =>
      rcases fits.first first more hsome with ⟨hcomments, hlines, hrest⟩
      simp only [List.cons.injEq] at hstatements
      rcases hstatements with ⟨rfl, rfl⟩
      rw [hnext] at hcomments
      rw [hmode]
      exact ⟨comment _ hcomments, hlines, hrest⟩

theorem Fits.whole {below : Below} (fits : Fits .code below) :
    ∀ statement ∈ below.statements, Whole statement := by
  cases hstatements : below.statements with
  | nil => simp
  | cons first rest =>
    rcases fits.first first rest hstatements with ⟨hcomments, hlines, hrest⟩
    intro statement member
    rcases List.mem_cons.mp member with rfl | hmem
    · exact ⟨hcomments, hlines⟩
    · exact hrest statement hmem

theorem fits_opening {mode next : Mode} {text : Text} {n : Nat} {below : Below}
    (fits : Fits next below) (read : Mode.read .code (trim text) = (.opening, next))
    (here : mode = .code) (run : next.StatementRun below.continued)
    (outside : next.outside = .code) :
    Fits mode (Below.add (⟨.opening, text⟩, n) below) := by
  subst here
  refine ⟨by simp [Mode.inStatement], fun _ => rfl, ?_⟩
  intro statement rest hstatements
  simp only [add, List.cons.injEq] at hstatements
  rcases hstatements with ⟨rfl, rfl⟩
  refine ⟨Mode.commentRun_nil, ⟨text, below.continued, rfl, by rw [read], by rwa [read]⟩, ?_⟩
  intro other member
  cases hmore : below.statements with
  | nil => simp [hmore] at member
  | cons first more =>
    rcases fits.first first more hmore with ⟨hcomments, hlines, hwhole⟩
    rw [outside] at hcomments
    rw [hmore] at member
    rcases List.mem_cons.mp member with rfl | hmem
    · exact ⟨hcomments, hlines⟩
    · exact hwhole other hmem

theorem fits_continued {mode next : Mode} {text : Text} {n : Nat} {below : Below}
    (fits : Fits next below) (read : mode.read (trim text) = (.continued, next))
    (here : mode.inStatement = true) (run : next.StatementRun below.continued)
    (outside : next.outside = .code) :
    Fits mode (Below.add (⟨.continued, text⟩, n) below) := by
  have hmode : mode.outside = .code := by cases mode <;> simp_all [Mode.outside, Mode.inStatement]
  refine ⟨?_, by simp [here], ?_⟩
  · intro _
    exact Mode.statementRun_cons.mpr ⟨by rw [read], by rwa [read]⟩
  · intro statement rest hstatements
    rw [hmode, ← outside]
    exact fits.first statement rest hstatements

/-- Reading the lines of a block from below keeps what has been read in order, line by line. -/
theorem fits_read {trailing : List Text} {mode : Mode} {n : Nat} {texts : List Text}
    (inside : ∀ line ∈ label mode texts, line.inBlock = true)
    (closed : mode.after texts = .code) :
    Fits mode (read ⟨[], [], trailing⟩ mode n texts) := by
  -- `Fits` ties the mode above a line to what has been read below it; each line keeps the tie.
  induction texts generalizing mode n with
  | nil =>
    cases closed
    exact ⟨fun _ => Mode.statementRun_nil, fun _ => rfl, by simp [read_nil]⟩
  | cons text rest ih =>
    simp only [label, List.mem_cons, forall_eq_or_imp, Mode.after] at inside closed
    rcases inside with ⟨hhere, hrest⟩
    have fits := ih (n := n + 1) hrest closed
    have hreads := Mode.reads_read mode (trim text)
    rw [read_cons]
    generalize hbelow : read ⟨[], [], trailing⟩ _ (n + 1) rest = below at fits ⊢
    clear hbelow ih hrest closed
    rcases hread : mode.read (trim text) with ⟨kind, next⟩
    rw [hread] at hreads hhere fits
    dsimp only at hreads hhere fits ⊢
    have hcomment : ∀ more, isCommentKind ⟨kind, text⟩ = true → next.CommentRun more →
        mode.CommentRun (text :: more) := by
      intro more hkind hmore
      exact Mode.commentRun_cons.mpr ⟨by rwa [hread], by rwa [hread]⟩
    cases hreads with
    | blank => exact fits
    | code => simp [inBlock] at hhere
    | mixed => simp [inBlock] at hhere
    | comment => exact fits.addComment rfl rfl fun more => hcomment more rfl
    | openComment => exact fits.addComment rfl rfl fun more => hcomment more rfl
    | insideComment => exact fits.addComment rfl rfl fun more => hcomment more rfl
    | closeComment => exact fits.addComment rfl rfl fun more => hcomment more rfl
    | openStatement depth => exact fits_opening fits hread rfl (fits.continued rfl) rfl
    | wholeStatement =>
      have hnone := fits.none rfl
      exact fits_opening fits hread rfl (hnone ▸ Mode.statementRun_nil) rfl
    | insideStatement depth deeper =>
      exact fits_continued fits hread rfl (fits.continued rfl) rfl
    | closeStatement depth =>
      have hnone := fits.none rfl
      exact fits_continued fits hread rfl (hnone ▸ Mode.statementRun_nil) rfl

theorem read_wholeLines (below : Below) (n : Nat) {texts : List Text} (whole : WholeLines texts)
    (none : below.continued = []) :
    below.read .code n texts =
      { below with statements := ⟨[], texts, n⟩ :: below.statements } := by
  rcases whole with ⟨text, rest, rfl, hopening, hrun⟩
  rw [read_cons, hopening, read_continued _ _ _ hrun.1]
  simp [add, none]

theorem read_whole (below : Below) (n : Nat) {gap : List Text} {statement : Statement}
    (blank : ∀ text ∈ gap, isBlank text = true) (whole : Whole statement)
    (none : below.continued = []) :
    ∃ first, below.read .code n (gap ++ statement.source) =
      { below with statements := { statement with firstLine := first } :: below.statements } := by
  refine ⟨n + gap.length + statement.comments.length, ?_⟩
  calc
    below.read .code n (gap ++ statement.source) =
        below.read .code (n + gap.length) (statement.comments ++ statement.lines) := by
      rw [read_append, after_blank blank, read_blank _ _ blank, source]
    _ = read { below with statements :=
          ⟨[], statement.lines, n + gap.length + statement.comments.length⟩ :: below.statements }
        .code (n + gap.length) statement.comments := by
      rw [read_append, whole.comments.2, read_wholeLines below _ whole.lines none]
    _ = _ := by
      rw [read_comments _ _ _ whole.comments.1 rfl, List.append_nil]

end Block.Below
end ImportBlock
