import ImportBlock.Proofs.Format.InPlace
import ImportBlock.Proofs.Layout.Wrap

namespace ImportBlock

open Text Line Layout

namespace Format

/-- Nothing is wrapped, or plain lines only, and no two of different text to the same lines. -/
def Wrappable (settings : Settings) (statements : List Statement) : Prop :=
  settings.wrapMultilineImports = false ∨
    (∀ statement ∈ statements, (wrap settings statement).isSome = true →
      isPlain statement.rawText = true) ∧
    ∀ left ∈ statements, ∀ right ∈ statements,
      (left.written settings).lines = (right.written settings).lines → left.rawText = right.rawText

variable {settings : Settings} {statements : List Statement}

theorem wrap_of_not_wrapping (off : settings.wrapMultilineImports = false) (statement : Statement) :
    wrap settings statement = none := by
  rw [wrap, off]
  split
  · simp
  · rfl

theorem writtenGroups_eq_arranged (off : settings.wrapMultilineImports = false)
    (statements : List Statement) :
    writtenGroups settings statements = arranged settings statements := by
  have hself : Statement.written settings = id :=
    funext fun statement => written_eq_self (wrap_of_not_wrapping off statement)
  simp only [writtenGroups, hself, List.map_id_fun, id_eq, List.map_id']

namespace Wrappable

theorem apart (wrappable : Wrappable settings statements) :
    ∀ left ∈ statements, ∀ right ∈ statements,
      (left.written settings).lines = (right.written settings).lines →
        left.rawText = right.rawText := by
  rcases wrappable with hoff | ⟨-, happart⟩
  · intro left _ right _ same
    rw [written_eq_self (wrap_of_not_wrapping hoff left),
      written_eq_self (wrap_of_not_wrapping hoff right)] at same
    rw [Statement.rawText, Statement.rawText, same]
  · exact happart

theorem written_cases (wrappable : Wrappable settings statements) {statement : Statement}
    (member : statement ∈ statements) : wrap settings statement = none ∨
      ∃ before inside after, Braced before inside after ∧ Plain before inside after ∧
        statement.lines = [bracedLine before inside after] ∧
        statement.written settings =
          { statement with lines := bracedLines before inside after } := by
  cases hwrap : wrap settings statement with
  | none => exact .inl rfl
  | some ls =>
    rcases exists_of_wrap hwrap with ⟨before, inside, after, hbraced, hlines, rfl⟩
    have hplain : isPlain statement.rawText = true := by
      rcases wrappable with hoff | ⟨hplain, -⟩
      · rw [wrap_of_not_wrapping hoff] at hwrap
        contradiction
      · exact hplain statement member (by rw [hwrap]; rfl)
    rw [Statement.rawText, hlines, joinWith] at hplain
    exact .inr ⟨before, inside, after, hbraced, plain_of_isPlain hbraced hplain, hlines,
      by rw [Statement.written, hwrap, Option.getD_some]⟩

theorem wrap_bracedLines (statement : Statement) (before inside after : Text) :
    wrap settings { statement with lines := bracedLines before inside after } = none := by
  have hlong : bracedLines before inside after = (before ++ ['{']) ::
      (memberLines (items ',' inside) ++ ['}' :: trimEnd after]) := rfl
  obtain ⟨second, rest, hrest⟩ : ∃ second rest,
      memberLines (items ',' inside) ++ ['}' :: trimEnd after] = second :: rest :=
    List.exists_cons_of_ne_nil (by simp)
  rw [wrap, hlong, hrest]

theorem whole (wrappable : Wrappable settings statements)
    (whole : ∀ statement ∈ statements, statement.Whole) :
    ∀ statement ∈ statements, (statement.written settings).Whole := by
  intro statement member
  have hwhole := whole statement member
  rcases wrappable.written_cases member with hnone | ⟨_, _, _, hbraced, hplain, hlines, hsame⟩
  · rwa [written_eq_self hnone]
  · rw [hsame]
    exact ⟨hwhole.comments, wholeLines_bracedLines hbraced hplain.steady (hlines ▸ hwhole.lines)⟩

theorem free (wrappable : Wrappable settings statements)
    (free : ∀ statement ∈ statements, ∀ line ∈ statement.source, '\n' ∉ line ∧ '\r' ∉ line) :
    ∀ statement ∈ statements, ∀ line ∈ (statement.written settings).source,
      '\n' ∉ line ∧ '\r' ∉ line := by
  intro statement member line hline
  rcases wrappable.written_cases member with hnone | ⟨_, _, _, -, -, hlines, hsame⟩
  · exact free statement member line (by rwa [written_eq_self hnone] at hline)
  · rw [hsame, Statement.source, List.mem_append] at hline
    rcases hline with hcomment | hbraced
    · exact free statement member line (List.mem_append_left _ hcomment)
    · obtain ⟨hfeed, hreturn⟩ := free statement member _
        (List.mem_append_right _ (hlines ▸ List.mem_cons_self))
      constructor
      · intro hc
        simpa [hfeed] using mem_of_mem_bracedLines hbraced hc
      · intro hc
        simpa [hreturn] using mem_of_mem_bracedLines hbraced hc

theorem tidy (wrappable : Wrappable settings statements)
    (whole : ∀ statement ∈ statements, statement.Whole)
    (free : ∀ statement ∈ statements, ∀ line ∈ statement.source, '\n' ∉ line ∧ '\r' ∉ line) :
    Tidy settings statements where
  whole := wrappable.whole whole
  free := wrappable.free free
  normal := by
    intro statement member
    rcases wrappable.written_cases member with hnone | ⟨_, _, _, hbraced, hplain, hlines, hsame⟩
    · rw [written_eq_self hnone]
    · rw [hsame, normal_bracedLines hbraced hplain, ← hlines]
  again := by
    intro statement member
    rcases wrappable.written_cases member with hnone | ⟨_, _, _, -, -, -, hsame⟩
    · rwa [written_eq_self hnone]
    · rw [hsame, wrap_bracedLines]
  apart := by
    intro left hleft right hright same
    have hlines : ∀ statement ∈ statements, NoFeed (statement.written settings).lines ∧
        (statement.written settings).lines ≠ [] := by
      intro statement member
      refine ⟨fun line hline => ?_, (wrappable.whole whole statement member).lines.ne_nil⟩
      exact (wrappable.free free statement member line (List.mem_append_right _ hline)).1
    exact wrappable.apart left hleft right hright (joinWith_injective (hlines left hleft).1
      (hlines right hright).1 (hlines left hleft).2 (hlines right hright).2 same)

end Wrappable

section Plain

variable {unused : List Text} {text : Text} {region : Region} {header block : List Text}

theorem tidy_prune (h : region.OfLines header block) {n : Nat}
    (wrappable : Wrappable settings (Statement.prune unused (h.statements n))) :
    Tidy settings (Statement.prune unused (h.statements n)) :=
  wrappable.tidy (fun statement member => h.whole n statement (List.mem_of_mem_filter member))
    fun statement member => h.free_source n statement (List.mem_of_mem_filter member)

theorem tidy_statements (h : region.OfLines header block)
    (off : settings.wrapMultilineImports = false) (n : Nat) : Tidy settings (h.statements n) := by
  have htidy : Tidy settings (Statement.prune [] (h.statements n)) := tidy_prune h (.inl off)
  rwa [Statement.prune_nil] at htidy

theorem settled_formatted_of_plain (plain : '\r' ∉ text) (found : Region.find? text = some region)
    (closed : region.Closed) (valid : settings.validate = .ok ())
    (mode : settings.wholeDocument = false)
    (ne : Statement.prune unused (Block.parse region.block).statements ≠ [])
    (wrappable : Wrappable settings
      (Statement.prune unused (Block.parse region.block).statements)) :
    Settled settings unused (formatted settings unused text) ∧
      '\r' ∉ formatted settings unused text := by
  rcases Region.exists_ofLines plain found closed with ⟨header, block, h⟩
  have htidy : Tidy settings (Statement.prune unused (Block.parse region.block).statements) := by
    rw [h.parse_block] at wrappable ⊢
    exact tidy_prune h wrappable
  rw [← Region.text_of_find? found] at plain
  rw [formatted_of_find? found, result_inPlace h valid mode rfl ne htidy plain]
  refine ⟨⟨_, ?_, edit?_inPlace h valid mode rfl ne htidy plain⟩, plain_inPlace htidy plain⟩
  exact (ofLines_inPlace h htidy valid ne).find?

end Plain
end Format
end ImportBlock
