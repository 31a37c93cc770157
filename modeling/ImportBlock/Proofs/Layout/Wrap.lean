import ImportBlock.Proofs.Layout.Lines
import ImportBlock.Proofs.Line.Literal
import ImportBlock.Proofs.Statement.Normal

namespace ImportBlock

open Text Line

namespace Layout

/-- A line that wrapping moves no literal and no comment of, leaves no member out of, and closes
with what stands behind its braces. -/
def isPlain (line : Text) : Bool :=
  match splitFirst ['}'] line with
  | none => false
  | some (upper, after) =>
    match splitFirst ['{'] upper with
    | none => false
    | some (_, inside) =>
      upper.all (!isQuote ·) && !includes slashes upper &&
        (splitOn ',' inside).dropLast.all (!isBlank ·) && closesStatement 0 ('}' :: after)

def NoBrace (text : Text) : Prop := '{' ∉ text ∧ '}' ∉ text

/-- The only braces of a line, with at least one member in them. -/
structure Braced (before inside after : Text) : Prop where
  upper : NoBrace before
  within : NoBrace inside
  lower : NoBrace after
  members : items ',' inside ≠ []

structure Plain (before inside after : Text) : Prop where
  quotes : ∀ c ∈ before ++ '{' :: inside, isQuote c = false
  slashes : includes slashes (before ++ '{' :: inside) = false
  members : ∀ part ∈ (splitOn ',' inside).dropLast, isBlank part = false
  closes : closesStatement 0 ('}' :: after) = true

/-- What keeps the lines of a wrapped statement together: no literal and no comment begins ahead of
the closing brace, and the statement ends behind it. -/
structure Steady (before inside after : Text) : Prop where
  quotes : ∀ c ∈ before ++ '{' :: inside, isQuote c = false
  slashes : includes slashes (before ++ '{' :: inside) = false
  closes : closesStatement 0 ('}' :: trimEnd after) = true

def bracedLine (before inside after : Text) : Text :=
  before ++ '{' :: (inside ++ '}' :: after)

def bracedLines (before inside after : Text) : List Text :=
  (before ++ ['{']) :: memberLines (items ',' inside) ++ ['}' :: trimEnd after]

variable {settings : Settings} {before inside after : Text}

theorem plain_of_isPlain (braced : Braced before inside after)
    (plain : isPlain (bracedLine before inside after) = true) : Plain before inside after := by
  have hupper : '}' ∉ before ++ '{' :: inside := by
    simp [braced.upper.2, braced.within.2]
  have hline : bracedLine before inside after =
      (before ++ '{' :: inside) ++ '}' :: after := by simp [bracedLine]
  rw [isPlain, hline, splitFirst_append hupper] at plain
  dsimp only at plain
  rw [splitFirst_append braced.upper.1] at plain
  simp only [Bool.and_eq_true, List.all_eq_true, Bool.not_eq_true'] at plain
  rcases plain with ⟨⟨⟨hquotes, hslashes⟩, hmembers⟩, hcloses⟩
  exact ⟨hquotes, hslashes, hmembers, hcloses⟩

theorem Plain.steady (plain : Plain before inside after) : Steady before inside after where
  quotes := plain.quotes
  slashes := plain.slashes
  closes := by
    have hcloses := closesStatement_trimEnd plain.closes
    rwa [trimEnd_cons after (by decide)] at hcloses

theorem not_mem_of_count {c : Char} {upper lower : Text} (h : (upper ++ c :: lower).count c = 1) :
    c ∉ upper ∧ c ∉ lower := by
  rw [List.count_append, List.count_cons_self] at h
  constructor
  · rw [← List.count_eq_zero]
    omega
  · rw [← List.count_eq_zero]
    omega

theorem exists_of_wrap {statement : Statement} {ls : List Text}
    (wrapped : wrap settings statement = some ls) :
    ∃ before inside after, Braced before inside after ∧
      statement.lines = [bracedLine before inside after] ∧
      ls = bracedLines before inside after := by
  rw [wrap] at wrapped
  split at wrapped
  · next line hline =>
    split at wrapped
    · next hfits =>
      simp only [Bool.and_eq_true, beq_iff_eq] at hfits
      rcases hfits with ⟨⟨-, hopening⟩, hclosing⟩
      rw [wrapLine] at wrapped
      split at wrapped
      · contradiction
      next before rest hbefore =>
      split at wrapped
      · contradiction
      next inside after hinside =>
      have hrest := eq_append_of_splitFirst hinside
      have hwhole := eq_append_of_splitFirst hbefore
      dsimp only at hrest hwhole
      have hbraced : line = bracedLine before inside after := by
        rw [hwhole, hrest, bracedLine]
        simp
      rw [hbraced, bracedLine] at hopening hclosing
      have hregroup : before ++ '{' :: (inside ++ '}' :: after) =
          (before ++ '{' :: inside) ++ '}' :: after := by simp
      rcases not_mem_of_count hopening with ⟨hbefore₁, hrest₁⟩
      rw [hregroup] at hclosing
      rcases not_mem_of_count hclosing with ⟨hupper₂, hafter₂⟩
      simp only [List.mem_append, List.mem_cons, not_or] at hrest₁ hupper₂
      dsimp only at wrapped
      split at wrapped
      · contradiction
      next hmembers =>
      refine ⟨before, inside, after, ?_, by rw [hline, hbraced], (Option.some.inj wrapped).symm⟩
      exact ⟨⟨hbefore₁, hupper₂.1⟩, ⟨hrest₁.1, hupper₂.2.2⟩, ⟨hrest₁.2.2, hafter₂⟩,
        by simpa using hmembers⟩
    · contradiction
  · contradiction

theorem exists_of_mem_memberLines {members : List Text} {line : Text}
    (h : line ∈ memberLines members) :
    ∃ member ∈ members, line = indent ++ member ∨ line = indent ++ member ++ [','] := by
  induction members with
  | nil => simp [memberLines] at h
  | cons first rest ih =>
    cases rest with
    | nil => exact ⟨first, List.mem_cons_self, .inl (List.mem_singleton.mp h)⟩
    | cons second rest =>
      rw [memberLines] at h
      · rcases List.mem_cons.mp h with rfl | hmem
        · exact ⟨first, List.mem_cons_self, .inr rfl⟩
        · rcases ih hmem with ⟨member, hmember, hline⟩
          exact ⟨member, List.mem_cons_of_mem first hmember, hline⟩
      · simp

theorem mem_of_mem_memberLines {members : List Text} {line : Text} {c : Char}
    (member : line ∈ memberLines members) (h : c ∈ line) :
    c = ' ' ∨ c = ',' ∨ ∃ text ∈ members, c ∈ text := by
  obtain ⟨text, htext, rfl | rfl⟩ := exists_of_mem_memberLines member
  · rcases List.mem_append.mp h with hc | hc
    · exact .inl (by simpa [indent] using hc)
    · exact .inr (.inr ⟨text, htext, hc⟩)
  · rcases List.mem_append.mp h with hc | hc
    · rcases List.mem_append.mp hc with hc | hc
      · exact .inl (by simpa [indent] using hc)
      · exact .inr (.inr ⟨text, htext, hc⟩)
    · exact .inr (.inl (List.mem_singleton.mp hc))

theorem mem_of_mem_items {separator c : Char} {text member : Text}
    (mem : member ∈ items separator text) (h : c ∈ member) : c ∈ text := by
  rcases List.mem_map.mp (List.mem_filter.mp mem).1 with ⟨part, hpart, rfl⟩
  exact mem_of_mem_splitOn hpart (mem_of_mem_trim h)

theorem mem_of_mem_bracedLines {line : Text} {c : Char}
    (member : line ∈ bracedLines before inside after) (h : c ∈ line) :
    c = ' ' ∨ c = ',' ∨ c ∈ bracedLine before inside after := by
  rw [bracedLines, List.cons_append, List.mem_cons, List.mem_append, List.mem_singleton] at member
  rw [bracedLine]
  rcases member with rfl | hmem | rfl
  · rcases List.mem_append.mp h with hc | hc
    · simp [hc]
    · simp [List.mem_singleton.mp hc]
  · rcases mem_of_mem_memberLines hmem h with hc | hc | ⟨text, htext, hc⟩
    · exact .inl hc
    · exact .inr (.inl hc)
    · simp [mem_of_mem_items htext hc]
  · rcases List.mem_cons.mp h with rfl | hc
    · simp
    · have hmem := (isPrefix_dropEndWhile isWhite after).subset hc
      simp [hmem]

theorem written_ne_nil {statement : Statement} (ne : statement.lines ≠ []) :
    (statement.written settings).lines ≠ [] := by
  rw [Statement.written]
  cases hwrap : wrap settings statement with
  | none => exact ne
  | some ls =>
    obtain ⟨before, inside, after, -, -, rfl⟩ := exists_of_wrap hwrap
    exact List.cons_ne_nil _ _

theorem mem_of_mem_statementLines {statement : Statement} {line : Text} {c : Char}
    (member : line ∈ statementLines settings statement) (h : c ∈ line) :
    c = ' ' ∨ c = ',' ∨ ∃ text ∈ statement.source, c ∈ text := by
  rcases List.mem_append.mp member with hcomment | hline
  · exact .inr (.inr ⟨line, List.mem_append_left _ hcomment, h⟩)
  · cases hwrap : wrap settings statement with
    | none =>
      rw [hwrap] at hline
      exact .inr (.inr ⟨line, List.mem_append_right _ hline, h⟩)
    | some ls =>
      obtain ⟨before, inside, after, -, hlines, rfl⟩ := exists_of_wrap hwrap
      rw [hwrap, Option.getD_some] at hline
      rcases mem_of_mem_bracedLines hline h with hc | hc | hc
      · exact .inl hc
      · exact .inr (.inl hc)
      · exact .inr (.inr ⟨_, List.mem_append_right _ (hlines ▸ List.mem_cons_self), hc⟩)

theorem not_mem_statementLines {statement : Statement} {c : Char} (space : c ≠ ' ')
    (comma : c ≠ ',') (source : ∀ line ∈ statement.source, c ∉ line) :
    ∀ line ∈ statementLines settings statement, c ∉ line := by
  intro line member h
  rcases mem_of_mem_statementLines member h with hc | hc | ⟨text, htext, hc⟩
  · exact space hc
  · exact comma hc
  · exact source text htext hc

section Read

theorem noBrace_memberLines (braced : Braced before inside after) :
    ∀ line ∈ memberLines (items ',' inside), NoBrace line := by
  intro line member
  have hmem : ∀ c ∈ line, c = ' ' ∨ c = ',' ∨ c ∈ inside := by
    intro c hc
    rcases mem_of_mem_memberLines member hc with hc | hc | ⟨text, htext, hc⟩
    · exact .inl hc
    · exact .inr (.inl hc)
    · exact .inr (.inr (mem_of_mem_items htext hc))
  constructor
  · intro hc
    simpa [braced.within.1] using hmem _ hc
  · intro hc
    simpa [braced.within.2] using hmem _ hc

theorem statementRun_append {ls rest : List Text} (free : ∀ line ∈ ls, NoBrace line)
    (run : Mode.StatementRun (.statement 1) rest) :
    Mode.StatementRun (.statement 1) (ls ++ rest) := by
  induction ls with
  | nil => exact run
  | cons line ls ih =>
    rw [List.forall_mem_cons] at free
    have hdelta : braceDelta (trim line) = 0 :=
      braceDelta_of_not_mem (fun h => free.1.1 (mem_of_mem_trim h))
        fun h => free.1.2 (mem_of_mem_trim h)
    have hread : Mode.read (.statement 1) (trim line) = (.continued, .statement 1) := by
      simp [Mode.read, Mode.afterStatementLine, hdelta, closesStatement]
    refine Mode.statementRun_cons.mpr ⟨by rw [hread], ?_⟩
    rw [hread]
    exact ih free.2

theorem trim_bracedLine (before inside after : Text) : trim (bracedLine before inside after) =
    trimStart before ++ '{' :: (inside ++ '}' :: trimEnd after) := by
  have hclosing : trimEnd ('}' :: after) = '}' :: trimEnd after :=
    trimEnd_cons after (by decide)
  rw [bracedLine, trim, trimStart_append _ _ (by decide),
    trimEnd_append ⟨'{', by simp, by decide⟩, trimEnd_cons _ (by decide),
    trimEnd_append ⟨'}', by simp, by decide⟩, hclosing]

theorem trim_opening (before : Text) :
    trim (before ++ ['{']) = trimStart before ++ ['{'] := by
  rw [trim, trimStart_append _ _ (by decide), trimEnd_append ⟨'{', by simp, by decide⟩]
  rfl

theorem trim_closing (after : Text) :
    trim ('}' :: trimEnd after) = '}' :: trimEnd after := by
  rw [trim, trimStart, List.dropWhile_cons_of_neg (by decide), trimEnd_cons _ (by decide),
    trimEnd_trimEnd]

theorem read_opening (braced : Braced before inside after) (steady : Steady before inside after)
    (opens : (Mode.code.read (trim (bracedLine before inside after))).1 = .opening) :
    Mode.code.read (trim (before ++ ['{'])) = (.opening, .statement 1) := by
  have hstart : trimStart before <:+ before := List.dropWhile_suffix isWhite
  have himport := Mode.isImport_of_opening opens
  rw [trim_bracedLine, isImport_append] at himport
  have hcode : codePart (trimStart before ++ ['{']) = trimStart before ++ ['{'] := by
    apply codePart_of_not_includes
    refine not_includes_of_infix (by decide) ?_ steady.slashes
    rcases hstart with ⟨above, habove⟩
    refine ⟨above, inside, ?_⟩
    rw [← List.append_assoc, habove, List.append_assoc]
    rfl
  have hsum : braceSum none (trimStart before) = 0 :=
    braceSum_of_not_mem none (fun h => braced.upper.1 (hstart.subset h))
      fun h => braced.upper.2 (hstart.subset h)
  have hquotes : ∀ c ∈ trimStart before, isQuote c = false := by
    intro c hc
    exact steady.quotes c (List.mem_append_left _ (hstart.subset hc))
  have hdelta : braceDelta (trimStart before ++ ['{']) = 1 := by
    rw [braceDelta, hcode, braceSum_append hquotes, hsum]
    rfl
  rw [trim_opening, Mode.read_import himport, hdelta]
  simp [Mode.afterStatementLine, closesStatement]

theorem read_closing (braced : Braced before inside after) (steady : Steady before inside after) :
    Mode.StatementRun (.statement 1) ['}' :: trimEnd after] := by
  have hafter := (isPrefix_dropEndWhile isWhite after).subset
  have hdelta : braceDelta ('}' :: trimEnd after) = -1 :=
    braceDelta_closing (fun h => braced.lower.1 (hafter h)) fun h => braced.lower.2 (hafter h)
  have hread : Mode.read (.statement 1) (trim ('}' :: trimEnd after)) = (.continued, .code) := by
    rw [trim_closing]
    simp [Mode.read, Mode.afterStatementLine, hdelta, steady.closes]
  refine Mode.statementRun_cons.mpr ⟨by rw [hread], ?_⟩
  rw [hread]
  exact Mode.statementRun_nil

theorem wholeLines_of_opening (braced : Braced before inside after)
    (steady : Steady before inside after)
    (opens : (Mode.code.read (trim (bracedLine before inside after))).1 = .opening) :
    Statement.WholeLines (bracedLines before inside after) := by
  have hread := read_opening braced steady opens
  refine ⟨before ++ ['{'], _, rfl, by rw [hread], ?_⟩
  rw [hread]
  exact statementRun_append (noBrace_memberLines braced) (read_closing braced steady)

theorem wholeLines_bracedLines (braced : Braced before inside after)
    (steady : Steady before inside after)
    (whole : Statement.WholeLines [bracedLine before inside after]) :
    Statement.WholeLines (bracedLines before inside after) := by
  rcases whole with ⟨first, rest, hlines, hopens, -⟩
  rcases List.cons.inj hlines with ⟨rfl, -⟩
  exact wholeLines_of_opening braced steady hopens

end Read

section Normal

open Statement Draft

theorem trim_items {separator : Char} {text member : Text} (mem : member ∈ items separator text) :
    trim member = member ∧ member ≠ [] := by
  rcases List.mem_filter.mp mem with ⟨hmap, hne⟩
  rcases List.mem_map.mp hmap with ⟨part, -, rfl⟩
  exact ⟨trim_trim part, by simpa using hne⟩

theorem trim_indent (text : Text) : trim (indent ++ text) = trim text :=
  trim_white_append (List.forall_mem_cons.mpr ⟨rfl, white_space⟩) text

theorem joinWith_memberLines {members : List Text} (ne : members ≠ [])
    (trimmed : ∀ member ∈ members, trim member = member ∧ member ≠ []) (closing : Text) :
    ' ' :: joinWith [' '] ((memberLines members).map trim ++ [closing]) =
      joinWith [','] (members.map (' ' :: ·)) ++ ' ' :: closing := by
  induction members with
  | nil => contradiction
  | cons first rest ih =>
    rw [List.forall_mem_cons] at trimmed
    rcases trimmed with ⟨⟨htrim, hne⟩, hrest⟩
    cases rest with
    | nil => simp [memberLines, joinWith, trim_indent, htrim]
    | cons second rest =>
      have hcomma : trim (indent ++ first ++ [',']) = first ++ [','] := by
        rw [List.append_assoc, trim_indent, trim_append_of_trim htrim hne (by decide)]
      have hlines : memberLines (first :: second :: rest) =
          (indent ++ first ++ [',']) :: memberLines (second :: rest) := by
        rw [memberLines]
        simp
      rw [hlines, List.map_cons, hcomma, List.cons_append, joinWith_cons (by simp), List.map_cons,
        joinWith_cons (by simp)]
      have hih := ih (by simp) hrest
      simp only [List.append_assoc, List.cons_append, List.nil_append] at hih ⊢
      rw [hih]

theorem isMember_part (braced : Braced before inside after) (plain : Plain before inside after)
    {part : Text} (member : part ∈ splitOn ',' inside) (ne : trim part ≠ []) : IsMember part where
  ne := ne
  plain := by
    intro c hc
    have hinside := mem_of_mem_splitOn member hc
    refine ⟨plain.quotes c (by simp [hinside]), ?_, ?_⟩
    · rintro rfl
      exact not_mem_of_mem_splitOn member hc
    · rintro rfl
      exact braced.within.2 hinside

theorem isMember_item (braced : Braced before inside after) (plain : Plain before inside after)
    {member : Text} (mem : member ∈ items ',' inside) : IsMember (' ' :: member) := by
  rcases trim_items mem with ⟨htrim, hne⟩
  have hspace : trim (' ' :: member) = member := by
    rw [← List.singleton_append, trim_white_append white_space, htrim]
  refine ⟨by rwa [hspace], ?_⟩
  rw [List.forall_mem_cons]
  rcases List.mem_map.mp (List.mem_filter.mp mem).1 with ⟨part, hpart, rfl⟩
  exact ⟨by decide, fun c hc => (isMember_part braced plain hpart hne).plain c (mem_of_mem_trim hc)⟩

theorem foldl_inside (braced : Braced before inside after) (plain : Plain before inside after)
    (written : Text) : (inside ++ ['}']).foldl write ⟨'{' :: written, none⟩ =
      (joinWith [','] (items ',' inside) ++ ['}']).foldl write ⟨'{' :: written, none⟩ := by
  have hne := braced.members
  have hmembers := plain.members
  have hpart : ∀ part ∈ splitOn ',' inside, trim part ≠ [] → IsMember part :=
    fun part => isMember_part braced plain
  conv_lhs => rw [← joinWith_splitOn ',' inside]
  rw [items] at hne ⊢
  obtain ⟨init, last, hparts⟩ :=
    (List.eq_nil_or_concat' (splitOn ',' inside)).resolve_left (by rintro h; simp [h] at hne)
  rw [hparts] at hne hmembers hpart ⊢
  rw [List.dropLast_concat] at hmembers
  have hinit : ∀ part ∈ init, IsMember part := by
    intro part member
    apply hpart part (List.mem_append_left _ member)
    rw [Ne, ← isBlank_iff_trim, hmembers part member]
    simp
  have hkeep : (init.map trim).filter (!·.isEmpty) = init.map trim := by
    rw [List.filter_eq_self]
    intro text member
    rcases List.mem_map.mp member with ⟨part, hmem, rfl⟩
    simpa using (hinit part hmem).ne
  rw [List.map_append, List.filter_append, hkeep] at hne ⊢
  by_cases hlast : trim last = []
  · have hnil : ([last].map trim).filter (!·.isEmpty) = [] := by simp [hlast]
    rw [hnil, List.append_nil] at hne ⊢
    have hsome : init ≠ [] := by simpa using hne
    rw [foldl_members_comma written hinit hsome (trim_eq_nil_iff.mp hlast) (.inl rfl),
      foldl_members written hinit hsome (.inl rfl)]
  · have hsome : ([last].map trim).filter (!·.isEmpty) = [last].map trim := by simp [hlast]
    rw [hsome, ← List.map_append]
    apply foldl_members written _ (by simp) (.inl rfl)
    intro part member
    rcases List.mem_append.mp member with hmem | hmem
    · exact hinit part hmem
    · rw [List.mem_singleton.mp hmem]
      exact hpart last (by simp) hlast

/-- The members as they are wrapped are spelt like the members alone. -/
theorem foldl_wrapped (braced : Braced before inside after) (plain : Plain before inside after)
    (written : Text) :
    (joinWith [','] ((items ',' inside).map (' ' :: ·)) ++ [' ', '}']).foldl write
        ⟨'{' :: written, none⟩ =
      (joinWith [','] (items ',' inside) ++ ['}']).foldl write ⟨'{' :: written, none⟩ := by
  have hmembers : ∀ part ∈ (items ',' inside).map (' ' :: ·), IsMember part := by
    intro part member
    rcases List.mem_map.mp member with ⟨item, hitem, rfl⟩
    exact isMember_item braced plain hitem
  have htrim : ((items ',' inside).map (' ' :: ·)).map trim = items ',' inside := by
    rw [List.map_map]
    conv_rhs => rw [← List.map_id (items ',' inside)]
    refine List.map_congr_left fun item hitem => ?_
    rw [Function.comp_apply, ← List.singleton_append, trim_white_append white_space]
    exact (trim_items hitem).1
  have hplain := foldl_members written hmembers (by simpa using braced.members)
    (.inl rfl : IsOpener '{')
  rw [htrim] at hplain
  rw [← hplain]
  have hquotes : ∀ c ∈ joinWith [','] ((items ',' inside).map (' ' :: ·)), isQuote c = false := by
    intro c hc
    rcases mem_of_mem_joinWith hc with hc | ⟨part, hpart, hc⟩
    · rw [List.mem_singleton.mp hc]
      decide
    · exact ((hmembers part hpart).plain c hc).1
  have hquote := quote_foldl_write ('{' :: written) hquotes
  rw [List.foldl_append, List.foldl_append]
  generalize (joinWith [','] _).foldl write ⟨'{' :: written, none⟩ = draft at hquote
  rcases draft with ⟨inner, quote⟩
  dsimp only at hquote
  subst hquote
  exact foldl_white_closer (.inl rfl) [' '] white_space

theorem trim_memberLines_ne {members : List Text}
    (trimmed : ∀ member ∈ members, trim member = member ∧ member ≠ []) :
    ∀ line ∈ memberLines members, trim line ≠ [] := by
  intro line hline
  obtain ⟨member, hmember, rfl | rfl⟩ := exists_of_mem_memberLines hline
  · rcases trimmed member hmember with ⟨htrim, hne⟩
    rwa [trim_indent, htrim]
  · rcases trimmed member hmember with ⟨htrim, hne⟩
    rw [List.append_assoc, trim_indent, trim_append_of_trim htrim hne (by decide)]
    simp

theorem filter_trim_bracedLines (before inside after : Text) :
    ((bracedLines before inside after).map trim).filter (!·.isEmpty) =
      (trimStart before ++ ['{']) :: ((memberLines (items ',' inside)).map trim ++
        ['}' :: trimEnd after]) := by
  have hlines : (bracedLines before inside after).map trim = (trimStart before ++ ['{']) ::
      ((memberLines (items ',' inside)).map trim ++ ['}' :: trimEnd after]) := by
    rw [bracedLines, List.cons_append, List.map_cons, List.map_append, List.map_singleton,
      trim_opening, trim_closing]
  rw [hlines, List.filter_eq_self]
  intro text member
  rw [Bool.not_eq_true', List.isEmpty_eq_false_iff]
  rcases List.mem_cons.mp member with rfl | hmem
  · simp
  · rcases List.mem_append.mp hmem with hmem | hmem
    · rcases List.mem_map.mp hmem with ⟨line, hline, rfl⟩
      exact trim_memberLines_ne (fun _ => trim_items) line hline
    · rw [List.mem_singleton.mp hmem]
      simp

theorem foldl_opening (upper : Text) (quotes : ∀ c ∈ upper, isQuote c = false) :
    ∃ written, (upper ++ ['{']).foldl write ⟨[], none⟩ = ⟨'{' :: written, none⟩ := by
  have hquote := quote_foldl_write [] quotes
  rw [List.foldl_append]
  generalize upper.foldl write ⟨[], none⟩ = draft at hquote
  rcases draft with ⟨inner, quote⟩
  dsimp only at hquote
  subst hquote
  exact ⟨separate inner, by simp [write, isWhite, quoteAfter, isQuote]⟩

/-- Wrapping does not change how the statement is spelt. -/
theorem normal_bracedLines (braced : Braced before inside after)
    (plain : Plain before inside after) (statement : Statement) :
    normal { statement with lines := bracedLines before inside after } =
      normal { statement with lines := [bracedLine before inside after] } := by
  have hjoin := joinWith_memberLines braced.members (fun _ => trim_items)
    ('}' :: trimEnd after)
  have hline : ([bracedLine before inside after].map trim).filter (!·.isEmpty) =
      [trimStart before ++ '{' :: (inside ++ '}' :: trimEnd after)] := by
    rw [List.map_singleton, trim_bracedLine]
    simp
  obtain ⟨written, hopening⟩ := foldl_opening (trimStart before) fun c hc =>
    plain.quotes c (List.mem_append_left _ ((List.dropWhile_suffix isWhite).subset hc))
  have hsame := (foldl_wrapped braced plain written).trans (foldl_inside braced plain written).symm
  have hleft : trimStart before ++ ['{'] ++
      (joinWith [','] ((items ',' inside).map (' ' :: ·)) ++ ' ' :: '}' :: trimEnd after) =
        trimStart before ++ ['{'] ++
          (joinWith [','] ((items ',' inside).map (' ' :: ·)) ++ [' ', '}']) ++
            trimEnd after := by
    simp
  have hright : trimStart before ++ '{' :: (inside ++ '}' :: trimEnd after) =
      trimStart before ++ ['{'] ++ (inside ++ ['}']) ++ trimEnd after := by simp
  simp only [Statement.normal, Statement.normalize, filter_trim_bracedLines, hline]
  rw [joinWith_cons (by simp), List.append_assoc, List.singleton_append, hjoin, hleft, joinWith,
    hright, foldl_behind hopening, List.foldl_append, hsame, ← List.foldl_append,
    ← foldl_behind hopening]

end Normal

end Layout
end ImportBlock
