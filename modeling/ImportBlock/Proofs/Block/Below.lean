import ImportBlock.Block
import ImportBlock.Region
import ImportBlock.Proofs.Line.Label

namespace ImportBlock

open Text Line

namespace Statement

/-- The lines of the statement and the comments with it, as they stand in the file. -/
def source (statement : Statement) : List Text := statement.comments ++ statement.lines

def lowered (k : Nat) (statement : Statement) : Statement :=
  { statement with firstLine := statement.firstLine + k }

theorem lastLine_lowered {statement : Statement} (ne : statement.lines ≠ []) (k : Nat) :
    (statement.lowered k).lastLine = statement.lastLine + k := by
  have hlength := List.length_pos_iff.mpr ne
  simp only [lastLine, lowered]
  omega

end Statement

namespace Block

namespace Below

def empty : Below := ⟨[], [], []⟩

/-- What the lines above add, the first of them having the number `n`. -/
def read (below : Below) (mode : Mode) (n : Nat) (texts : List Text) : Below :=
  ((label mode texts).zipIdx n).foldr add below

/-- All that has been read, in the order of the file. -/
def texts (below : Below) : List Text :=
  below.continued ++ below.statements.flatMap Statement.source ++ below.trailing

theorem read_nil (below : Below) (mode : Mode) (n : Nat) : below.read mode n [] = below := rfl

theorem read_cons (below : Below) (mode : Mode) (n : Nat) (text : Text) (rest : List Text) :
    below.read mode n (text :: rest) =
      add (⟨(mode.read (trim text)).1, text⟩, n)
        (below.read (mode.read (trim text)).2 (n + 1) rest) := rfl

theorem read_append (below : Below) (mode : Mode) (n : Nat) (upper lower : List Text) :
    below.read mode n (upper ++ lower) =
      (below.read (mode.after upper) (n + upper.length) lower).read mode n upper := by
  simp only [read, label_append, List.zipIdx_append, List.foldr_append, length_label]

def withTrailing (below : Below) (more : List Text) : Below :=
  { below with trailing := below.trailing ++ more }

theorem add_withTrailing (below : Below) (more : List Text) (line : Line × Nat) :
    (below.withTrailing more).add line = (below.add line).withTrailing more := by
  rcases below with ⟨continued, statements, trailing⟩
  simp only [add, addComment, withTrailing]
  cases line.1.kind <;> cases statements <;> rfl

theorem read_withTrailing (below : Below) (more : List Text) (mode : Mode) (n : Nat)
    (texts : List Text) : (below.withTrailing more).read mode n texts =
      (below.read mode n texts).withTrailing more := by
  induction texts generalizing mode n with
  | nil => rfl
  | cons text rest ih => rw [read_cons, read_cons, ih, add_withTrailing]

def lowered (k : Nat) (below : Below) : Below :=
  { below with statements := below.statements.map (Statement.lowered k) }

theorem add_lowered (below : Below) (k : Nat) (line : Line) (n : Nat) :
    (below.lowered k).add (line, n + k) = (below.add (line, n)).lowered k := by
  rcases below with ⟨continued, statements, trailing⟩
  simp only [add, addComment, lowered]
  cases line.kind <;> cases statements <;> rfl

theorem read_lowered (below : Below) (mode : Mode) (n k : Nat) (texts : List Text) :
    (below.lowered k).read mode (n + k) texts = (below.read mode n texts).lowered k := by
  induction texts generalizing mode n with
  | nil => rfl
  | cons text rest ih =>
    rw [read_cons, read_cons, Nat.add_right_comm, ih, add_lowered]

theorem continued_addComment (below : Below) (text : Text) :
    (below.addComment text).continued = below.continued := by
  rw [addComment]
  split <;> rfl

theorem statements_addComment (below : Below) (text : Text) :
    (below.addComment text).statements = [] ↔ below.statements = [] := by
  rw [addComment]
  split <;> simp_all

theorem map_addComment {α : Type} {f : Statement → α} (below : Below) (text : Text)
    (same : ∀ statement comments, f { statement with comments := comments } = f statement) :
    (below.addComment text).statements.map f = below.statements.map f := by
  rw [addComment]
  split
  · rfl
  · next hcons => rw [hcons, List.map_cons, List.map_cons, same]

theorem lines_addComment (below : Below) (text : Text) :
    (below.addComment text).statements.map Statement.lines =
      below.statements.map Statement.lines :=
  map_addComment below text fun _ _ => rfl

theorem trailing_addComment {below : Below} (text : Text) (h : below.statements ≠ []) :
    (below.addComment text).trailing = below.trailing := by
  rw [addComment]
  split
  · contradiction
  · rfl

theorem texts_addComment {below : Below} (text : Text) (h : below.continued = []) :
    (below.addComment text).texts = text :: below.texts := by
  rw [addComment]
  split
  · next hnone => simp [texts, h, hnone]
  · next statement rest hsome => simp [texts, h, hsome, Statement.source]

theorem forall_lines {p : Text → Prop} {numbered : List (Line × Nat)}
    (all : ∀ line ∈ numbered, p line.1.text) :
    (∀ text ∈ (numbered.foldr add empty).continued, p text) ∧
      ∀ statement ∈ (numbered.foldr add empty).statements,
        statement.lines ≠ [] ∧ ∀ text ∈ statement.lines, p text := by
  induction numbered with
  | nil => simp [empty]
  | cons line rest ih =>
    rw [List.forall_mem_cons] at all
    obtain ⟨hcontinued, hstatements⟩ := ih all.2
    rw [List.foldr_cons]
    generalize rest.foldr add empty = below at hcontinued hstatements ⊢
    have hcomment : ∀ statement ∈ (below.addComment line.1.text).statements,
        statement.lines ≠ [] ∧ ∀ text ∈ statement.lines, p text := by
      intro statement member
      have hlines := List.mem_map_of_mem (f := Statement.lines) member
      rw [lines_addComment] at hlines
      obtain ⟨other, hother, hsame⟩ := List.mem_map.mp hlines
      rw [← hsame]
      exact hstatements other hother
    have hlines : ∀ text ∈ line.1.text :: below.continued, p text :=
      List.forall_mem_cons.mpr ⟨all.1, hcontinued⟩
    cases hkind : line.1.kind with
    | blank | code => simpa only [add, hkind] using ⟨hcontinued, hstatements⟩
    | comment | mixed =>
      simp only [add, hkind, continued_addComment]
      exact ⟨hcontinued, hcomment⟩
    | continued => simpa only [add, hkind] using ⟨hlines, hstatements⟩
    | opening =>
      simp only [add, hkind, List.forall_mem_cons]
      exact ⟨List.forall_mem_nil _, ⟨List.cons_ne_nil _ _, List.forall_mem_cons.mp hlines⟩,
        hstatements⟩

section Runs

variable (below : Below) (mode : Mode) (n : Nat) {run : List Text}

theorem read_continued (h : ∀ line ∈ label mode run, line.kind = .continued) :
    below.read mode n run = { below with continued := run ++ below.continued } := by
  induction run generalizing mode n with
  | nil => rfl
  | cons text rest ih =>
    simp only [label, List.mem_cons, forall_eq_or_imp] at h
    rw [read_cons, ih _ _ h.2, h.1]
    rfl

theorem read_comments {statement : Statement} {rest : List Statement}
    (h : ∀ line ∈ label mode run, line.isCommentKind = true)
    (first : below.statements = statement :: rest) :
    below.read mode n run = { below with
      statements := { statement with comments := run ++ statement.comments } :: rest } := by
  induction run generalizing mode n with
  | nil => simp [read_nil, ← first]
  | cons text more ih =>
    simp only [label, List.mem_cons, forall_eq_or_imp] at h
    rw [read_cons, ih _ _ h.2]
    rcases exists_kind_of_isCommentKind h.1 with ⟨done, hkind⟩
    dsimp only at hkind
    simp only [add, hkind, addComment, List.cons_append]

theorem read_trailing (h : ∀ line ∈ label mode run, line.isCommentKind = true)
    (none : below.statements = []) :
    below.read mode n run = { below with trailing := run ++ below.trailing } := by
  induction run generalizing mode n with
  | nil => rfl
  | cons text more ih =>
    simp only [label, List.mem_cons, forall_eq_or_imp] at h
    rw [read_cons, ih _ _ h.2]
    rcases exists_kind_of_isCommentKind h.1 with ⟨done, hkind⟩
    dsimp only at hkind
    simp only [add, hkind, addComment, none, List.cons_append]

theorem after_blank (h : ∀ text ∈ run, isBlank text = true) : Mode.after .code run = .code := by
  induction run with
  | nil => rfl
  | cons text rest ih =>
    have hblank := isBlank_iff_trim.mp (h text List.mem_cons_self)
    have hrest := ih fun l member => h l (List.mem_cons_of_mem text member)
    rw [Mode.after, hblank]
    exact hrest

theorem label_blank (h : ∀ text ∈ run, isBlank text = true) :
    ∀ line ∈ label .code run, line.kind = .blank := by
  induction run with
  | nil => simp [label]
  | cons text rest ih =>
    have hblank := isBlank_iff_trim.mp (h text List.mem_cons_self)
    have hrest := ih fun l member => h l (List.mem_cons_of_mem text member)
    simp only [label, hblank, List.mem_cons, forall_eq_or_imp]
    exact ⟨rfl, hrest⟩

theorem read_blank (h : ∀ text ∈ run, isBlank text = true) : below.read .code n run = below := by
  induction run generalizing n with
  | nil => rfl
  | cons text rest ih =>
    have hblank := isBlank_iff_trim.mp (h text List.mem_cons_self)
    have hrest := ih (n + 1) fun l member => h l (List.mem_cons_of_mem text member)
    rw [read_cons, hblank]
    exact hrest

end Runs

end Below

theorem filterMap_zipIdx_header (ls : List Line) :
    (ls.zipIdx.filterMap fun line => HeaderLine.ofLine? line.1) =
      ls.filterMap HeaderLine.ofLine? := by
  conv_rhs => rw [← List.zipIdx_map_fst 0 ls, List.filterMap_map]
  rfl

/-- The lines above the first opening one make the header, code below that one ends the block. -/
theorem parse_of_cut {text : Text} (header : List Text) {block unread : List Text}
    (split : lines text = header ++ (block ++ unread)) (settled : Mode.after .code header = .code)
    (above : ∀ line ∈ label .code header, line.kind ≠ .opening)
    (opens : ∃ first rest, label .code block = first :: rest ∧ first.kind = .opening)
    (inside : ∀ line ∈ label .code block, line.kind ≠ .code)
    (stops : ∀ line ∈ (label (Mode.after .code block) unread).head?, line.kind = .code) :
    parse text =
      let below := Below.empty.read .code header.length block
      ⟨(label .code header).filterMap HeaderLine.ofLine?, below.statements, below.trailing⟩ := by
  rcases opens with ⟨first, rest, hblock, hopening⟩
  set upper := (label .code header).zipIdx with hupper
  set lower := (label .code block).zipIdx header.length with hlower
  set left := (label (Mode.after .code block) unread).zipIdx (header.length + block.length)
    with hleft
  have hnumbered : (label .code (lines text)).zipIdx = upper ++ (lower ++ left) := by
    rw [split, label_append, settled, label_append, List.zipIdx_append, List.zipIdx_append,
      length_label, length_label, Nat.zero_add]
  have hhead : ∀ numbered ∈ upper, (numbered.1.kind != .opening) = true := by
    intro numbered member
    simpa using above _ (List.fst_mem_of_mem_zipIdx member)
  have hbody : ∀ numbered ∈ lower, (numbered.1.kind != .code) = true := by
    intro numbered member
    simpa using inside _ (List.fst_mem_of_mem_zipIdx member)
  have hstart : lower = (first, header.length) :: rest.zipIdx (header.length + 1) := by
    rw [hlower, hblock, List.zipIdx_cons]
  have hend : left.takeWhile (·.1.kind != .code) = [] := by
    rw [hleft]
    cases hlabel : label (Mode.after .code block) unread with
    | nil => rfl
    | cons line more =>
      rw [hlabel] at stops
      simp [stops line rfl]
  have htake : (upper ++ (lower ++ left)).takeWhile (·.1.kind != .opening) = upper := by
    rw [List.takeWhile_append_of_pos hhead, hstart]
    simp [hopening]
  have hdrop : (upper ++ (lower ++ left)).dropWhile (·.1.kind != .opening) = lower ++ left := by
    rw [List.dropWhile_append_of_pos hhead, hstart]
    simp [hopening]
  have hread : (lower ++ left).takeWhile (·.1.kind != .code) = lower := by
    rw [List.takeWhile_append_of_pos hbody, hend, List.append_nil]
  rw [parse]
  dsimp only
  rw [hnumbered, htake, hdrop, hread, filterMap_zipIdx_header]
  rfl

theorem parse_of_split {text : Text} (header : List Text) {block : List Text}
    (split : lines text = header ++ block) (settled : Mode.after .code header = .code)
    (above : ∀ line ∈ label .code header, line.kind ≠ .opening)
    (opens : ∃ first rest, label .code block = first :: rest ∧ first.kind = .opening)
    (inside : ∀ line ∈ label .code block, line.kind ≠ .code) :
    parse text =
      let below := Below.empty.read .code header.length block
      ⟨(label .code header).filterMap HeaderLine.ofLine?, below.statements, below.trailing⟩ :=
  parse_of_cut header (by rw [split, List.append_nil]) settled above opens inside (by simp [label])

theorem parse_of_none {text : Text}
    (none : ∀ line ∈ label .code (lines text), line.kind ≠ .opening) :
    parse text = ⟨(label .code (lines text)).filterMap HeaderLine.ofLine?, [], []⟩ := by
  have hall : ∀ numbered ∈ (label .code (lines text)).zipIdx,
      (numbered.1.kind != .opening) = true := by
    intro numbered member
    simpa using none _ (List.fst_mem_of_mem_zipIdx member)
  have hdrop : ((label .code (lines text)).zipIdx).dropWhile (·.1.kind != .opening) = [] :=
    List.dropWhile_eq_nil_iff.mpr hall
  rw [parse, List.takeWhile_eq_self_iff.mpr hall, hdrop, filterMap_zipIdx_header]
  rfl

end Block
end ImportBlock
