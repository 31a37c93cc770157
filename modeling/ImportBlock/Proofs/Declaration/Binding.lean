import ImportBlock.Proofs.Declaration.Spelling
import ImportBlock.Proofs.Text.Parts

namespace ImportBlock

open Text Line Statement

namespace Name

variable (name : Name)

theorem not_mem {c : Char} (other : isNameChar c = false) : c ∉ name.text := by
  intro member
  rw [name.plain c member] at other
  contradiction

theorem solid : Solid name.text := by
  have hword := (isWord_name name).plain
  constructor
  · obtain ⟨c, rest, hname⟩ := List.exists_cons_of_ne_nil name.ne
    exact ⟨c, rest, hname, (hword c (by simp [hname])).1⟩
  · obtain ⟨init, c, hname⟩ := (List.eq_nil_or_concat' name.text).resolve_left name.ne
    exact ⟨init, c, hname, (hword c (by simp [hname])).1⟩

end Name

namespace Statement

theorem withoutType_of_word {text : Text}
    (h : text.takeWhile isNameChar ≠ ['t', 'y', 'p', 'e']) : withoutType text = text := by
  rw [withoutType]
  cases hstrip : stripStart typeWord text with
  | none => rfl
  | some rest =>
    rw [eq_append_of_stripStart hstrip] at h
    exact absurd rfl h

theorem withoutType_name (name : Name) {rest : Text}
    (stop : ∀ c ∈ rest.head?, isNameChar c = false) :
    withoutType (name.text ++ rest) = name.text ++ rest := by
  apply withoutType_of_word
  have hrest : rest.takeWhile isNameChar = [] := by
    cases rest with
    | nil => rfl
    | cons c rest => simp [stop c rfl]
  rw [List.takeWhile_append_of_pos name.plain, hrest, List.append_nil]
  exact name.notType

theorem withoutType_typeSpelling (type? : Option Space) {text : Text}
    (h : withoutType text = text) : withoutType (typeSpelling type? ++ text) = text := by
  cases type? with
  | none => exact h
  | some space =>
    have hstrip : stripStart typeWord (typeSpelling (some space) ++ text) = some text :=
      stripStart_append typeWord text
    rw [withoutType, hstrip]
    rfl

end Statement

namespace Member

theorem solid_spelling (member : Member) : Solid member.spelling := by
  have hname := member.name.solid
  have halias : Solid (member.name.text ++ aliasSpelling member.alias?) := by
    cases member.alias? with
    | none => simpa only [aliasSpelling, List.append_nil] using hname
    | some as =>
      obtain ⟨before, after, other⟩ := as
      simpa [aliasSpelling] using hname.append [' ', 'a', 's', ' '] other.solid
  rw [spelling, List.append_assoc]
  cases member.type? with
  | none => exact halias
  | some space =>
    have htype : Solid ['t', 'y', 'p', 'e'] :=
      ⟨⟨'t', _, rfl, by decide⟩, ['t', 'y', 'p'], 'e', rfl, by decide⟩
    exact htype.append [' '] halias

theorem mem_spelling {member : Member} {c : Char} (h : c ∈ member.spelling) :
    isNameChar c = true ∨ c = ' ' := by
  have htype : ∀ d ∈ typeSpelling member.type?, isNameChar d = true ∨ d = ' ' := by
    cases member.type? with
    | none => simp [typeSpelling]
    | some space =>
      have hword : ∀ d ∈ ['t', 'y', 'p', 'e', ' '], isNameChar d = true ∨ d = ' ' :=
        forall_of_all (by decide)
      exact hword
  have halias : ∀ d ∈ aliasSpelling member.alias?, isNameChar d = true ∨ d = ' ' := by
    cases member.alias? with
    | none => simp [aliasSpelling]
    | some as =>
      have has : ∀ d ∈ [' ', 'a', 's', ' '], isNameChar d = true ∨ d = ' ' :=
        forall_of_all (by decide)
      exact List.forall_mem_append.mpr ⟨has, fun d hd => .inl (as.2.2.plain d hd)⟩
  rw [spelling, List.mem_append, List.mem_append] at h
  rcases h with (hc | hc) | hc
  · exact htype c hc
  · exact .inl (member.name.plain c hc)
  · exact halias c hc

theorem memberName_spelling (member : Member) :
    memberName member.spelling = member.localName := by
  have hspace : ∀ name : Name, name.text.count ' ' = 0 := fun name =>
    List.count_eq_zero.mpr (name.not_mem (by decide))
  have htyped : withoutType member.spelling =
      member.name.text ++ aliasSpelling member.alias? := by
    rw [spelling, List.append_assoc]
    apply withoutType_typeSpelling
    apply withoutType_name
    cases member.alias? with
    | none => simp [aliasSpelling]
    | some as => simp [aliasSpelling, isNameChar, isWhite]
  rw [memberName, htyped]
  cases halias : member.alias? with
  | none =>
    have hnone : splitLast [' ', 'a', 's', ' '] member.name.text = none :=
      splitLast_of_not_includes (by simp) (not_includes_of_count (by rw [hspace]; decide))
    simp [aliasSpelling, hnone, localName, halias, member.name.solid.trim_eq]
  | some as =>
    obtain ⟨before, after, other⟩ := as
    have hinner : includes [' ', 'a', 's', ' '] (['a', 's', ' '] ++ other.text) = false :=
      not_includes_of_count (by rw [List.count_append, hspace]; decide)
    have hspelling : aliasSpelling (some (before, after, other)) =
        ' ' :: (['a', 's', ' '] ++ other.text) := rfl
    rw [hspelling, splitLast_append hinner, localName, halias]
    exact other.solid.trim_eq

theorem items_spelling (member : Member) {above below : Text}
    (habove : ∀ c ∈ above, c = ' ') (hbelow : ∀ c ∈ below, c = ' ') :
    items ',' (above ++ member.spelling ++ below) = [member.spelling] := by
  refine items_solid member.solid_spelling ?_ (by decide) habove hbelow
  intro hc
  rcases mem_spelling hc with hname | hblank
  · exact absurd hname (by decide)
  · exact absurd hblank (by decide)

end Member

namespace Members

theorem exists_inside (members : Members) : ∃ inside,
    (∀ opening, opening ≠ ',' → members.spelling opening = opening :: (inside ++ ['}'])) ∧
      (members.spelling ',' = ',' :: (inside ++ ['}']) ∨
        members.spelling ',' = [' ', '}'] ∧ members.names = []) ∧
      (items ',' inside).map memberName = members.names := by
  have hspace : ∀ c ∈ [' '], c = ' ' := List.forall_mem_singleton.mpr rfl
  induction members with
  | blank gap =>
    refine ⟨[' '], fun opening ne => ?_, .inr ⟨rfl, rfl⟩, rfl⟩
    rw [spelling, if_neg ne]
    rfl
  | last before member after =>
    refine ⟨[' '] ++ member.spelling ++ [' '], ?_, .inl ?_, ?_⟩
    · intro opening _
      simp [spelling]
    · simp [spelling]
    · rw [member.items_spelling hspace hspace, List.map_singleton, member.memberName_spelling]
      rfl
  | more before member after rest ih =>
    obtain ⟨inside, -, hrest | ⟨hrest, hnone⟩, hitems⟩ := ih
    · refine ⟨[' '] ++ member.spelling ++ [] ++ ',' :: inside, ?_, .inl ?_, ?_⟩
      · intro opening _
        simp [spelling, hrest]
      · simp [spelling, hrest]
      · rw [items_append, member.items_spelling hspace (List.forall_mem_nil _), List.map_append,
          hitems, List.map_singleton, member.memberName_spelling]
        rfl
    · refine ⟨[' '] ++ member.spelling ++ [' '], ?_, .inl ?_, ?_⟩
      · intro opening _
        simp [spelling, hrest]
      · simp [spelling, hrest]
      · rw [member.items_spelling hspace hspace, List.map_singleton, member.memberName_spelling,
          names, hnone]

end Members

namespace Statement

theorem splitBraces_of_not_mem {clause : Text} (h : '{' ∉ clause) :
    splitBraces clause = (clause, []) := by
  rw [splitBraces, splitFirst_of_not_mem h]

theorem splitBraces_append {before : Text} (h : '{' ∉ before) (inside : Text) :
    splitBraces (before ++ '{' :: (inside ++ ['}'])) = (before, inside) := by
  have hnone : includes ['}'] ([] ++ []) = false := rfl
  have hlast : splitLast ['}'] (inside ++ ['}']) = some (inside, []) :=
    splitLast_append hnone inside
  simp only [splitBraces, splitFirst_append h, hlast, List.append_nil]

def clauseNames (clause : Text) : List Text :=
  (items ',' (splitBraces clause).1).filterMap headName? ++
    (items ',' (splitBraces clause).2).map memberName

theorem bindings_of_clause? {normal clause : Text} (h : clause? normal = some clause) :
    bindings normal = clauseNames clause := by
  rw [bindings, h]
  rfl

end Statement

theorem Name.items_text (name : Name) : items ',' name.text = [name.text] :=
  items_of_solid name.solid (name.not_mem (by decide))

theorem Name.headName?_text (name : Name) : headName? name.text = some name.text := by
  unfold headName?
  split
  · next rest hname => exact absurd (hname ▸ List.mem_cons_self) (name.not_mem (by decide))
  · rfl

namespace Bundle

theorem solid_star (gap : Gap) (name : Name) :
    Solid (starSpelling gap ++ ' ' :: name.text) := by
  have hjoined : Solid ['*', 'a', 's'] :=
    ⟨⟨'*', _, rfl, by decide⟩, ['*', 'a'], 's', rfl, by decide⟩
  have hspaced : Solid "* as".toList :=
    ⟨⟨'*', _, rfl, by decide⟩, ['*', ' ', 'a'], 's', rfl, by decide⟩
  rw [← List.singleton_append, ← List.append_assoc, starSpelling]
  split
  · exact hjoined.append [' '] name.solid
  · exact hspaced.append [' '] name.solid

theorem not_mem_star (gap : Gap) (name : Name) {c : Char} (other : isNameChar c = false)
    (star : c ≠ '*') (space : c ≠ ' ') : c ∉ starSpelling gap ++ ' ' :: name.text := by
  have hletters : c ≠ 'a' ∧ c ≠ 's' := by
    constructor
    · rintro rfl
      exact absurd other (by decide)
    · rintro rfl
      exact absurd other (by decide)
  rw [starSpelling]
  split <;> simp [hletters, name.not_mem other, star, space]

theorem headName?_star (gap : Gap) (name : Name) :
    headName? (starSpelling gap ++ ' ' :: name.text) = some name.text := by
  have has : Solid (['a', 's'] ++ [' '] ++ name.text) :=
    Solid.append ⟨⟨'a', _, rfl, by decide⟩, ['a'], 's', rfl, by decide⟩ [' '] name.solid
  have hstrip : stripStart ['a', 's', ' '] (['a', 's'] ++ [' '] ++ name.text) = some name.text :=
    stripStart_append ['a', 's', ' '] name.text
  have htrim : ∀ blank : Text, (∀ c ∈ blank, isWhite c = true) →
      headName? ('*' :: (blank ++ (['a', 's'] ++ [' '] ++ name.text))) = some name.text := by
    intro blank white
    rw [headName?, trim_white_append white, has.trim_eq, hstrip, Option.map_some,
      name.solid.trim_eq]
  rw [starSpelling]
  split
  · exact htrim [] (List.forall_mem_nil _)
  · exact htrim [' '] white_space

theorem solid_spelling (bundle : Bundle) : Solid bundle.spelling := by
  cases bundle with
  | star gap space name => exact solid_star gap name
  | braces members =>
    obtain ⟨inside, hinside, -⟩ := members.exists_inside
    rw [spelling, hinside '{' (by decide)]
    exact ⟨⟨'{', _, rfl, by decide⟩, '{' :: inside, '}', rfl, by decide⟩

theorem clauseNames_append (bundle : Bundle) {above : List Text} {before : Text}
    (free : '{' ∉ before)
    (parts : ∀ text, items ',' (before ++ text) = above ++ items ',' text) :
    clauseNames (before ++ bundle.spelling) = above.filterMap headName? ++ bundle.names := by
  have hempty : items ',' [] = [] := rfl
  cases bundle with
  | star gap space name =>
    have hbrace := not_mem_star gap name (by decide : isNameChar '{' = false) (by decide)
      (by decide)
    have hcomma := not_mem_star gap name (by decide : isNameChar ',' = false) (by decide)
      (by decide)
    have hwhole : '{' ∉ before ++ (starSpelling gap ++ ' ' :: name.text) := by
      rw [List.mem_append, not_or]
      exact ⟨free, hbrace⟩
    rw [clauseNames, spelling, splitBraces_of_not_mem hwhole, parts,
      items_of_solid (solid_star gap name) hcomma, hempty, List.filterMap_append,
      List.filterMap_cons_some (headName?_star gap name)]
    simp [names]
  | braces members =>
    obtain ⟨inside, hinside, -, hnames⟩ := members.exists_inside
    have hhead := parts []
    rw [List.append_nil, hempty, List.append_nil] at hhead
    rw [clauseNames, spelling, hinside '{' (by decide), splitBraces_append free, hhead, hnames]
    rfl

end Bundle

namespace Clause

theorem solid_spelling (clause : Clause) : Solid clause.spelling := by
  cases clause with
  | name word => exact word.solid
  | bundle shared => exact shared.solid_spelling
  | both word before after shared =>
    rw [spelling, List.append_cons, List.append_cons, List.append_assoc _ [','] [' ']]
    exact word.solid.append _ shared.solid_spelling

/-- The names read from a clause are those it was written with. -/
theorem clauseNames_spelling (clause : Clause) : clauseNames clause.spelling = clause.names := by
  cases clause with
  | name word =>
    have hbrace : '{' ∉ word.text := word.not_mem (by decide)
    have hempty : items ',' [] = [] := rfl
    rw [spelling, clauseNames, splitBraces_of_not_mem hbrace, word.items_text, hempty,
      List.filterMap_cons_some word.headName?_text]
    rfl
  | bundle shared =>
    have hparts : ∀ text, items ',' ([] ++ text) = [] ++ items ',' text := fun _ => rfl
    exact shared.clauseNames_append List.not_mem_nil hparts
  | both word before after shared =>
    have hcut : ∀ text, word.text ++ ',' :: ' ' :: text = word.text ++ [',', ' '] ++ text := by simp
    have hbrace : '{' ∉ word.text ++ [',', ' '] := by
      simpa using word.not_mem (by decide : isNameChar '{' = false)
    have hparts : ∀ text, items ',' (word.text ++ [',', ' '] ++ text) =
        [word.text] ++ items ',' text := by
      intro text
      rw [← hcut, items_append, word.items_text, items_space (by decide)]
    rw [spelling, hcut, shared.clauseNames_append hbrace hparts,
      List.filterMap_cons_some word.headName?_text]
    rfl

theorem withoutType_spelling (clause : Clause) (rest : Text) :
    withoutType (clause.spelling ++ (fromWord ++ rest)) =
      clause.spelling ++ (fromWord ++ rest) := by
  have hbundle : ∀ bundle : Bundle, withoutType (bundle.spelling ++ (fromWord ++ rest)) =
      bundle.spelling ++ (fromWord ++ rest) := by
    intro bundle
    apply withoutType_of_word
    cases bundle with
    | star gap space name =>
      rw [Bundle.spelling, Bundle.starSpelling]
      split <;> simp [isNameChar]
    | braces members =>
      obtain ⟨inside, hinside, -⟩ := members.exists_inside
      simp [Bundle.spelling, hinside '{' (by decide), isNameChar]
  cases clause with
  | name word => exact withoutType_name word (by simp [fromWord, isNameChar, isWhite])
  | bundle shared => exact hbundle shared
  | both word before after shared =>
    rw [spelling, List.append_assoc]
    exact withoutType_name word (by simp [isNameChar])

end Clause

namespace Literal

theorem spelling_append (literal : Literal) (rest : Text) :
    literal.spelling ++ rest = literal.quote :: (literal.text ++ literal.quote :: rest) := by
  simp [spelling]

theorem quoted?_spelling (literal : Literal) (rest : Text) :
    quoted? (trimStart (literal.spelling ++ rest)) = some literal.text := by
  obtain ⟨hquote, hwhite, -⟩ := literal.quote_cases
  rw [spelling_append, trimStart, List.dropWhile_cons_of_neg (by simp [hwhite]), quoted?,
    if_pos hquote, splitFirst_append literal.closed]
  rfl

end Literal

namespace Declaration

variable {extra : Text}

theorem not_includes_from (source : Literal) (semicolon? : Option LineGap) (upper : Text)
    (above : includes fromWord upper = false) (below : includes fromWord extra = false) :
    includes fromWord
      (upper ++ (source.spelling ++ (semicolonSpelling semicolon? ++ extra))) = false := by
  have hquote : source.quote ∉ fromWord := by
    rcases source.isQuote with h | h <;> rw [h] <;> decide
  have hsemicolon : includes fromWord (semicolonSpelling semicolon? ++ extra) = false := by
    cases semicolon? with
    | none => exact below
    | some gap =>
      have hone : includes fromWord ([] ++ ';' :: extra) = false := by
        rw [includes_append (by decide) (by decide), below]
        rfl
      have htwo : includes fromWord ([' '] ++ ';' :: extra) = false := by
        rw [includes_append (by decide) (by decide), below]
        rfl
      rw [semicolonSpelling]
      split
      · exact hone
      · exact htwo
  rw [source.spelling_append, includes_append (by decide) hquote,
    includes_append (by decide) hquote, above, source.noFrom, hsemicolon]
  rfl

theorem splitLast_from (source : Literal) (semicolon? : Option LineGap) (upper : Text)
    (below : includes fromWord extra = false) :
    splitLast fromWord (upper ++ (fromWord ++ (source.spelling ++
      (semicolonSpelling semicolon? ++ extra)))) =
        some (upper, source.spelling ++ (semicolonSpelling semicolon? ++ extra)) := by
  have hword : includes fromWord ['f', 'r', 'o', 'm', ' '] = false := by decide
  exact splitLast_append (not_includes_from source semicolon? _ hword below) upper

theorem bindings_spelling (declaration : Declaration) (below : includes fromWord extra = false) :
    bindings (declaration.spelling ++ extra) = declaration.names := by
  have hstrip : stripStart (importWord ++ [' ']) (declaration.spelling ++ extra) =
      some (frontSpelling declaration.front? ++ (declaration.source.spelling ++
        (semicolonSpelling declaration.semicolon? ++ extra))) := by
    have hstart := stripStart_append (importWord ++ [' ']) (frontSpelling declaration.front? ++
      (declaration.source.spelling ++ (semicolonSpelling declaration.semicolon? ++ extra)))
    rw [← hstart]
    simp [spelling]
  cases hfront : declaration.front? with
  | none =>
    have hnone : clause? (declaration.spelling ++ extra) = none := by
      have hfree := not_includes_from declaration.source declaration.semicolon? [] rfl
        below
      rw [List.nil_append] at hfree
      rw [clause?, hstrip, hfront, frontSpelling, List.nil_append, Option.bind_some,
        withoutType_of_word, splitLast_of_not_includes (by decide) hfree]
      · rfl
      · simp [Literal.spelling, declaration.source.quote_cases]
    rw [bindings, hnone, names, hfront]
  | some front =>
    have hsome : clause? (declaration.spelling ++ extra) = some front.clause.spelling := by
      have htype := fun rest =>
        withoutType_typeSpelling front.type? (front.clause.withoutType_spelling rest)
      rw [clause?, hstrip, hfront, frontSpelling, List.append_assoc, List.append_assoc,
        Option.bind_some, htype, splitLast_from _ _ _ below, Option.map_some,
        front.clause.solid_spelling.trim_eq]
    rw [bindings_of_clause? hsome, front.clause.clauseNames_spelling, names, hfront]

theorem specifier?_spelling (declaration : Declaration) (below : includes fromWord extra = false) :
    specifier? (declaration.spelling ++ extra) = some declaration.source.text := by
  cases hfront : declaration.front? with
  | none =>
    have hwhole : declaration.spelling ++ extra = importWord ++ [' '] ++
        (declaration.source.spelling ++ (semicolonSpelling declaration.semicolon? ++ extra)) := by
      simp [spelling, hfront, frontSpelling]
    have hfree := not_includes_from declaration.source declaration.semicolon?
      (importWord ++ [' ']) (by decide) below
    have htrim : ∀ rest, trimStart ([' '] ++ rest) = trimStart rest := fun rest =>
      List.dropWhile_append_of_pos white_space
    rw [specifier?, hwhole, splitLast_of_not_includes (by decide) hfree, List.append_assoc,
      stripStart_append]
    exact (congrArg quoted? (htrim _)).trans (declaration.source.quoted?_spelling _)
  | some front =>
    have hwhole : declaration.spelling ++ extra =
        importWord ++ ' ' :: (typeSpelling front.type? ++ front.clause.spelling) ++ (fromWord ++
          (declaration.source.spelling ++
            (semicolonSpelling declaration.semicolon? ++ extra))) := by
      simp [spelling, hfront, frontSpelling]
    rw [specifier?, hwhole, splitLast_from _ _ _ below]
    exact declaration.source.quoted?_spelling _

end Declaration
end ImportBlock
