import ImportBlock.Category
import ImportBlock.Proofs.Declaration.Prune

/-! The group of a declaration, with a comment behind it or without. -/

namespace ImportBlock

open Text Statement

namespace Category

/-- The category of a specifier, or of what is read in its place. -/
def ofTarget (target : Text) : Category :=
  if target.contains '@' then .scoped
  else if includes ['.', '/'] target then .relative
  else .package

theorem ofNormal_eq (normal : Text) :
    ofNormal normal = ofTarget ((specifier? normal).getD normal) := rfl

theorem mem_members_singleton {byScope : Bool} {statement : Statement} {category : Category} :
    statement ∈ members byScope [statement] category ↔
      (ofNormal statement.normal).group byScope = category := by
  simp [members]

theorem forall_mem_members_iff {byScope : Bool} {left right : Statement} :
    (∀ category, left ∈ members byScope [left] category ↔
        right ∈ members byScope [right] category) ↔
      (ofNormal left.normal).group byScope = (ofNormal right.normal).group byScope := by
  simp only [mem_members_singleton]
  constructor
  · intro h
    exact ((h _).mp rfl).symm
  · intro h category
    rw [h]

end Category

namespace Declaration

open Category

variable (declaration : Declaration)

theorem specifier?_commented (gap : LineGap) (rest : Text) :
    specifier? (normalize (declaration.text ++ gap.text ++ '/' :: rest)) =
      match splitLast fromWord (normalize ('/' :: rest)) with
      | some sides => quoted? (trimStart sides.2)
      | none => some declaration.source.text := by
  obtain ⟨words, hcomment, hspelling⟩ := declaration.normalize_commented gap rest
  rw [hcomment, hspelling]
  cases found : splitLast fromWord ('/' :: words) with
  | some sides =>
    have hlast := splitLast_append_of_some found
      (declaration.spelling ++ if gap.text = [] then [] else [' '])
    rw [List.append_assoc] at hlast
    rw [specifier?, hlast]
  | none =>
    have hcomment := not_includes_of_splitLast (by decide) found
    have hwords : ∀ spaces : Text, includes fromWord (spaces ++ '/' :: words) =
        (includes fromWord spaces || includes fromWord words) :=
      fun spaces => includes_append (by decide) (by decide) spaces words
    apply declaration.specifier?_spelling
    rw [← List.nil_append ('/' :: words), hwords] at hcomment
    rw [hwords]
    split <;> exact hcomment

/-- What stands behind the last ` from ` of the comment is in the group of the declaration. Where it
is no literal the whole statement is looked at. -/
def KeepsGroup (byScope : Bool) (gap : LineGap) (comment : Text) : Prop :=
  ∀ sides ∈ splitLast fromWord (normalize comment),
    (ofTarget ((quoted? (trimStart sides.2)).getD
        (normalize (declaration.text ++ gap.text ++ comment)))).group byScope =
      (ofTarget declaration.source.text).group byScope

theorem ofNormal_spelling : ofNormal declaration.spelling = ofTarget declaration.source.text := by
  have hfree : includes fromWord [] = false := rfl
  have hsource := declaration.specifier?_spelling hfree
  rw [List.append_nil] at hsource
  rw [ofNormal_eq, hsource, Option.getD_some]

theorem group_commented_iff (byScope : Bool) (gap : LineGap) (rest : Text) :
    (ofNormal (normalize (declaration.text ++ gap.text ++ '/' :: rest))).group byScope =
        (ofTarget declaration.source.text).group byScope ↔
      declaration.KeepsGroup byScope gap ('/' :: rest) := by
  rw [ofNormal_eq, specifier?_commented, KeepsGroup]
  cases splitLast fromWord (normalize ('/' :: rest)) with
  | none => simp
  | some sides => simp

/-- A comment behind a declaration leaves it in its group if and only if the last ` from ` of the
comment, where it has one, is followed by a specifier of that group. -/
theorem group_remarked_iff (line : '\n' ∉ declaration.text) (remark : Remark) :
    ∃ plain remarked, Block.parse declaration.text = ⟨[], [plain], []⟩ ∧
      Block.parse (declaration.text ++ remark.text) = ⟨[], [remarked], []⟩ ∧
      (ofNormal (normalize (declaration.text ++ remark.text)) =
          ofNormal (normalize declaration.text) ↔
        declaration.KeepsGroup true remark.gap (Line.slashes ++ remark.words)) ∧
      ∀ byScope, (∀ category, remarked ∈ members byScope [remarked] category ↔
          plain ∈ members byScope [plain] category) ↔
        declaration.KeepsGroup byScope remark.gap remark.comment := by
  obtain ⟨plain, hplain, -, -, hspelling⟩ := declaration.exists_statement
  obtain ⟨remarked, hremarked, hnormal⟩ := declaration.exists_statement_remarked line remark
  refine ⟨plain, remarked, hplain, hremarked, ?_, fun byScope => ?_⟩
  · have hgroup : ∀ category : Category, category.group true = category := by
      rintro (_ | _ | _) <;> rfl
    have hkeeps := declaration.group_commented_iff true remark.gap ('/' :: remark.words)
    rw [hgroup, hgroup] at hkeeps
    rw [declaration.normalize_text, ofNormal_spelling, Remark.text, ← List.append_assoc]
    exact hkeeps
  · rw [forall_mem_members_iff, hspelling, ofNormal_spelling, hnormal]
    exact declaration.group_commented_iff byScope remark.gap ('/' :: trimEnd remark.words)

def copied : Remark := ⟨wanted.gap, " copied from \"b\"".toList, by decide⟩

theorem group_remarked_copied :
    '\n' ∉ lodash.text ∧ ∃ plain remarked,
      Block.parse "import _ from \"lodash\";".toList = ⟨[], [plain], []⟩ ∧
      Block.parse "import _ from \"lodash\"; // copied from \"b\"".toList = ⟨[], [remarked], []⟩ ∧
      plain ∈ members true [plain] .package ∧ remarked ∈ members true [remarked] .package := by
  have hline : '\n' ∉ lodash.text := by decide +kernel
  have hkeeps : lodash.KeepsGroup true copied.gap copied.comment := by
    intro sides found
    have hsides : splitLast fromWord (normalize copied.comment) =
        some ("// copied".toList, "\"b\"".toList) := by decide +kernel
    cases hsides.symm.trans found
    decide +kernel
  obtain ⟨plain, remarked, hplain, hremarked, -, hmembers⟩ := lodash.group_remarked_iff hline copied
  have hgroup : plain ∈ members true [plain] .package := by
    obtain ⟨statement, hparse, -, -, hnormal⟩ := lodash.exists_statement
    obtain rfl : plain = statement := by simpa [hplain] using hparse
    rw [mem_members_singleton, hnormal, ofNormal_spelling]
    decide +kernel
  exact ⟨hline, plain, remarked, hplain, hremarked, hgroup,
    ((hmembers true).mpr hkeeps .package).mpr hgroup⟩

def packaged : Declaration where
  space := .blank
  front? := some ⟨none, .name (.ofWord "a"), .blank, .blank⟩
  source := { lodash.source with
    text := ['a']
    closed := by decide
    line := by decide
    noFrom := by decide }
  semicolon? := some .empty

def diverting : Remark := ⟨wanted.gap, " from \"./x\"".toList, by decide⟩

/-- Behind a remark with ` from "./x"` a package is grouped with the relative modules. -/
theorem diverted_package :
    let text := "import a from \"a\"; // from \"./x\"".toList
    text = packaged.text ++ diverting.text ∧ '\n' ∉ packaged.text ∧
      packaged.semicolon?.isSome = true ∧
      ofNormal (normalize packaged.text) = .package ∧ ofNormal (normalize text) = .relative ∧
      Block.parse packaged.text = ⟨[], [⟨[], [packaged.text], 0⟩], []⟩ ∧
      Block.parse text = ⟨[], [⟨[], [text], 0⟩], []⟩ ∧
      members true [⟨[], [packaged.text], 0⟩] .package = [⟨[], [packaged.text], 0⟩] ∧
      members true [⟨[], [text], 0⟩] .package = [] := by
  decide +kernel

end Declaration
end ImportBlock
