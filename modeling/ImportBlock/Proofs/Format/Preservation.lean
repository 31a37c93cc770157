import ImportBlock.Proofs.Format.Returns
import ImportBlock.Proofs.Format.Wrapping

/-! A formatted text holds the statements it had, each with its comments, in their new order. -/

namespace ImportBlock

open Text Layout

namespace Format

variable {settings : Settings} {statements : List Statement} {text : Text} {region : Region}

theorem normal_of_rawText {left right : Statement} (hleft : NoFeed left.lines)
    (hright : NoFeed right.lines) (nleft : left.lines ≠ []) (nright : right.lines ≠ [])
    (same : left.rawText = right.rawText) : left.normal = right.normal := by
  have hlines := joinWith_injective hleft hright nleft nright same
  rw [Statement.normal, Statement.normal, hlines]

theorem nodup_arranged (valid : settings.validate = .ok ())
    (free : ∀ statement ∈ statements, NoFeed statement.lines ∧ statement.lines ≠ []) :
    ((arranged settings statements).flatten.map Statement.rawText).Nodup := by
  rw [List.map_flatten, List.Nodup, List.pairwise_flatten, arranged, List.map_map]
  constructor
  · intro texts member
    rcases List.mem_map.mp member with ⟨category, -, rfl⟩
    exact Statement.nodup_distinct _
  · rw [List.pairwise_map]
    apply (Settings.nodup_of_validate valid).imp
    rintro category other hne _ htext _ htext' hsame
    rcases List.mem_map.mp htext with ⟨left, hleft, rfl⟩
    rcases List.mem_map.mp htext' with ⟨right, hright, rfl⟩
    rcases mem_group.mp ((Statement.sublist_distinct _).subset hleft) with ⟨hleft, hcategory⟩
    rcases mem_group.mp ((Statement.sublist_distinct _).subset hright) with ⟨hright, hother⟩
    have hnormal := normal_of_rawText (free left hleft).1 (free right hright).1
      (free left hleft).2 (free right hright).2 hsame
    rw [hnormal, hother] at hcategory
    exact hne hcategory.symm

/-- The new block holds the statements of the old one in their order, from `first` on, and the
comments of `first` stand above it. -/
structure Rearranged (settings : Settings) (old new : Region) (first : Statement)
    (rest : List Statement) : Prop where
  order : (arranged settings (Block.parse old.block).statements).flatten = first :: rest
  statements : (Block.parse new.block).statements.map Statement.unnumbered =
    ({ first with comments := [] } :: rest).map Statement.unnumbered
  above : new.before = old.before ++ first.comments.flatMap (· ++ lineBreak old.text)
  below : new.after = old.after
  distinct : ((Block.parse new.block).statements.map Statement.rawText).Nodup
  complete : ∀ statement ∈ (Block.parse old.block).statements,
    ∃ kept ∈ (Block.parse new.block).statements, kept.rawText = statement.rawText

section Plain

variable {header block : List Text}

theorem tidy_block (h : region.OfLines header block)
    (off : settings.wrapMultilineImports = false) :
    Tidy settings (Block.parse region.block).statements := by
  rw [h.parse_block]
  exact tidy_statements h off 0

theorem Tidy.free_lines (tidy : Tidy settings statements)
    (off : settings.wrapMultilineImports = false) :
    ∀ statement ∈ statements, NoFeed statement.lines ∧ statement.lines ≠ [] := by
  intro statement member
  have hfree := tidy.free statement member
  have hne := tidy.ne_nil statement member
  rw [written_eq_self (wrap_of_not_wrapping off statement)] at hfree hne
  exact ⟨fun line hline => (hfree line (List.mem_append_right _ hline)).1, hne⟩

theorem rearranged_inPlace (h : region.OfLines header block) (plain : '\r' ∉ region.text)
    (valid : settings.validate = .ok ()) (off : settings.wrapMultilineImports = false)
    (ne : (Block.parse region.block).statements ≠ []) :
    ∃ first rest, Rearranged settings region
      (inPlace settings (Block.parse region.block).statements region) first rest := by
  have htidy := tidy_block h off
  rcases exists_groups_inPlace h htidy valid ne with ⟨groups, hparse, hsame⟩
  obtain ⟨first, rest, hwritten⟩ :=
    List.exists_cons_of_ne_nil (writtenGroups_ne_nil valid ne)
  rcases flatten_clearFirst hwritten with ⟨hcomments, hclear⟩
  have horder := hwritten
  rw [writtenGroups_eq_arranged off] at horder
  have hstatements := congrArg List.flatten hsame
  rw [← List.map_flatten, ← List.map_flatten, hclear, ← hparse] at hstatements
  have htexts := congrArg (List.map Statement.rawText) hstatements
  rw [List.map_map, List.map_map] at htexts
  have harranged : ((arranged settings (Block.parse region.block).statements).flatten.map
      Statement.rawText) = (Block.parse (inPlace settings (Block.parse region.block).statements
        region).block).statements.map Statement.rawText := by
    rw [horder]
    exact htexts.symm
  refine ⟨first, rest, horder, hstatements, ?_, rfl, ?_, ?_⟩
  · rw [inPlace, hcomments, lineBreak_of_plain plain]
    rfl
  · rw [← harranged]
    exact nodup_arranged valid (htidy.free_lines off)
  · intro statement member
    rcases exists_mem_arranged valid member with ⟨kept, hkept, hraw⟩
    have hmem : kept.rawText ∈ (arranged settings
        (Block.parse region.block).statements).flatten.map Statement.rawText :=
      List.mem_map_of_mem hkept
    rw [harranged] at hmem
    rcases List.mem_map.mp hmem with ⟨other, hother, heq⟩
    exact ⟨other, hother, heq.trans hraw⟩

theorem exists_rearranged_of_plain (plain : '\r' ∉ text) (found : Region.find? text = some region)
    (closed : region.Closed) (valid : settings.validate = .ok ())
    (mode : settings.wholeDocument = false) (off : settings.wrapMultilineImports = false) :
    ∃ new first rest, formatted settings [] text = new.text ∧
      Region.find? new.text = some new ∧ '\r' ∉ new.text ∧
      Rearranged settings region new first rest ∧ NoFeed first.comments := by
  rcases Region.exists_ofLines plain found closed with ⟨header, block, h⟩
  have ne : (Block.parse region.block).statements ≠ [] := by
    rw [h.parse_block]
    exact h.statements_ne_nil 0
  have htidy := tidy_block h off
  have hprune := Statement.prune_nil (Block.parse region.block).statements
  rw [← Region.text_of_find? found] at plain
  rcases rearranged_inPlace h plain valid off ne with ⟨first, rest, hrearranged⟩
  refine ⟨_, first, rest, ?_, (ofLines_inPlace h htidy valid ne).find?, plain_inPlace htidy plain,
    hrearranged, ?_⟩
  · rw [formatted_of_find? found, result_inPlace h valid mode hprune.symm ne htidy plain]
  · intro comment hcomment
    have hmem : first ∈ (arranged settings (Block.parse region.block).statements).flatten := by
      rw [hrearranged.order]
      exact List.mem_cons_self
    rcases List.mem_flatten.mp hmem with ⟨group, hgroup, hfirst⟩
    have hstatement := mem_of_mem_arranged hgroup first hfirst
    rw [h.parse_block] at hstatement
    exact (h.free_source 0 first hstatement comment (List.mem_append_left _ hcomment)).1

end Plain

theorem Rearranged.withReturns {old new : Region} {first : Statement} {rest : List Statement}
    (h : Rearranged settings old new first rest) (hold : '\r' ∉ old.text) (hnew : '\r' ∉ new.text)
    (feed : '\n' ∈ old.text) (free : NoFeed first.comments) :
    Rearranged settings old.withReturns new.withReturns first rest := by
  have hcomments : Text.withReturns (first.comments.flatMap (· ++ ['\n'])) =
      first.comments.flatMap (· ++ ['\r', '\n']) := by
    have hfree := free
    generalize first.comments = comments at hfree
    induction comments with
    | nil => rfl
    | cons comment comments ih =>
      rcases noFeed_cons.mp hfree with ⟨hcomment, hrest⟩
      rw [List.flatMap_cons, List.flatMap_cons, withReturns_append, withReturns_append,
        withReturns_of_not_mem hcomment, ih hrest]
      rfl
  rcases h with ⟨horder, hstatements, habove, hbelow, hdistinct, hcomplete⟩
  rw [lineBreak_of_plain hold] at habove
  refine ⟨?_, ?_, ?_, congrArg Text.withReturns hbelow, ?_, ?_⟩
  · rwa [Region.parse_block_withReturns hold]
  · rwa [Region.parse_block_withReturns hnew]
  · rw [Region.text_withReturns, lineBreak_withReturns feed, ← hcomments, Region.withReturns,
      habove, withReturns_append]
    rfl
  · rwa [Region.parse_block_withReturns hnew]
  · rwa [Region.parse_block_withReturns hnew, Region.parse_block_withReturns hold]

/-- In place and without wrapping, the formatted text holds the statements of its block, sorted
inside their categories and each text once. -/
theorem exists_rearranged (uniform : UniformBreaks text) (found : Region.find? text = some region)
    (closed : region.Closed) (valid : settings.validate = .ok ())
    (mode : settings.wholeDocument = false) (off : settings.wrapMultilineImports = false) :
    ∃ new first rest, Region.find? (formatted settings [] text) = some new ∧
      Rearranged settings region new first rest := by
  rcases Region.plain_or_withReturns uniform found closed with
    plain | ⟨plain, region, hplain, feed, rfl, rfl, found, closed⟩
  · obtain ⟨new, first, rest, htext, hnew, -, hrearranged, -⟩ :=
      exists_rearranged_of_plain plain found closed valid mode off
    exact ⟨new, first, rest, htext ▸ hnew, hrearranged⟩
  · obtain ⟨new, first, rest, hformatted, hnew, hfree, hrearranged, hcomments⟩ :=
      exists_rearranged_of_plain hplain found closed valid mode off
    have htext := Region.text_of_find? found
    refine ⟨new.withReturns, first, rest, ?_,
      hrearranged.withReturns (htext ▸ hplain) hfree (htext ▸ feed) hcomments⟩
    rw [formatted_withReturns mode hplain feed, hformatted]
    exact Region.find?_withReturns_of_some hnew

def mixed : Region where
  before := endLines (["#!/usr/bin/env node", "// about z"].map String.toList)
  block := joinWith ['\n'] (["import z from \"./z\";", "/* two", "", "   lines */",
    "import \x7b", "  one, // first", "", "\x7d from \"b\";", "", "import a from \"@scope/a\";",
    "// again", "import z from \"./z\";"].map String.toList)
  after := "\nrun();".toList

theorem exists_rearranged_mixed :
    let settings : Settings := { wrapMultilineImports := false }
    let region := mixed.withReturns
    UniformBreaks region.text ∧ Region.find? region.text = some region ∧ region.Closed ∧
      settings.validate = .ok () ∧ settings.wholeDocument = false ∧
      settings.wrapMultilineImports = false ∧
      ∃ new first rest, Region.find? (formatted settings [] region.text) = some new ∧
        Rearranged settings region new first rest := by
  intro settings region
  have huniform : UniformBreaks region.text :=
    .inr ⟨mixed.text, by decide +kernel, by decide +kernel⟩
  have hfound : Region.find? region.text = some region := by decide +kernel
  have hclosed : region.Closed := by decide +kernel
  have hvalid : settings.validate = .ok () := rfl
  exact ⟨huniform, hfound, hclosed, hvalid, rfl, rfl,
    exists_rearranged huniform hfound hclosed hvalid rfl rfl⟩

end Format
end ImportBlock
