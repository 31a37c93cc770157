import ImportBlock.Proofs.Format.Returns
import ImportBlock.Proofs.Format.Tail

/-! Whatever is formatted, and in either mode, the kind of line breaks makes no difference. -/

namespace ImportBlock.Format

open Text

variable {settings : Settings} {unused : List Text} {text : Text} {region : Region}

theorem takeWhile_line {l : Text} (free : '\n' ∉ l) (rest : Text) :
    (l ++ '\n' :: rest).takeWhile (· != '\n') = l := by
  have hline : ∀ c ∈ l, (c != '\n') = true := by
    intro c hc
    rw [bne_iff_ne]
    rintro rfl
    exact free hc
  rw [List.takeWhile_append_of_pos hline]
  simp

theorem content_takeWhile_withReturns (text : Text) :
    content ((withReturns text).takeWhile (· != '\n')) =
      withReturns (content (text.takeWhile (· != '\n'))) := by
  by_cases feed : '\n' ∈ text
  · obtain ⟨l, rest, rfl, hl⟩ := List.eq_append_cons_of_mem feed
    have hreturns : withReturns (l ++ '\n' :: rest) =
        (l ++ ['\r']) ++ '\n' :: withReturns rest := by
      rw [withReturns_append, withReturns_of_not_mem hl, withReturns_feed]
      simp
    rw [hreturns, takeWhile_line hl, takeWhile_line (by simp [hl]),
      withReturns_of_not_mem (not_mem_content hl)]
    exact content_append_breaks (by simp [isBreak]) l
  · rw [withReturns_of_not_mem feed, withReturns_of_not_mem]
    intro member
    exact feed ((List.takeWhile_prefix _).subset ((isPrefix_dropEndWhile _ _).subset member))

theorem dropBlankTail_withReturns (text : Text) :
    dropBlankTail (withReturns text) = withReturns (dropBlankTail text) := by
  obtain ⟨run, hsplit, -⟩ := exists_append_dropEndWhile isWhite text
  have hdrop : text.drop (trimEnd text).length = run :=
    (congrArg (List.drop (trimEnd text).length) hsplit).trans List.drop_left
  have hreturns : (withReturns text).drop (withReturns (trimEnd text)).length =
      withReturns run := by
    have hwhole : withReturns text = withReturns (trimEnd text) ++ withReturns run :=
      (congrArg withReturns hsplit).trans (withReturns_append _ _)
    rw [hwhole, List.drop_left]
  have hempty : (withReturns (trimEnd text)).isEmpty = (trimEnd text).isEmpty := by
    rw [Bool.eq_iff_iff, List.isEmpty_iff, List.isEmpty_iff, withReturns_eq_nil_iff]
  rw [dropBlankTail, dropBlankTail, trimEnd_withReturns, hdrop, hreturns,
    content_takeWhile_withReturns, hempty]
  split
  · rfl
  · rw [withReturns_append]

section WholeDocument

variable (mode : settings.wholeDocument = true)

include mode

theorem block_withReturns_wholeDocument (plain : '\r' ∉ region.text) :
    Format.block settings region.withReturns = Format.block settings region := by
  have hcut := append_splitTrailingComments region.after
  have hplain : '\r' ∉ region.before ++ region.block ++ (splitTrailingComments region.after).1 := by
    rw [Region.text, ← hcut, ← List.append_assoc] at plain
    exact fun member => plain (List.mem_append_left _ member)
  have hlines := lines_withReturns hplain
  rw [withReturns_append, withReturns_append] at hlines
  rw [Format.block, Format.block, extent_of_wholeDocument mode, extent_of_wholeDocument mode,
    Region.withReturns, splitTrailingComments_withReturns, Block.parse, hlines, Block.parse]

theorem replacement_withReturns_wholeDocument (plain : '\r' ∉ region.text)
    (feed : '\n' ∈ region.text) : replacement settings unused region.withReturns =
      (replacement settings unused region).withReturns := by
  have hrendered :=
    rendered_withReturns unused plain feed (block_withReturns_wholeDocument mode plain)
  have hbreak : lineBreak region.withReturns.text = withReturns (lineBreak region.text) := by
    rw [Region.text_withReturns, lineBreak_withReturns feed, lineBreak_of_plain plain]
    rfl
  rw [replacement_of_wholeDocument mode, replacement_of_wholeDocument mode, hrendered, hbreak,
    Region.text_withReturns, Region.withReturns, splitTrailingComments_withReturns,
    dropBlankTail_withReturns, dropWhile_withReturns]
  simp only [withReturns_eq_nil_iff, Replacement.withReturns, withReturns_append,
    apply_ite withReturns]
  rfl

end WholeDocument

/-- Texts that differ in their line breaks only are formatted alike. -/
theorem commutes_withReturns (plain : '\r' ∉ text) (feed : '\n' ∈ text) :
    ((Region.find? (withReturns text)).isSome ↔ (Region.find? text).isSome) ∧
      (Settled settings unused (withReturns text) ↔ Settled settings unused text) ∧
      formatted settings unused (withReturns text) =
        withReturns (formatted settings unused text) := by
  have hsame : ∀ region, Region.find? text = some region →
      replacement settings unused region.withReturns =
        (replacement settings unused region).withReturns := by
    intro region found
    have htext := Region.text_of_find? found
    cases mode : settings.wholeDocument
    · exact replacement_withReturns mode (htext ▸ plain) (htext ▸ feed)
    · exact replacement_withReturns_wholeDocument mode (htext ▸ plain) (htext ▸ feed)
  refine ⟨?_, settled_of_replacement_withReturns hsame,
    formatted_of_replacement_withReturns hsame⟩
  rw [Region.find?_withReturns, Option.isSome_map]

def spacious : Text :=
  joinWith ['\n'] (["#!/usr/bin/env node", "/* a", "", "b */", "import z from \"./z\";",
    "import \x7b", "  one,", "", "\x7d from \"b\" ", "// below", "", "run();  ", " ", "", ""].map
      String.toList)

theorem commutes_withReturns_spacious :
    let settings : Settings := { wholeDocument := true }
    '\r' ∉ spacious ∧ '\n' ∈ spacious ∧
      ((Region.find? (withReturns spacious)).isSome ↔ (Region.find? spacious).isSome) ∧
      (Settled settings [] (withReturns spacious) ↔ Settled settings [] spacious) ∧
      formatted settings [] (withReturns spacious) =
        withReturns (formatted settings [] spacious) := by
  intro settings
  have hplain : '\r' ∉ spacious := by decide +kernel
  have hfeed : '\n' ∈ spacious := by decide +kernel
  exact ⟨hplain, hfeed, commutes_withReturns hplain hfeed⟩

end ImportBlock.Format
