import ImportBlock.Proofs.Format.Returns
import ImportBlock.Proofs.Format.Wrapping

/-! Formatting a formatted text changes nothing. -/

namespace ImportBlock.Format

open Text

variable {settings : Settings} {unused : List Text} {text : Text} {region : Region}

/-- In place, one pass puts the block in an order that the next pass finds and leaves alone. -/
theorem settled_formatted_inPlace (uniform : UniformBreaks text)
    (found : Region.find? text = some region) (closed : region.Closed)
    (valid : settings.validate = .ok ()) (mode : settings.wholeDocument = false)
    (kept : Statement.prune unused (Format.block settings region).statements ≠ [])
    (wrappable : Wrappable settings
      (Statement.prune unused (Format.block settings region).statements)) :
    Settled settings unused (formatted settings unused text) := by
  rw [block_of_inPlace mode] at kept wrappable
  rcases Region.plain_or_withReturns uniform found closed with
    plain | ⟨plain, region, hplain, feed, rfl, rfl, found, closed⟩
  · exact (settled_formatted_of_plain plain found closed valid mode kept wrappable).1
  · have htext := Region.text_of_find? found
    rw [Region.parse_block_withReturns (htext ▸ hplain)] at kept wrappable
    obtain ⟨hsettled, hfree⟩ :=
      settled_formatted_of_plain hplain found closed valid mode kept wrappable
    rw [formatted_withReturns mode hplain feed]
    exact settled_withReturns mode hfree hsettled

def crowded : Region where
  before := endLines (["#!/usr/bin/env node", "\"use strict\";", ""].map String.toList)
  block := joinWith ['\n'] (["import z from \"./z\";", "// about alpha",
    "import \x7b beta, alpha, \x7d from \"alpha\";", "/* two", "", "   lines */",
    "import a from \"@scope/a\";", "import z from \"./z\";", "import gone from \"gone\";", "",
    "import \x7b", "  one,", "  two", "\x7d from \"b\""].map String.toList)
  after := "\nconst x = 1;\n".toList

theorem settled_formatted_crowded :
    let settings : Settings := { maxLineLength := 20 }
    let unused := ["gone".toList]
    let region := crowded.withReturns
    let kept := Statement.prune unused (Format.block settings region).statements
    UniformBreaks region.text ∧ Region.find? region.text = some region ∧ region.Closed ∧
      settings.validate = .ok () ∧ settings.wholeDocument = false ∧ kept ≠ [] ∧
      Wrappable settings kept ∧
      (∃ statement ∈ kept, (Layout.wrap settings statement).isSome = true) ∧
      Settled settings unused (formatted settings unused region.text) := by
  intro settings unused region kept
  have huniform : UniformBreaks region.text :=
    .inr ⟨crowded.text, by decide +kernel, by decide +kernel⟩
  have hfound : Region.find? region.text = some region := by decide +kernel
  have hclosed : region.Closed := by decide +kernel
  have hvalid : settings.validate = .ok () := rfl
  have hkept : kept ≠ [] := by decide +kernel
  have hwrappable : Wrappable settings kept := .inr (by decide +kernel)
  exact ⟨huniform, hfound, hclosed, hvalid, rfl, hkept, hwrappable, by decide +kernel,
    settled_formatted_inPlace huniform hfound hclosed hvalid rfl hkept hwrappable⟩

end ImportBlock.Format
