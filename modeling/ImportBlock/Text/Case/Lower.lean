import ImportBlock.Text.Basic
import ImportBlock.Text.Case.Table

namespace ImportBlock.Text

def lowerChar (c : Char) : Char :=
  if c.toNat < 0x80 then c.toLower
  else
    match lowerRuns.find? (·.covers c.toNat) with
    | some run => Char.ofNat (c.toNat + run.shift).toNat
    | none => c

def isIgnorable (c : Char) : Bool := inRanges ignorableRanges c

def meetsLetter (text : Text) : Bool :=
  (text.find? (!isIgnorable ·)).any (inRanges casedRanges)

def capitalSigma : Char := '\u03A3'

def lowerSigma (before after : Text) : Char :=
  if meetsLetter before && !meetsLetter after then '\u03C2' else '\u03C3'

/-- The lower case of the second text, which follows the first one read backwards. A capital I with
dot becomes two characters, and a sigma at the end of a word has its own form. -/
def lowerFrom : Text → Text → Text
  | _, [] => []
  | before, c :: rest =>
    let lowered :=
      if c = capitalSigma then [lowerSigma before rest]
      else if c = '\u0130' then ['i', '\u0307']
      else [lowerChar c]
    lowered ++ lowerFrom (c :: before) rest

def toLower (text : Text) : Text := lowerFrom [] text

end ImportBlock.Text
