import ImportBlock.Line.Literal

namespace ImportBlock.Line

open Text

abbrev Quote : Type := { c : Char // isQuote c = true }

/-- What the next character of a line stands in. Behind a `slash` a comment may begin, behind a
`star` a block comment may end, and behind an escape no literal does. -/
inductive Zone where
  | code
  | slash
  | literal (quote : Quote)
  | escaped (quote : Quote)
  | remark
  | aside
  | star
  deriving DecidableEq, Repr

namespace Zone

def isCode : Zone → Bool
  | code | slash => true
  | literal _ | escaped _ | remark | aside | star => false

def isLiteral : Zone → Bool
  | literal _ | escaped _ => true
  | code | slash | remark | aside | star => false

def ofCode (c : Char) : Zone :=
  if c = '/' then slash else if quote : isQuote c = true then literal ⟨c, quote⟩ else code

section

variable (escapes : Char → Bool)

def step : Zone → Char → Zone
  | code, c => ofCode c
  | slash, c => if c = '/' then remark else if c = '*' then aside else ofCode c
  | literal quote, c =>
    if escapes c then escaped quote else if c = quote then code else literal quote
  | escaped quote, _ => literal quote
  | remark, _ => remark
  | aside, c => if c = '*' then star else aside
  | star, c => if c = '/' then code else if c = '*' then star else aside

def run (zone : Zone) (text : Text) : Zone := text.foldl (step escapes) zone

/-- The characters that stand in a zone of some kind. -/
def charsIn (kind : Zone → Bool) : Zone → Text → Text
  | _, [] => []
  | zone, c :: rest =>
    let below := charsIn kind (zone.step escapes c) rest
    if kind zone then c :: below else below

end

variable {escapes : Char → Bool} {zone : Zone}

theorem run_append (upper lower : Text) :
    zone.run escapes (upper ++ lower) = (zone.run escapes upper).run escapes lower :=
  List.foldl_append

theorem mem_charsIn {kind : Zone → Bool} {text : Text} {c : Char} :
    c ∈ charsIn escapes kind zone text ↔
      ∃ upper lower, text = upper ++ c :: lower ∧ kind (zone.run escapes upper) = true := by
  induction text generalizing zone with
  | nil => simp [charsIn]
  | cons d rest ih =>
    have hbelow : c ∈ charsIn escapes kind (zone.step escapes d) rest ↔
        ∃ upper lower, d :: rest = (d :: upper) ++ c :: lower ∧
          kind (zone.run escapes (d :: upper)) = true := by
      rw [ih]
      simp [run]
    constructor
    · intro member
      rw [charsIn] at member
      split at member
      · next hkind =>
        rcases List.mem_cons.mp member with rfl | hmem
        · exact ⟨[], rest, rfl, hkind⟩
        · obtain ⟨upper, lower, hcut⟩ := hbelow.mp hmem
          exact ⟨d :: upper, lower, hcut⟩
      · obtain ⟨upper, lower, hcut⟩ := hbelow.mp member
        exact ⟨d :: upper, lower, hcut⟩
    · rintro ⟨upper, lower, hcut, hkind⟩
      rw [charsIn]
      cases upper with
      | nil =>
        obtain rfl : d = c := (List.cons.inj hcut).1
        have hhere : kind zone = true := hkind
        rw [if_pos hhere]
        exact List.mem_cons_self
      | cons e upper =>
        obtain rfl : d = e := (List.cons.inj hcut).1
        have hmem := hbelow.mpr ⟨upper, lower, hcut, hkind⟩
        split
        · exact List.mem_cons_of_mem _ hmem
        · exact hmem

theorem isLiteral_step {c : Char} (plain : isQuote c = false) :
    (zone.step escapes c).isLiteral = zone.isLiteral := by
  have hcode : (ofCode c).isLiteral = false := by
    rw [ofCode]
    split
    · rfl
    · simp [plain, isLiteral]
  cases zone with
  | code => exact hcode
  | slash =>
    rw [step]
    split
    · rfl
    · split
      · rfl
      · exact hcode
  | literal quote =>
    have hne : c ≠ quote := fun h => by
      have hquote := quote.2
      rw [← h, plain] at hquote
      contradiction
    rw [step, if_neg hne]
    split <;> rfl
  | escaped quote | remark => rfl
  | aside | star =>
    rw [step]
    repeat' split
    all_goals rfl

theorem isLiteral_run {text : Text} (plain : ∀ c ∈ text, isQuote c = false) :
    (zone.run escapes text).isLiteral = zone.isLiteral := by
  induction text generalizing zone with
  | nil => rfl
  | cons c rest ih =>
    rw [List.forall_mem_cons] at plain
    exact (ih plain.2).trans (isLiteral_step plain.1)

end Zone
end ImportBlock.Line
