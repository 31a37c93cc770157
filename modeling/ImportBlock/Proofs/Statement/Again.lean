import Mathlib.Data.List.Infix
import ImportBlock.Proofs.Statement.Literals

/-! Texts whose spelling is spelt as itself. -/

namespace ImportBlock.Statement

open Text Line

/-- Between two commas outside literals something stands that is neither blank nor a comma. -/
def CommasApart (text : Text) : Prop :=
  ∀ upper between lower, text = upper ++ ',' :: (between ++ ',' :: lower) → Outside upper →
    Outside (upper ++ ',' :: between) → ∃ c ∈ between, isWhite c = false ∧ c ≠ ','

theorem commasApart_iff {text : Text} : CommasApart text ↔
    ∀ upper ∈ text.inits, ∀ front ∈ text.inits,
      (upper ++ [','] <+: front ∧ front ++ [','] <+: text) ∧ Outside upper ∧ Outside front →
        (front.drop (upper.length + 1)).any (fun c => !isWhite c && c != ',') = true := by
  constructor
  · rintro h upper - front - ⟨⟨⟨between, rfl⟩, ⟨lower, rfl⟩⟩, outside, inside⟩
    simpa using h upper between lower (by simp) outside (by simpa using inside)
  · rintro h upper between lower rfl outside inside
    have hupper : upper ∈ (upper ++ ',' :: (between ++ ',' :: lower)).inits := by simp
    have hfront : upper ++ ',' :: between ∈ (upper ++ ',' :: (between ++ ',' :: lower)).inits := by
      simp
    simpa using h upper hupper _ hfront
      ⟨⟨⟨between, by simp⟩, ⟨lower, by simp⟩⟩, outside, inside⟩

instance : DecidablePred CommasApart := fun _ => decidable_of_iff _ commasApart_iff.symm

namespace Draft

variable {written : Text} {draft : Draft}

def again (written : Text) : Draft := ofText written.reverse

theorem again_cons (c : Char) (written : Text) :
    again (c :: written) = (again written).write c := by
  rw [again, List.reverse_cons, ofText_concat, again]

/-- A text outside literals that is written again as it is, with no space at its end. -/
structure Kept (written : Text) : Prop where
  same : again written = ⟨written, none⟩
  last : written.head? ≠ some ' '

/-- A draft is written again as it is, and so is what stays of it before a comma or a brace. -/
structure Stable (draft : Draft) : Prop where
  same : again draft.written = draft
  kept : draft.quote = none → Kept (dropSpaces draft.written)
  comma : draft.quote = none → ∀ rest, dropSpaces draft.written = ',' :: rest →
    Kept rest ∧ rest.head? ≠ some ','

theorem dropSpaces_of_head? (last : written.head? ≠ some ' ') : dropSpaces written = written := by
  cases written with
  | nil => rfl
  | cons c rest => exact dropSpaces_cons (fun h => last (by rw [h]; rfl)) rest

theorem dropComma_of_head? (last : written.head? ≠ some ',') : dropComma written = written := by
  unfold dropComma
  split
  · exact absurd rfl last
  · rfl

/-- Behind a character that is neither a space nor a comma only the whole draft counts. -/
theorem stable_cons {c : Char} {quote : Option Char}
    (same : again (c :: written) = ⟨c :: written, quote⟩)
    (plain : quote = none → c ≠ ' ' ∧ c ≠ ',') : Stable ⟨c :: written, quote⟩ where
  same := same
  kept := by
    rintro rfl
    obtain ⟨hspace, -⟩ := plain rfl
    rw [dropSpaces_cons hspace]
    exact ⟨same, fun h => hspace (Option.some.inj h)⟩
  comma := by
    rintro rfl rest hrest
    obtain ⟨hspace, hcomma⟩ := plain rfl
    rw [dropSpaces_cons hspace] at hrest
    exact absurd (List.cons.inj hrest).1 hcomma

theorem Stable.dropComma (stable : Stable ⟨written, none⟩) :
    Kept (dropComma (dropSpaces written)) ∧
      (Draft.dropComma (dropSpaces written)).head? ≠ some ',' := by
  unfold Draft.dropComma
  split
  · next rest hrest => exact stable.comma rfl rest hrest
  · next hnone =>
    refine ⟨stable.kept rfl, fun hhead => ?_⟩
    obtain ⟨rest, hrest⟩ := List.head?_eq_some_iff.mp hhead
    exact hnone rest hrest

theorem Stable.write_white (stable : Stable ⟨written, none⟩) :
    Stable (write ⟨written, none⟩ ' ') := by
  by_cases hhead : written.head?.all (· == ' ') = true
  · have hsame : write ⟨written, none⟩ ' ' = ⟨written, none⟩ := by simp [write, isWhite, hhead]
    rwa [hsame]
  · have hspace : write ⟨written, none⟩ ' ' = ⟨' ' :: written, none⟩ := by
      simp [write, isWhite, hhead]
    rw [hspace]
    exact ⟨by rw [again_cons, stable.same, hspace], stable.kept, stable.comma⟩

theorem Stable.write_comma (stable : Stable ⟨written, none⟩)
    (last : (dropSpaces written).head? ≠ some ',') : Stable (write ⟨written, none⟩ ',') := by
  have hkept := stable.kept rfl
  have hwrite : ∀ inner, write ⟨inner, none⟩ ',' = ⟨',' :: dropSpaces inner, none⟩ := by
    intro inner
    simp [write, isWhite]
  have hsame : again (',' :: dropSpaces written) = ⟨',' :: dropSpaces written, none⟩ := by
    rw [again_cons, hkept.same, hwrite, dropSpaces_of_head? hkept.last]
  rw [hwrite]
  refine ⟨hsame, fun _ => ?_, fun _ rest hrest => ?_⟩
  · rw [dropSpaces_cons (by decide)]
    exact ⟨hsame, by simp⟩
  · rw [dropSpaces_cons (by decide)] at hrest
    obtain rfl := (List.cons.inj hrest).2
    exact ⟨hkept, last⟩

theorem Stable.write_brace (stable : Stable ⟨written, none⟩) :
    Stable (write ⟨written, none⟩ '}') := by
  obtain ⟨hkept, hcomma⟩ := stable.dropComma
  have hwrite : ∀ inner, write ⟨inner, none⟩ '}' =
      ⟨'}' :: ' ' :: Draft.dropComma (dropSpaces inner), none⟩ := by
    intro inner
    simp [write, isWhite]
  rw [hwrite]
  generalize Draft.dropComma (dropSpaces written) = inner at hkept hcomma
  refine stable_cons ?_ fun _ => by decide
  rw [again_cons, again_cons, hkept.same]
  have hspaces : write ⟨inner, none⟩ ' ' = ⟨' ' :: inner, none⟩ ∨
      inner = [] ∧ write ⟨inner, none⟩ ' ' = ⟨inner, none⟩ := by
    cases inner with
    | nil => exact .inr ⟨rfl, rfl⟩
    | cons c rest =>
      have hspace : c ≠ ' ' := fun h => hkept.last (by rw [h]; rfl)
      exact .inl (by simp [write, isWhite, hspace])
  rcases hspaces with hspace | ⟨rfl, hspace⟩
  · have hdrop : dropSpaces (' ' :: inner) = dropSpaces inner := rfl
    rw [hspace, hwrite, hdrop, dropSpaces_of_head? hkept.last, dropComma_of_head? hcomma]
  · rw [hspace]
    rfl

theorem Stable.write_other (stable : Stable ⟨written, none⟩) {c : Char}
    (white : isWhite c = false) (comma : c ≠ ',') (brace : c ≠ '}') :
    Stable (write ⟨written, none⟩ c) := by
  have hspace : c ≠ ' ' := by
    rintro rfl
    contradiction
  have hwrite : ∀ inner, write ⟨inner, none⟩ c = ⟨c :: separate inner, quoteAfter none c⟩ := by
    intro inner
    simp [write, white, comma, brace]
  rw [hwrite]
  refine stable_cons ?_ fun _ => ⟨hspace, comma⟩
  have hsame := stable.same
  dsimp only at hsame
  cases written with
  | nil =>
    have hnil : separate [] = [] := rfl
    rw [hnil, again_cons, hsame, hwrite, hnil]
  | cons d rest =>
    rw [separate_cons]
    split
    · next hmark =>
      have hne : d ≠ ' ' := by
        rcases hmark with rfl | rfl | rfl <;> decide
      have hspaced : write ⟨d :: rest, none⟩ ' ' = ⟨' ' :: d :: rest, none⟩ := by
        simp [write, isWhite, hne]
      rw [again_cons, again_cons, hsame, hspaced, hwrite]
      rfl
    · next hmark => rw [again_cons, hsame, hwrite, separate_cons, if_neg hmark]

theorem Stable.write (stable : Stable draft) {c : Char}
    (quotes : ∀ quote, draft.quote = some quote → isQuote quote = true)
    (apart : draft.quote = none → c = ',' → (dropSpaces draft.written).head? ≠ some ',') :
    Stable (draft.write c) := by
  obtain ⟨written, quote⟩ := draft
  cases quote with
  | some quote =>
    have hsame : again (c :: written) = ⟨c :: written, quoteAfter (some quote) c⟩ := by
      rw [again_cons, stable.same]
      rfl
    refine stable_cons hsame fun hclosed => ?_
    have hquote : c = quote := by
      by_contra hne
      simp [quoteAfter, hne] at hclosed
    have hplain := quotes quote rfl
    rw [← hquote] at hplain
    constructor <;> (rintro rfl; contradiction)
  | none =>
    by_cases hwhite : isWhite c = true
    · rw [Draft.write_white hwhite]
      exact stable.write_white
    · by_cases hcomma : c = ','
      · subst hcomma
        exact stable.write_comma (apart rfl rfl)
      · by_cases hbrace : c = '}'
        · subst hbrace
          exact stable.write_brace
        · exact stable.write_other (by simpa using hwhite) hcomma hbrace

theorem isQuote_of_ofText {text : Text} {quote : Char} (inside : (ofText text).quote = some quote) :
    isQuote quote = true := by
  rw [← Literals.map_opened_ofText] at inside
  obtain ⟨literal, -, rfl⟩ := Option.map_eq_some_iff.mp inside
  exact literal.1.2

theorem again_dropSpaces {quote : Char} (inside : again written = ⟨written, some quote⟩) :
    again (dropSpaces written) = ⟨dropSpaces written, some quote⟩ := by
  induction written with
  | nil => exact inside
  | cons c rest ih =>
    by_cases hspace : c = ' '
    · subst hspace
      have hdrop : dropSpaces (' ' :: rest) = dropSpaces rest := rfl
      have hopen := congrArg Draft.quote inside
      rw [again_cons, quote_write] at hopen
      rw [hdrop]
      apply ih
      rw [again_cons] at inside
      generalize again rest = draft at inside hopen
      obtain ⟨inner, quote'⟩ := draft
      cases quote' with
      | none => contradiction
      | some quote' =>
        have hinner : inner = rest := (List.cons.inj (congrArg Draft.written inside)).2
        rw [hinner]
        simp only [quoteAfter] at hopen
        split at hopen
        · contradiction
        · rw [hopen]
    · rwa [dropSpaces_cons hspace]

end Draft

theorem CommasApart.of_append {upper lower : Text} (apart : CommasApart (upper ++ lower)) :
    CommasApart upper := by
  intro above between below hsplit
  exact apart above between (below ++ lower) (by rw [hsplit]; simp)

theorem CommasApart.last {text : Text} (apart : CommasApart (text ++ [',']))
    (outside : Outside text) : (trimEnd text).getLast? ≠ some ',' := by
  intro hlast
  obtain ⟨init, hinit⟩ := List.getLast?_eq_some_iff.mp hlast
  obtain ⟨run, hrun, hwhite⟩ := exists_append_dropEndWhile isWhite text
  have htext : text = init ++ ',' :: run := by
    calc
      text = trimEnd text ++ run := hrun
      _ = init ++ ',' :: run := by rw [hinit, List.append_assoc, List.singleton_append]
  have houtside : Outside init := by
    rw [htext] at outside
    exact outside_of_plain (List.forall_mem_cons.mpr
      ⟨by decide, fun c hc => isQuote_of_white (hwhite c hc)⟩) outside
  have hsplit : text ++ [','] = init ++ ',' :: (run ++ ',' :: []) := by rw [htext]; simp
  obtain ⟨c, hc, hstays, -⟩ := apart init run [] hsplit houtside (htext ▸ outside)
  rw [hwhite c hc] at hstays
  contradiction

theorem stable_ofText {text : Text} (apart : CommasApart text) : (Draft.ofText text).Stable := by
  induction text using List.reverseRecOn with
  | nil =>
    have hkept : Draft.Kept [] := ⟨rfl, by simp⟩
    exact ⟨rfl, fun _ => hkept, by rintro - rest hrest; contradiction⟩
  | append_singleton text c ih =>
    rw [Draft.ofText_concat]
    refine (ih apart.of_append).write (fun _ => Draft.isQuote_of_ofText) fun outside hcomma => ?_
    subst hcomma
    rw [Draft.head?_dropSpaces outside]
    exact apart.last outside

theorem normalize_normalize {text : Text} (apart : CommasApart text) :
    normalize (normalize text) = normalize text := by
  have hstable := stable_ofText apart
  have hsame : ∃ quote, Draft.again (Draft.dropSpaces (Draft.ofText text).written) =
      ⟨Draft.dropSpaces (Draft.ofText text).written, quote⟩ := by
    generalize Draft.ofText text = draft at hstable
    obtain ⟨written, quote⟩ := draft
    cases quote with
    | none => exact ⟨none, (hstable.kept rfl).same⟩
    | some quote => exact ⟨some quote, Draft.again_dropSpaces hstable.same⟩
  obtain ⟨quote, hquote⟩ := hsame
  have hspelling : normalize text = (Draft.dropSpaces (Draft.ofText text).written).reverse := rfl
  have hspaces : ∀ written, Draft.dropSpaces (Draft.dropSpaces written) =
      Draft.dropSpaces written := fun written => List.dropWhile_idempotent _ written
  rw [hspelling, normalize, ← Draft.ofText, ← Draft.again, hquote, Draft.finish, hspaces]

end ImportBlock.Statement
