import Mathlib.Data.List.DropRight
import ImportBlock.Text.Lines

namespace ImportBlock.Text

section DropEnd

variable {α : Type} {p : α → Bool} {xs ys : List α}

theorem dropEndWhile_eq_rdropWhile : dropEndWhile p xs = xs.rdropWhile p := rfl

theorem dropEndWhile_append_of_all (dropped : ∀ y ∈ ys, p y = true) :
    dropEndWhile p (xs ++ ys) = dropEndWhile p xs := by
  simp only [dropEndWhile, List.reverse_append]
  rw [List.dropWhile_append_of_pos]
  intro y member
  exact dropped y (List.mem_reverse.mp member)

theorem dropEndWhile_append_of_any (kept : ∃ y ∈ ys, p y = false) :
    dropEndWhile p (xs ++ ys) = xs ++ dropEndWhile p ys := by
  rcases kept with ⟨y, member, stays⟩
  have hdrop : ys.reverse.dropWhile p ≠ [] := by
    intro hnil
    have hall := List.dropWhile_eq_nil_iff.mp hnil y (List.mem_reverse.mpr member)
    simp [stays] at hall
  simp only [dropEndWhile, List.reverse_append, List.dropWhile_append]
  simp [hdrop]

theorem exists_append_dropEndWhile (p : α → Bool) (xs : List α) :
    ∃ run, xs = dropEndWhile p xs ++ run ∧ ∀ x ∈ run, p x = true :=
  ⟨xs.rtakeWhile p, (List.rdropWhile_append_rtakeWhile (p := p) (l := xs)).symm,
    fun _ member => List.mem_rtakeWhile_imp member⟩

theorem not_last_dropEndWhile {front : List α} {x : α} (h : dropEndWhile p xs = front ++ [x]) :
    p x = false := by
  have hne : xs.rdropWhile p ≠ [] := by
    rw [← dropEndWhile_eq_rdropWhile, h]
    simp
  have hlast := List.rdropWhile_last_not p xs hne
  simp only [← dropEndWhile_eq_rdropWhile, h, List.getLast_append_singleton] at hlast
  simpa using hlast

theorem getLast?_dropEndWhile (p : α → Bool) (xs : List α) :
    (dropEndWhile p xs).getLast?.any p = false := by
  rcases List.eq_nil_or_concat' (dropEndWhile p xs) with hnil | ⟨front, x, hlast⟩
  · rw [hnil]
    rfl
  · rw [hlast, List.getLast?_concat, Option.any_some]
    exact not_last_dropEndWhile hlast

theorem dropEndWhile_map {β : Type} (f : β → α) (zs : List β) :
    dropEndWhile p (zs.map f) = (dropEndWhile (fun z => p (f z)) zs).map f := by
  simp only [dropEndWhile, ← List.map_reverse, List.dropWhile_map, Function.comp_def]

end DropEnd

theorem forall_of_all {p : Char → Prop} [DecidablePred p] {text : Text}
    (h : text.all (fun c => decide (p c)) = true) : ∀ c ∈ text, p c := by
  simpa using h

theorem isWhite_of_isBreak {c : Char} (h : isBreak c = true) : isWhite c = true := by
  simp only [isBreak, Bool.or_eq_true, beq_iff_eq] at h
  rcases h with rfl | rfl <;> decide

theorem break_feed : ∀ c ∈ ['\n'], isBreak c = true := List.forall_mem_singleton.mpr rfl

theorem break_return : ∀ c ∈ ['\r', '\n'], isBreak c = true :=
  List.forall_mem_cons.mpr ⟨rfl, break_feed⟩

theorem white_space : ∀ c ∈ [' '], isWhite c = true := List.forall_mem_singleton.mpr rfl

theorem not_white_of_trimStart {text rest : Text} {c : Char} (h : trimStart text = c :: rest) :
    isWhite c = false := by
  have hhead := List.head?_dropWhile_not isWhite text
  rw [trimStart] at h
  simpa [h] using hhead

theorem trim_eq_nil_iff {text : Text} : trim text = [] ↔ ∀ c ∈ text, isWhite c = true := by
  constructor
  · intro h
    have hall := List.rdropWhile_eq_nil_iff.mp h
    cases hstart : trimStart text with
    | nil => exact List.dropWhile_eq_nil_iff.mp hstart
    | cons c rest =>
      have hc := hall c (by simp [hstart])
      rw [not_white_of_trimStart hstart] at hc
      contradiction
  · intro h
    have hnil : trimStart text = [] := List.dropWhile_eq_nil_iff.mpr h
    rw [trim, hnil]
    rfl

theorem isBlank_iff_trim {text : Text} : isBlank text = true ↔ trim text = [] := by
  rw [trim_eq_nil_iff, isBlank, List.all_eq_true]

theorem isBlank_eq_false_of_mem {text : Text} {c : Char} (member : c ∈ text)
    (stays : isWhite c = false) : isBlank text = false := by
  rw [isBlank, List.all_eq_false]
  exact ⟨c, member, by simp [stays]⟩

theorem trim_append_white {text white : Text} (h : ∀ c ∈ white, isWhite c = true) :
    trim (text ++ white) = trim text := by
  by_cases hblank : ∀ c ∈ text, isWhite c = true
  · have hall : ∀ c ∈ text ++ white, isWhite c = true := by
      intro c member
      rcases List.mem_append.mp member with hc | hc
      · exact hblank c hc
      · exact h c hc
    rw [trim_eq_nil_iff.mpr hall, trim_eq_nil_iff.mpr hblank]
  · have hne : text.dropWhile isWhite ≠ [] := by
      intro hnil
      exact hblank (List.dropWhile_eq_nil_iff.mp hnil)
    have hstart : trimStart (text ++ white) = trimStart text ++ white := by
      simp [trimStart, List.dropWhile_append, hne]
    rw [trim, hstart, trimEnd, dropEndWhile_append_of_all h]
    rfl

theorem trim_append_breaks {breaks : Text} (h : ∀ c ∈ breaks, isBreak c = true) (text : Text) :
    trim (text ++ breaks) = trim text :=
  trim_append_white fun c member => isWhite_of_isBreak (h c member)

theorem trim_white_append {white : Text} (h : ∀ c ∈ white, isWhite c = true) (text : Text) :
    trim (white ++ text) = trim text := by
  have hstart : trimStart (white ++ text) = trimStart text := List.dropWhile_append_of_pos h
  rw [trim, hstart, trim]

theorem trim_dropEndWhile {p : Char → Bool} (white : ∀ c, p c = true → isWhite c = true)
    (text : Text) : trim (dropEndWhile p text) = trim text := by
  rcases exists_append_dropEndWhile p text with ⟨run, split, hrun⟩
  calc
    trim (dropEndWhile p text) = trim (dropEndWhile p text ++ run) :=
      (trim_append_white fun c member => white c (hrun c member)).symm
    _ = trim text := by rw [← split]

theorem content_append_breaks {breaks : Text} (h : ∀ c ∈ breaks, isBreak c = true) (text : Text) :
    content (text ++ breaks) = content text :=
  dropEndWhile_append_of_all h

theorem trim_content (piece : Text) : trim (content piece) = trim piece :=
  trim_dropEndWhile (fun _ => isWhite_of_isBreak) piece

theorem trimEnd_trimEnd (text : Text) : trimEnd (trimEnd text) = trimEnd text :=
  List.rdropWhile_idempotent isWhite text

theorem trimEnd_cons {c : Char} (rest : Text) (stays : isWhite c = false) :
    trimEnd (c :: rest) = c :: trimEnd rest := by
  have hsingle : dropEndWhile isWhite [c] = [c] := by simp [dropEndWhile, stays]
  by_cases hrest : ∃ d ∈ rest, isWhite d = false
  · show dropEndWhile isWhite ([c] ++ rest) = [c] ++ dropEndWhile isWhite rest
    exact dropEndWhile_append_of_any hrest
  · have hall : ∀ d ∈ rest, isWhite d = true := by
      intro d member
      by_contra hd
      exact hrest ⟨d, member, by simpa using hd⟩
    have hnil : trimEnd rest = [] := List.rdropWhile_eq_nil_iff.mpr hall
    rw [hnil]
    show dropEndWhile isWhite ([c] ++ rest) = [c]
    rw [dropEndWhile_append_of_all hall, hsingle]

theorem trimEnd_append {upper lower : Text} (stays : ∃ c ∈ lower, isWhite c = false) :
    trimEnd (upper ++ lower) = upper ++ trimEnd lower :=
  dropEndWhile_append_of_any stays

theorem trimStart_append {c : Char} (upper lower : Text) (stays : isWhite c = false) :
    trimStart (upper ++ c :: lower) = trimStart upper ++ c :: lower := by
  simp only [trimStart, List.dropWhile_append, List.dropWhile_cons, stays]
  split
  · next hnil => rw [List.isEmpty_iff.mp hnil]; rfl
  · rfl

theorem trimStart_trim (text : Text) : trimStart (trim text) = trim text := by
  cases hstart : trimStart text with
  | nil =>
    have hnil : trim text = [] := by
      rw [trim, hstart]
      rfl
    rw [hnil]
    rfl
  | cons c rest =>
    have hc := not_white_of_trimStart hstart
    rw [trim, hstart, trimEnd_cons rest hc, trimStart, List.dropWhile_cons_of_neg (by simp [hc])]

/-- The text is what trimming leaves, between two runs of white space. -/
theorem exists_eq_trim (text : Text) : ∃ above below, text = above ++ trim text ++ below ∧
    (∀ c ∈ above, isWhite c = true) ∧ ∀ c ∈ below, isWhite c = true := by
  rcases exists_append_dropEndWhile isWhite (trimStart text) with ⟨below, hbelow, hwhite⟩
  refine ⟨text.takeWhile isWhite, below, ?_, fun c member => List.mem_takeWhile_imp member, hwhite⟩
  calc
    text = text.takeWhile isWhite ++ trimStart text := List.takeWhile_append_dropWhile.symm
    _ = text.takeWhile isWhite ++ (trim text ++ below) := by rw [hbelow]; rfl
    _ = _ := (List.append_assoc _ _ _).symm

theorem mem_of_mem_trim {text : Text} {c : Char} (h : c ∈ trim text) : c ∈ text := by
  rcases exists_eq_trim text with ⟨above, below, heq, -⟩
  rw [heq]
  exact List.mem_append_left _ (List.mem_append_right _ h)

theorem length_trim_le (text : Text) : (trim text).length ≤ text.length := by
  rcases exists_eq_trim text with ⟨above, below, heq, -⟩
  have hlength := congrArg List.length heq
  rw [List.length_append, List.length_append] at hlength
  omega

theorem trim_ends {text : Text} (ne : trim text ≠ []) :
    (∃ c rest, trim text = c :: rest ∧ isWhite c = false) ∧
      ∃ init c, trim text = init ++ [c] ∧ isWhite c = false := by
  constructor
  · rcases List.exists_cons_of_ne_nil ne with ⟨c, rest, h⟩
    refine ⟨c, rest, h, ?_⟩
    have hstart : trimStart (trim text) = c :: rest := by rw [trimStart_trim, h]
    exact not_white_of_trimStart hstart
  · rcases (List.eq_nil_or_concat' (trim text)).resolve_left ne with ⟨init, c, h⟩
    exact ⟨init, c, h, not_last_dropEndWhile h⟩

/-- The text begins and ends with no white space. -/
def Solid (text : Text) : Prop :=
  (∃ c rest, text = c :: rest ∧ isWhite c = false) ∧
    ∃ init c, text = init ++ [c] ∧ isWhite c = false

theorem Solid.ne_nil {text : Text} (h : Solid text) : text ≠ [] := by
  obtain ⟨⟨c, rest, rfl, -⟩, -⟩ := h
  exact List.cons_ne_nil c rest

theorem Solid.trimEnd_append {lower : Text} (h : Solid lower) (upper : Text) :
    trimEnd (upper ++ lower) = upper ++ lower := by
  obtain ⟨-, init, d, rfl, hd⟩ := h
  have hend : trimEnd [d] = [d] := trimEnd_cons [] hd
  rw [← List.append_assoc, Text.trimEnd_append ⟨d, List.mem_singleton_self d, hd⟩, hend]

theorem trim_of_last {text : Text} (stop : ∃ init c, text = init ++ [c] ∧ isWhite c = false) :
    trim text = trimStart text ∧ trim text ≠ [] := by
  obtain ⟨init, c, rfl, hc⟩ := stop
  have hsolid : Solid [c] := ⟨⟨c, [], rfl, hc⟩, [], c, rfl, hc⟩
  have hstart : trimStart (init ++ [c]) = trimStart init ++ [c] := trimStart_append init [] hc
  have htrim : trim (init ++ [c]) = trimStart init ++ [c] := by
    rw [trim, hstart, hsolid.trimEnd_append]
  exact ⟨htrim.trans hstart.symm, by simp [htrim]⟩

theorem Solid.trim_append {lower : Text} (h : Solid lower) (upper : Text) :
    trim (upper ++ lower) = trimStart upper ++ lower := by
  obtain ⟨c, rest, hlower, hc⟩ := h.1
  have hstart : trimStart (upper ++ lower) = trimStart upper ++ lower := by
    rw [hlower, trimStart_append _ _ hc]
  rw [trim, hstart, h.trimEnd_append]

theorem Solid.trim_eq {text : Text} (h : Solid text) : trim text = text := h.trim_append []

theorem Solid.append {upper lower : Text} (hupper : Solid upper) (middle : Text)
    (hlower : Solid lower) : Solid (upper ++ middle ++ lower) := by
  obtain ⟨⟨c, rest, rfl, hc⟩, -⟩ := hupper
  obtain ⟨-, init, d, rfl, hd⟩ := hlower
  exact ⟨⟨c, rest ++ middle ++ (init ++ [d]), by simp, hc⟩,
    c :: rest ++ middle ++ init, d, by simp, hd⟩

theorem trim_trim (text : Text) : trim (trim text) = trim text := by
  rw [trim, trimStart_trim, trim, trimEnd_trimEnd]

theorem trim_append_of_trim {text : Text} (trimmed : trim text = text) (ne : text ≠ []) {c : Char}
    (stays : isWhite c = false) : trim (text ++ [c]) = text ++ [c] := by
  rcases trim_ends (trimmed.symm ▸ ne : trim text ≠ []) with ⟨⟨d, rest, htext, hd⟩, -⟩
  rw [trimmed] at htext
  have hstart : trimStart (text ++ [c]) = text ++ [c] := by
    rw [htext]
    exact List.dropWhile_cons_of_neg (by simp [hd])
  calc
    trim (text ++ [c]) = trimEnd (text ++ [c]) := by rw [trim, hstart]
    _ = text ++ trimEnd [c] := trimEnd_append ⟨c, by simp, stays⟩
    _ = text ++ [c] := by
      rw [trimEnd_cons [] stays]
      rfl

end ImportBlock.Text
