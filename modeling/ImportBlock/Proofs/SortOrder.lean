import Mathlib.Data.List.Sort
import Mathlib.Data.Char
import ImportBlock.SortOrder

namespace ImportBlock

namespace Text

theorem le_total (left right : Text) : le left right = true ∨ le right left = true := by
  induction left generalizing right with
  | nil => exact .inl rfl
  | cons c left ih =>
    cases right with
    | nil => exact .inr rfl
    | cons d right =>
      by_cases heq : c = d
      · subst heq
        simpa only [le, if_pos] using ih right
      · rw [le, if_neg heq, le, if_neg (Ne.symm heq), decide_eq_true_eq, decide_eq_true_eq]
        exact lt_or_gt_of_ne heq

theorem le_trans {first second third : Text} (h₁ : le first second = true)
    (h₂ : le second third = true) : le first third = true := by
  induction first generalizing second third with
  | nil => rfl
  | cons c first ih =>
    cases second with
    | nil => simp [le] at h₁
    | cons d second =>
      cases third with
      | nil => simp [le] at h₂
      | cons e third =>
        rw [le] at h₁ h₂ ⊢
        by_cases hcd : c = d
        · subst hcd
          rw [if_pos rfl] at h₁
          by_cases hce : c = e
          · rw [if_pos hce] at h₂ ⊢
            exact ih h₁ h₂
          · rwa [if_neg hce] at h₂ ⊢
        · rw [if_neg hcd, decide_eq_true_eq] at h₁
          by_cases hde : d = e
          · subst hde
            rwa [if_neg hcd, decide_eq_true_eq]
          · rw [if_neg hde, decide_eq_true_eq] at h₂
            have hlt := lt_trans h₁ h₂
            rwa [if_neg (ne_of_lt hlt), decide_eq_true_eq]

theorem le_antisymm {left right : Text} (h₁ : le left right = true) (h₂ : le right left = true) :
    left = right := by
  induction left generalizing right with
  | nil =>
    cases right with
    | nil => rfl
    | cons d right => simp [le] at h₂
  | cons c left ih =>
    cases right with
    | nil => simp [le] at h₁
    | cons d right =>
      by_cases heq : c = d
      · subst heq
        rw [le, if_pos rfl] at h₁ h₂
        rw [ih h₁ h₂]
      · rw [le, if_neg heq, decide_eq_true_eq] at h₁
        rw [le, if_neg (Ne.symm heq), decide_eq_true_eq] at h₂
        exact absurd (lt_trans h₁ h₂) (lt_irrefl c)

end Text

namespace SortOrder

open Text

theorem alphabeticalLe_total (left right : Text) :
    alphabeticalLe left right = true ∨ alphabeticalLe right left = true := by
  by_cases heq : toLower left = toLower right
  · simpa only [alphabeticalLe, if_pos heq, if_pos heq.symm] using Text.le_total left right
  · simpa only [alphabeticalLe, if_neg heq, if_neg (Ne.symm heq)] using Text.le_total _ _

theorem alphabeticalLe_trans {first second third : Text} (h₁ : alphabeticalLe first second = true)
    (h₂ : alphabeticalLe second third = true) : alphabeticalLe first third = true := by
  rw [alphabeticalLe] at h₁ h₂ ⊢
  by_cases heq₁ : toLower first = toLower second
  · rw [if_pos heq₁] at h₁
    by_cases heq₂ : toLower second = toLower third
    · rw [if_pos heq₂] at h₂
      rw [if_pos (heq₁.trans heq₂)]
      exact Text.le_trans h₁ h₂
    · rw [if_neg heq₂] at h₂
      rwa [heq₁, if_neg heq₂]
  · rw [if_neg heq₁] at h₁
    by_cases heq₂ : toLower second = toLower third
    · rwa [← heq₂, if_neg heq₁]
    · rw [if_neg heq₂] at h₂
      have hle := Text.le_trans h₁ h₂
      rw [if_neg]
      · exact hle
      · intro heq
        rw [heq] at h₁
        exact heq₂ (Text.le_antisymm h₂ h₁)

theorem le_total (order : SortOrder) (left right : Statement) :
    (order.le left right || order.le right left) = true := by
  rw [Bool.or_eq_true]
  cases order with
  | alphabetical => exact alphabeticalLe_total _ _
  | lengthAscending =>
    simp only [le, decide_eq_true_eq]
    omega
  | lengthDescending =>
    simp only [le, decide_eq_true_eq]
    omega

theorem le_trans (order : SortOrder) (first second third : Statement)
    (h₁ : order.le first second = true) (h₂ : order.le second third = true) :
    order.le first third = true := by
  cases order with
  | alphabetical => exact alphabeticalLe_trans h₁ h₂
  | lengthAscending =>
    simp only [le, decide_eq_true_eq] at *
    omega
  | lengthDescending =>
    simp only [le, decide_eq_true_eq] at *
    omega

theorem pairwise_sort (order : SortOrder) (statements : List Statement) :
    (order.sort statements).Pairwise (order.le · · = true) :=
  List.pairwise_mergeSort order.le_trans order.le_total statements

theorem sort_of_pairwise {order : SortOrder} {statements : List Statement}
    (sorted : statements.Pairwise (order.le · · = true)) : order.sort statements = statements :=
  List.mergeSort_of_pairwise sorted

theorem sort_cons (order : SortOrder) (statement : Statement) (rest : List Statement) :
    order.sort (statement :: rest) =
      (order.sort rest).orderedInsert (order.le · · = true) statement := by
  obtain ⟨upper, lower, hsort, hrest, hupper⟩ :=
    List.mergeSort_cons order.le_trans order.le_total statement rest
  have hsorted := order.pairwise_sort (statement :: rest)
  rw [sort, hsort] at hsorted ⊢
  rw [sort, hrest]
  clear hsort hrest
  induction upper with
  | nil =>
    cases lower with
    | nil => rfl
    | cons next lower =>
      have hle : order.le statement next = true :=
        List.rel_of_pairwise_cons hsorted List.mem_cons_self
      exact (if_pos hle).symm
  | cons first upper ih =>
    have hfirst := hupper first List.mem_cons_self
    have hmore := ih (fun other member => hupper other (List.mem_cons_of_mem first member))
      (List.Pairwise.of_cons hsorted)
    rw [List.cons_append, List.cons_append, List.orderedInsert, if_neg (by simpa using hfirst),
      hmore]

theorem sort_eq_insertionSort (order : SortOrder) (statements : List Statement) :
    order.sort statements = statements.insertionSort (order.le · · = true) := by
  induction statements with
  | nil => exact List.mergeSort_nil
  | cons statement rest ih =>
    rw [sort_cons, ih]
    rfl

theorem mem_sort {order : SortOrder} {statements : List Statement} {statement : Statement} :
    statement ∈ order.sort statements ↔ statement ∈ statements :=
  List.mem_mergeSort

theorem le_of_normal (order : SortOrder) {left right left' right' : Statement}
    (hleft : left.normal = left'.normal) (hright : right.normal = right'.normal) :
    order.le left right = order.le left' right' := by
  cases order <;> simp only [le, hleft, hright]

end SortOrder
end ImportBlock
