import Mathlib.Data.List.Lex
import Mathlib.Data.Prod.Lex
import Mathlib.Order.OrderDual
import ImportBlock.Proofs.SortOrder

/-! Sorting puts statements in the order of their keys and leaves those of one key in theirs. -/

namespace ImportBlock

namespace Text

theorem le_iff {left right : Text} : le left right = true ↔ left ≤ right := by
  rw [← not_lt]
  induction left generalizing right with
  | nil => simp [le]
  | cons c left ih =>
    cases right with
    | nil => simp [le]
    | cons d right =>
      rw [le, List.cons_lt_cons_iff]
      by_cases heq : c = d
      · subst heq
        rw [if_pos rfl, ih]
        simp
      · rw [if_neg heq, decide_eq_true_eq]
        constructor
        · intro hlt hless
          rcases hless with hlower | ⟨hsame, -⟩
          · exact lt_asymm hlt hlower
          · exact heq hsame.symm
        · intro hnot
          apply lt_of_le_of_ne
          · exact not_lt.mp fun hlower => hnot (.inl hlower)
          · exact heq

end Text

namespace SortOrder

open Text

/-- What statements are ordered by. A descending order is the dual of an ascending one. -/
def Key : SortOrder → Type
  | .alphabetical => Text ×ₗ Text
  | .lengthAscending => ℕ
  | .lengthDescending => ℕᵒᵈ

instance instLinearOrderKey : (order : SortOrder) → LinearOrder order.Key
  | .alphabetical => inferInstanceAs (LinearOrder (Text ×ₗ Text))
  | .lengthAscending => inferInstanceAs (LinearOrder ℕ)
  | .lengthDescending => inferInstanceAs (LinearOrder ℕᵒᵈ)

/-- The normal form in lower case and then as it is, or its number of characters. -/
def key : (order : SortOrder) → Statement → order.Key
  | .alphabetical, statement => toLex (toLower statement.normal, statement.normal)
  | .lengthAscending, statement => statement.normal.length
  | .lengthDescending, statement => OrderDual.toDual statement.normal.length

theorem alphabeticalLe_iff {left right : Text} : alphabeticalLe left right = true ↔
    toLex (toLower left, left) ≤ toLex (toLower right, right) := by
  rw [Prod.Lex.toLex_le_toLex, alphabeticalLe]
  by_cases heq : toLower left = toLower right
  · rw [if_pos heq, le_iff]
    simp [heq]
  · rw [if_neg heq, le_iff, le_iff_lt_or_eq]
    simp [heq]

/-- Comparing statements is comparing their keys. -/
theorem le_iff_key_le (order : SortOrder) (left right : Statement) :
    order.le left right = true ↔ order.key left ≤ order.key right := by
  cases order with
  | alphabetical => exact alphabeticalLe_iff
  | lengthAscending => exact decide_eq_true_iff
  | lengthDescending => exact decide_eq_true_iff

theorem pairwise_iff_key {order : SortOrder} {statements : List Statement} :
    statements.Pairwise (order.le · · = true) ↔
      statements.Pairwise fun upper lower => order.key upper ≤ order.key lower := by
  simp only [le_iff_key_le]

variable (order : SortOrder) (statements : List Statement)

theorem filter_key_sort (key : order.Key) :
    (order.sort statements).filter (order.key · = key) =
      statements.filter (order.key · = key) := by
  set alike := statements.filter (order.key · = key) with halike
  have hkey : ∀ statement ∈ alike, order.key statement = key := by
    intro statement member
    exact of_decide_eq_true (List.mem_filter.mp member).2
  have hsorted : alike.Pairwise (order.le · · = true) := by
    refine pairwise_iff_key.mpr (List.pairwise_of_forall_mem_list ?_)
    intro upper hupper lower hlower
    rw [hkey upper hupper, hkey lower hlower]
  have hsublist : alike.Sublist (order.sort statements) :=
    List.sublist_mergeSort order.le_trans order.le_total hsorted List.filter_sublist
  have hself : alike.filter (order.key · = key) = alike := by
    rw [halike, List.filter_filter]
    simp only [Bool.and_self]
  have hwithin : alike.Sublist ((order.sort statements).filter (order.key · = key)) := by
    rw [← hself]
    exact hsublist.filter _
  have hperm := (List.mergeSort_perm statements order.le).filter (order.key · = key)
  exact (hwithin.eq_of_length hperm.length_eq.symm).symm

theorem sort_eq_self_iff : order.sort statements = statements ↔
    statements.Pairwise fun upper lower => order.key upper ≤ order.key lower := by
  rw [← pairwise_iff_key]
  constructor
  · intro same
    rw [← same]
    exact order.pairwise_sort statements
  · exact sort_of_pairwise

/-- Sorting is a stable sort by the key, and leaves alone what is sorted and nothing else. -/
theorem sort_stable :
    (order.sort statements).Perm statements ∧
    (order.sort statements).Pairwise (fun upper lower => order.key upper ≤ order.key lower) ∧
    (∀ key, (order.sort statements).filter (order.key · = key) =
      statements.filter (order.key · = key)) ∧
    (order.sort statements = statements ↔
      statements.Pairwise fun upper lower => order.key upper ≤ order.key lower) ∧
    order.sort (order.sort statements) = order.sort statements := by
  have hsorted := pairwise_iff_key.mp (order.pairwise_sort statements)
  exact ⟨List.mergeSort_perm statements order.le, hsorted, filter_key_sort order statements,
    sort_eq_self_iff order statements, (sort_eq_self_iff order _).mpr hsorted⟩

end SortOrder
end ImportBlock
