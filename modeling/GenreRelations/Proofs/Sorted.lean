import GenreRelations.Relation
import GenreRelations.Text.Order
import Mathlib.Data.List.Sort

/-!
Sets as increasing lists. Texts are listed in the order of their code points and relations in the
order of their ranks, each of them once.
-/

namespace GenreRelations

namespace Text

theorem lt_of_not_lt {s t : Text} (notBelow : ¬ s < t) (different : s ≠ t) : t < s := by
  apply Decidable.byContradiction
  intro notAbove
  exact different (List.le_antisymm (List.not_lt.mp notAbove) (List.not_lt.mp notBelow))

theorem mem_insertSorted {s t : Text} {ts : List Text} :
    t ∈ insertSorted s ts ↔ t = s ∨ t ∈ ts := by
  fun_induction insertSorted s ts with
  | case1 => simp
  | case2 u us below => simp
  | case3 us => simp
  | case4 u us notBelow different ih => rw [List.mem_cons, ih, List.mem_cons, or_left_comm]

theorem pairwise_insertSorted {s : Text} {ts : List Text} (increasing : ts.Pairwise (· < ·)) :
    (insertSorted s ts).Pairwise (· < ·) := by
  fun_induction insertSorted s ts with
  | case1 => exact List.pairwise_singleton _ _
  | case2 u us below =>
    refine List.pairwise_cons.mpr ⟨fun t member => ?_, increasing⟩
    rcases List.mem_cons.mp member with rfl | member
    · exact below
    · exact List.lt_trans below (List.rel_of_pairwise_cons increasing member)
  | case3 us => exact increasing
  | case4 u us notBelow different ih =>
    obtain ⟨first, rest⟩ := List.pairwise_cons.mp increasing
    refine List.pairwise_cons.mpr ⟨fun t member => ?_, ih rest⟩
    rcases mem_insertSorted.mp member with rfl | member
    · exact lt_of_not_lt notBelow different
    · exact first t member

theorem mem_sorted {ts : List Text} {t : Text} : t ∈ sorted ts ↔ t ∈ ts := by
  induction ts with
  | nil => rfl
  | cons s ts ih => rw [sorted, List.foldr_cons, ← sorted, mem_insertSorted, ih, List.mem_cons]

theorem pairwise_sorted (ts : List Text) : (sorted ts).Pairwise (· < ·) := by
  induction ts with
  | nil => exact .nil
  | cons s ts ih =>
    rw [sorted, List.foldr_cons, ← sorted]
    exact pairwise_insertSorted ih

/-- Lists with the same members are listed as one set. -/
theorem sorted_congr {ts us : List Text} (same : ∀ t, t ∈ ts ↔ t ∈ us) : sorted ts = sorted us :=
  (pairwise_sorted ts).eq_of_mem_iff (pairwise_sorted us) fun t => by
    rw [mem_sorted, mem_sorted, same]

end Text

namespace Relation

/-- The place of a relation in the order in which sets of relations are listed. -/
def rank : Relation → Nat
  | blend => 0
  | derive => 1
  | fuse => 2

theorem pairwise_distinct (rs : List Relation) :
    (distinct rs).Pairwise fun r q => r.rank < q.rank := by
  apply List.Pairwise.filter
  decide

end Relation

end GenreRelations
