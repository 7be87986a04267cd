import GenreRelations.Proofs.Remarks

/-!
Notes that list names, one a line behind the header. Such a note gives back the names that it lists,
in whatever order and however often they stand there: `names_listing`.
-/

namespace GenreRelations.Note

open Text (MarkedAt)

/-- A name that a line of a note gives as it is. -/
structure IsListable (n : Text) : Prop extends IsTidy n where
  feedFree : '\n' ∉ n
  named : n.lower ≠ "alternative names:".toList
  long : ¬ "short for".toList <+: n.lower
  unmarked : ∀ i, ¬ MarkedAt remarks n i

/-- The header and the names, a line feed between neighbours. -/
def listing (ns : List Text) : Text := ['\n'].intercalate ("Alternative names:".toList :: ns)

/-! ### Lines -/

/-- A line feed at the end begins no further line. -/
theorem entries_concat_feed (note : Text) : entries (note ++ ['\n']) = entries note := by
  have nothing : entries [] = [] := rfl
  rw [entries_append, nothing, List.append_nil]

theorem entries_listing {ns : List Text}
    (lines : ∀ n ∈ ns, n ≠ [] ∧ n.trim = n ∧ '\n' ∉ n) :
    entries (listing ns) = "Alternative names:".toList :: ns := by
  have header : "Alternative names:".toList ≠ [] ∧
      Text.trim "Alternative names:".toList = "Alternative names:".toList ∧
      '\n' ∉ "Alternative names:".toList := by decide
  have each : ∀ l : Text, l ∈ "Alternative names:".toList :: ns → l ≠ [] ∧ l.trim = l ∧ '\n' ∉ l :=
    List.forall_mem_cons.mpr ⟨header, lines⟩
  rw [entries_eq, listing,
    List.splitOn_intercalate '\n' (fun l member => (each l member).2.2) (List.cons_ne_nil _ _),
    List.map_congr_left (g := id) fun l member => (each l member).2.1, List.map_id,
    List.filter_eq_self.mpr fun l member => by simpa using (each l member).1]

/-! ### Names -/

theorem names_of_header {note : Text} {ls : List Text}
    (lines : entries note = "Alternative names:".toList :: ls) :
    names note = .ok (Text.sorted (ls.filterMap lineName?)) :=
  names_of_opens lines (.inr (by decide))

theorem IsListable.lineName? {n : Text} (listable : IsListable n) :
    Note.lineName? n = some n := by
  rw [lineName?_of_long listable.named listable.long, unmarked_iff.mp listable.unmarked]

/-- Names that are listed in a note, in any order, are what the note gives, whether the last line is
closed or not. -/
theorem names_listing {ns : List Text} (listable : ∀ n ∈ ns, IsListable n) :
    ∀ closing ∈ [[], ['\n']], ∃ ms, names (listing ns ++ closing) = .ok ms ∧
      ms.Pairwise (· < ·) ∧ ∀ n, n ∈ ms ↔ n ∈ ns := by
  intro closing member
  have listed : entries (listing ns) = "Alternative names:".toList :: ns :=
    entries_listing fun n isIn => ⟨(listable n isIn).nonempty, (listable n isIn).trimmed,
      (listable n isIn).feedFree⟩
  have lines : entries (listing ns ++ closing) = "Alternative names:".toList :: ns := by
    rcases List.mem_cons.mp member with rfl | closed
    · rwa [List.append_nil]
    · rw [List.mem_singleton.mp closed, entries_concat_feed, listed]
  have given : ns.filterMap lineName? = ns := by
    rw [List.filterMap_congr (g := some) fun n isIn => (listable n isIn).lineName?,
      List.filterMap_some]
  refine ⟨Text.sorted ns, ?_, Text.pairwise_sorted ns, fun n => Text.mem_sorted⟩
  rw [names_of_header lines, given]

theorem names_listing_return :
    (∀ n ∈ ["Trap (EDM)".toList, "Bass\r(plural) short for".toList], IsListable n) ∧
    ∃ ms, names "Alternative names:\nTrap (EDM)\nBass\r(plural) short for\n".toList = .ok ms ∧
      ms.Pairwise (· < ·) ∧
      ∀ n, n ∈ ms ↔ n ∈ ["Trap (EDM)".toList, "Bass\r(plural) short for".toList] := by
  have first : IsListable "Trap (EDM)".toList :=
    { nonempty := by decide
      trimmed := by decide
      feedFree := by decide
      named := by decide
      long := by decide
      unmarked := unmarked_iff.mpr (by decide) }
  have second : IsListable "Bass\r(plural) short for".toList :=
    { nonempty := by decide
      trimmed := by decide
      feedFree := by decide
      named := by decide
      long := by decide
      unmarked := unmarked_iff.mpr (by decide) }
  have listable : ∀ n ∈ ["Trap (EDM)".toList, "Bass\r(plural) short for".toList], IsListable n :=
    List.forall_mem_cons.mpr ⟨first, List.forall_mem_singleton.mpr second⟩
  exact ⟨listable, names_listing listable ['\n'] (by simp)⟩

end GenreRelations.Note
