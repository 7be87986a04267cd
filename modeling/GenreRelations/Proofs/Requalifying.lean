import GenreRelations.Proofs.Cataloging
import GenreRelations.Proofs.Qualifying
import Mathlib.Logic.Function.Iterate

/-!
Qualified expressions that are qualified again. The parenthesis behind `Trap` shows the next time
that it is told apart already. Nothing shows this behind `?`, which gets the genre each time anew,
so qualifying twice is qualifying once just for the expressions that do not start with it:
`qualify_qualify_iff`.
-/

namespace GenreRelations

namespace Qualification

/-- What the genre adds behind an unknown subgenre. -/
def remark (genre : Text) : Text := " (".toList ++ genre ++ [')']

theorem byGenre_unknown {genre : Text} (known : genre ≠ ['?']) (rest : Text) :
    byGenre genre ('?' :: rest) = '?' :: (remark genre ++ rest) := by
  simp [byGenre, known, remark]

theorem iterate_byGenre_unknown {genre : Text} (known : genre ≠ ['?']) (rest : Text) (n : Nat) :
    (byGenre genre)^[n] ('?' :: rest) =
      '?' :: ((List.replicate n (remark genre)).flatten ++ rest) := by
  induction n generalizing rest with
  | zero => rfl
  | succ n ih =>
    rw [Function.iterate_succ_apply, byGenre_unknown known, ih, List.replicate_succ',
      List.flatten_concat, List.append_assoc]

theorem byGenre_byGenre_of_unambiguous {genre s : Text} (unambiguous : Unambiguous genre s) :
    byGenre genre (byGenre genre s) = byGenre genre s :=
  congrArg (byGenre genre) (byGenre_eq_self_iff.mpr unambiguous)

theorem byGenre_byGenre_iff {genre s : Text} :
    byGenre genre (byGenre genre s) = byGenre genre s ↔ (['?'] <+: s → genre = ['?']) := by
  rcases byGenre_cases genre s with
    ⟨unambiguous, -⟩ | ⟨ambiguous, h, g, rest, head, rfl, -, longer⟩
  · exact iff_of_true (byGenre_byGenre_of_unambiguous unambiguous) unambiguous.1
  rcases List.mem_cons.mp head with rfl | head
  · have unknown : ['?'] <+: ['?'] ++ rest := List.prefix_append _ _
    have known : genre ≠ ['?'] := fun same => ambiguous (unambiguous_unknown_iff.mpr same)
    -- the result starts with the same character, so it is ambiguous as before
    refine iff_of_false ?_ fun settled => known (settled unknown)
    rw [longer, byGenre_eq_self_iff]
    exact fun unambiguous => known (unambiguous_unknown_iff.mp unambiguous)
  · obtain rfl := List.mem_singleton.mp head
    have other : ¬ ['?'] <+: "Trap".toList ++ rest := by
      rintro ⟨t, same⟩
      simp at same
    refine iff_of_true ?_ fun unknown => absurd unknown other
    rw [longer, byGenre_eq_self_iff, List.append_assoc, unambiguous_trap_iff]
    exact .inl ⟨g ++ ')' :: rest, by simp⟩

end Qualification

open Qualification (fullGenre remark)

theorem qualify_known (g s : Text) : qualify (some g) s = Qualification.byGenre (fullGenre g) s :=
  rfl

theorem qualified_qualified {r : Record}
    (settled : ∀ g, r.genre = some g → ['?'] <+: r.subgenre → g = ['?']) :
    r.qualified.qualified = r.qualified := by
  obtain ⟨line, genre, subgenre⟩ := r
  cases genre with
  | none => rfl
  | some g =>
    have again : Qualification.byGenre (fullGenre g) (qualify (some g) subgenre) =
        qualify (some g) subgenre :=
      Qualification.byGenre_byGenre_iff.mpr fun unknown =>
        Qualification.fullGenre_eq_unknown_iff.mpr (settled g rfl unknown)
    exact congrArg (Record.mk line (some g)) again

/-- Qualifying twice is qualifying once exactly for the expressions that do not start with `?`,
unless the genre is unknown. Each time again, a known genre is added behind the `?`. Records with
expressions that are settled after the first time are cataloged alike from what their entries and
failures show. -/
theorem qualify_qualify_iff (genre : Option Text) (s : Text) :
    (qualify genre (qualify genre s) = qualify genre s ↔
      ∀ g, genre = some g → ['?'] <+: s → g = ['?']) ∧
    (∀ g rest n, genre = some g → g ≠ ['?'] → s = '?' :: rest →
      (qualify genre)^[n] s =
        '?' :: ((List.replicate n (remark (fullGenre g))).flatten ++ rest)) ∧
    ∀ (rs : List Record) (failFast : Bool),
      (∀ r ∈ rs, ∀ g, r.genre = some g → ['?'] <+: r.subgenre → g = ['?']) →
        Catalog.report ⟨true, failFast⟩ (rs.map Record.qualified) =
          Catalog.report ⟨true, failFast⟩ rs := by
  refine ⟨?_, ?_, ?_⟩
  · cases genre with
    | none => simp [qualify]
    | some g =>
      rw [qualify_known, qualify_known, Qualification.byGenre_byGenre_iff,
        Qualification.fullGenre_eq_unknown_iff]
      simp
  · rintro g rest n rfl known rfl
    exact Qualification.iterate_byGenre_unknown
      (mt Qualification.fullGenre_eq_unknown_iff.mp known) rest n
  · intro rs failFast settled
    have same : Catalog.outcomes true (rs.map Record.qualified) = Catalog.outcomes true rs := by
      rw [Catalog.outcomes, Catalog.outcomes, List.map_map]
      refine List.map_congr_left fun r member => ?_
      exact congrArg Catalog.Outcome.ofRecord (qualified_qualified (settled r member))
    rw [Catalog.report, Catalog.report, same]

theorem qualify_qualify_iff_trap :
    qualify (some "Hip Hop".toList) (qualify (some "Hip Hop".toList) "Trap | ?".toList) =
      "Trap (Hip Hop) | ?".toList ∧
    (qualify (some "Trap".toList))^[2] "?".toList = "? (Trap (EDM)) (Trap (EDM))".toList ∧
    Catalog.report ⟨true, true⟩ [⟨3, some "Hip Hop".toList, "Trap (Hip Hop) | ?".toList⟩] =
      Catalog.report ⟨true, true⟩ [⟨3, some "Hip Hop".toList, "Trap | ?".toList⟩] := by
  have settled : ∀ g : Text, some "Hip Hop".toList = some g → ['?'] <+: "Trap | ?".toList →
      g = ['?'] := by
    intro g _ unknown
    exact absurd (List.isPrefixOf_iff_prefix.mpr unknown) (by decide)
  have once : qualify (some "Hip Hop".toList) "Trap | ?".toList = "Trap (Hip Hop) | ?".toList := by
    decide
  obtain ⟨twice, -, cataloged⟩ := qualify_qualify_iff (some "Hip Hop".toList) "Trap | ?".toList
  obtain ⟨-, grows, -⟩ := qualify_qualify_iff (some "Trap".toList) "?".toList
  refine ⟨(twice.mpr settled).trans once, ?_, ?_⟩
  · exact (grows "Trap".toList [] 2 rfl (by decide) rfl).trans (by decide)
  · refine cataloged [⟨3, some "Hip Hop".toList, "Trap | ?".toList⟩] true fun r member => ?_
    obtain rfl := List.mem_singleton.mp member
    exact settled

/-- A name that shows its genre already gets it a second time. -/
theorem not_qualify_qualify :
    qualify (some "House".toList) "?".toList = "? (House)".toList ∧
    qualify (some "House".toList) "? (House)".toList = "? (House) (House)".toList ∧
    ¬ ∀ (genre : Option Text) (s : Text), qualify genre (qualify genre s) = qualify genre s := by
  have once : qualify (some "House".toList) "?".toList = "? (House)".toList := by decide
  have twice : qualify (some "House".toList) "? (House)".toList = "? (House) (House)".toList := by
    decide
  refine ⟨once, twice, fun law => ?_⟩
  have same := law (some "House".toList) "?".toList
  rw [once, twice] at same
  revert same
  decide

end GenreRelations
