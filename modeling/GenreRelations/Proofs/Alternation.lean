import GenreRelations.Expression.Parse
import GenreRelations.Proofs.Tokens

/-!
Segments in which names and symbols take turns. Lists of such segments with a symbol between
neighbours alternate again, and every alternation parts at each of its symbols. The check of the
positions accepts exactly the alternations among the segments of a text.
-/

namespace GenreRelations

namespace Segment

/-- Names and symbols take turns, a name first and last. -/
inductive Alternating : List Segment → Prop
  | name {n : Text} (name : n.IsName) : Alternating [.name n]
  | cons {n : Text} {s : Symbol} {ss : List Segment} (name : n.IsName) (rest : Alternating ss) :
      Alternating (.name n :: .symbol s :: ss)

/-- The lists one after the other, with the symbol between neighbours. -/
def joined (s : Symbol) (sss : List (List Segment)) : List Segment := [symbol s].intercalate sss

theorem joined_singleton (s : Symbol) (ss : List Segment) : joined s [ss] = ss := by
  simp [joined, List.intercalate]

theorem joined_cons_cons (s : Symbol) (ss ts : List Segment) (rest : List (List Segment)) :
    joined s (ss :: ts :: rest) = ss ++ symbol s :: joined s (ts :: rest) := by
  simp [joined, List.intercalate]

namespace Alternating

theorem ne_nil {ss : List Segment} (alternating : Alternating ss) : ss ≠ [] := by
  cases alternating <;> simp

theorem proper {ss : List Segment} (alternating : Alternating ss) : Proper ss := by
  induction alternating with
  | name name => exact ⟨name, by simp, trivial⟩
  | cons name _ ih => exact ⟨name, by simp, ih⟩

theorem head {n : Text} {ss : List Segment} (alternating : Alternating (.name n :: ss)) :
    n.IsName := by
  cases alternating with
  | name name => exact name
  | cons name => exact name

theorem not_symbol {s : Symbol} {ss : List Segment} : ¬ Alternating (.symbol s :: ss) := by
  intro alternating
  cases alternating

/-- Another name may stand in the first place. -/
theorem with_head {m n : Text} {ss : List Segment} (alternating : Alternating (.name m :: ss))
    (name : n.IsName) : Alternating (.name n :: ss) := by
  cases alternating with
  | name => exact .name name
  | cons _ rest => exact .cons name rest

end Alternating

theorem alternating_append_symbol {xs ys : List Segment} {s : Symbol} :
    Alternating (xs ++ .symbol s :: ys) ↔ Alternating xs ∧ Alternating ys := by
  constructor
  · intro alternating
    generalize whole : xs ++ .symbol s :: ys = zs at alternating
    induction alternating generalizing xs with
    | name => cases xs <;> simp at whole
    | @cons n t ss name rest ih =>
      cases xs with
      | nil => simp at whole
      | cons x xs =>
        cases xs with
        | nil =>
          simp only [List.cons_append, List.nil_append, List.cons.injEq] at whole
          obtain ⟨rfl, -, rfl⟩ := whole
          exact ⟨.name name, rest⟩
        | cons y xs =>
          simp only [List.cons_append, List.cons.injEq] at whole
          obtain ⟨rfl, rfl, whole⟩ := whole
          obtain ⟨front, back⟩ := ih whole
          exact ⟨.cons name front, back⟩
  · rintro ⟨front, back⟩
    induction front with
    | name name => exact .cons name back
    | cons name _ ih => exact .cons name ih

theorem alternating_joined {s : Symbol} {sss : List (List Segment)} :
    Alternating (joined s sss) ↔ sss ≠ [] ∧ ∀ ss ∈ sss, Alternating ss := by
  induction sss with
  | nil =>
    refine ⟨fun alternating => ?_, fun h => absurd rfl h.1⟩
    exact absurd rfl alternating.ne_nil
  | cons ss sss ih =>
    cases sss with
    | nil => simp [joined_singleton]
    | cons ts rest =>
      rw [joined_cons_cons, alternating_append_symbol, ih]
      simp

/-- Before the last name there is nothing, or an alternation and a symbol. -/
theorem Alternating.before_last {ss : List Segment} {n : Text}
    (alternating : Alternating (ss ++ [.name n])) :
    n.IsName ∧ (ss = [] ∨ ∃ front s, ss = front ++ [.symbol s] ∧ Alternating front) := by
  generalize whole : ss ++ [.name n] = ts at alternating
  induction alternating generalizing ss with
  | name name =>
    cases ss with
    | nil =>
      obtain ⟨rfl, -⟩ := by simpa using whole
      exact ⟨name, .inl rfl⟩
    | cons x xs => simp at whole
  | @cons m t rest name alternating ih =>
    cases ss with
    | nil => simp at whole
    | cons x xs =>
      cases xs with
      | nil => simp at whole
      | cons y xs =>
        simp only [List.cons_append, List.cons.injEq] at whole
        obtain ⟨rfl, rfl, whole⟩ := whole
        obtain ⟨last, before⟩ := ih whole
        refine ⟨last, .inr ?_⟩
        rcases before with rfl | ⟨front, s, rfl, front_alternating⟩
        · exact ⟨[.name m], t, rfl, .name name⟩
        · exact ⟨.name m :: .symbol t :: front, s, rfl, .cons name front_alternating⟩

/-- Another name may stand in the last place. -/
theorem Alternating.with_last {ss : List Segment} {m n : Text}
    (alternating : Alternating (ss ++ [.name m])) (name : n.IsName) :
    Alternating (ss ++ [.name n]) := by
  rcases alternating.before_last.2 with rfl | ⟨front, s, rfl, front_alternating⟩
  · exact .name name
  · rw [List.append_assoc]
    exact alternating_append_symbol.mpr ⟨front_alternating, .name name⟩

/-- Where an alternation goes on behind a name, it goes on with a symbol. -/
theorem Alternating.behind {front back : List Segment} {n : Text}
    (alternating : Alternating (front ++ .name n :: back)) :
    Alternating (front ++ [.name n]) ∧
      (back = [] ∨ ∃ s rest, back = .symbol s :: rest ∧ Alternating rest) := by
  cases back with
  | nil => exact ⟨alternating, .inl rfl⟩
  | cons t back =>
    have parted : front ++ .name n :: t :: back = (front ++ [.name n]) ++ t :: back := by simp
    cases t with
    | symbol s =>
      rw [parted, alternating_append_symbol] at alternating
      exact ⟨alternating.1, .inr ⟨s, back, rfl, alternating.2⟩⟩
    | name m =>
      exfalso
      clear parted
      generalize whole : front ++ .name n :: .name m :: back = zs at alternating
      induction alternating generalizing front with
      | name => cases front <;> simp at whole
      | cons _ rest ih =>
        match front with
        | [] => simp at whole
        | [x] => simp at whole
        | x :: y :: front =>
          simp only [List.cons_append, List.cons.injEq] at whole
          exact ih whole.2.2

end Segment

namespace Expression

open Segment (Alternating)

/-! ### Positions -/

theorem misplaced?_eq_none {ss : List Segment} (alternating : Alternating ss) {i : Nat}
    (even : i % 2 = 0) : misplaced? i ss = none := by
  induction alternating generalizing i with
  | name => simp [misplaced?, Segment.isName, even]
  | cons _ _ ih =>
    have odd : (i + 1) % 2 = 1 := by omega
    have next := @ih (i + 1 + 1) (by omega)
    simp [misplaced?, Segment.isName, even, odd, next]

theorem alternating_of_misplaced? {ss : List Segment} (proper : Segment.Proper ss) {i : Nat}
    (even : i % 2 = 0) (placed : misplaced? i ss = none) {n : Text}
    (last : ss.getLast? = some (.name n)) : Alternating ss := by
  match ss with
  | [] => simp at last
  | [s] =>
    obtain rfl : s = .name n := by simpa using last
    exact .name proper.1
  | s :: t :: ss =>
    have odd : (i + 1) % 2 = 1 := by omega
    cases s with
    | symbol s => simp [misplaced?, Segment.isName, even] at placed
    | name m =>
      cases t with
      | name u => exact absurd rfl (proper.2.1 u ss)
      | symbol t =>
        simp only [misplaced?, Segment.isName, even, odd, beq_self_eq_true, if_true] at placed
        have next : misplaced? (i + 1 + 1) ss = none := by simpa using placed
        cases ss with
        | nil => simp at last
        | cons u ss =>
          have rest : Alternating (u :: ss) :=
            alternating_of_misplaced? proper.2.2 (by omega) next (by simpa using last)
          exact .cons proper.1 rest

theorem checkPositions_eq_ok_iff {text : Text} {ss : List Segment} (proper : Segment.Proper ss) :
    checkPositions text ss = .ok () ↔ Alternating ss := by
  unfold checkPositions
  constructor
  · intro checked
    cases placed : misplaced? 0 ss with
    | some i => simp [placed] at checked
    | none =>
      simp only [placed] at checked
      split at checked
      · rename_i n last
        exact alternating_of_misplaced? proper rfl placed last
      · simp at checked
  · intro alternating
    rw [misplaced?_eq_none alternating rfl]
    have last : ∃ n, ss.getLast? = some (.name n) := by
      clear proper
      induction alternating with
      | @name n => exact ⟨n, rfl⟩
      | cons _ rest ih =>
        obtain ⟨n, last⟩ := ih
        exact ⟨n, by simp [List.getLast?_cons, last]⟩
    obtain ⟨n, last⟩ := last
    rw [last]

end Expression

end GenreRelations
