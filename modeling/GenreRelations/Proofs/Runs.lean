import GenreRelations.Proofs.Balance
import Mathlib.Logic.Relation

/-!
What opens and closes at the places of a level, and the places that the scan for groups looks at.
From a segment that opens no group the scan goes on at the next one, from any other behind the
segment that closes what is open: `Group.closesAt_iff` says which one that is, and
`Group.le_of_reached` that no place on the way to it is looked at.
-/

namespace GenreRelations

namespace Segment

theorem stays_iff_take {d : Int} {ss : List Segment} :
    Stays d ss ↔ ∀ k < ss.length, 0 < d + balance (ss.take (k + 1)) := by
  induction ss generalizing d with
  | nil => simp [Stays]
  | cons s ss ih =>
    rw [Stays, ih, List.length_cons, Nat.forall_lt_succ_left]
    simp only [List.take_succ_cons, List.take_zero, balance, Int.add_zero, Int.add_assoc]

end Segment

namespace Group

open Segment (Stays)

variable {ss : List Segment}

/-! ### Runs at a place -/

/-- How many parentheses are open behind the segment at `k`, counted from the one at `i` on. -/
def depth (ss : List Segment) (i k : Nat) : Int := Segment.balance (Span.slice ⟨i, k + 1⟩ ss)

def OpensAt (ss : List Segment) (i : Nat) : Prop := ∃ n, ss[i]? = some (.name ('(' :: n))

def EndsAt (ss : List Segment) (e : Nat) : Prop := ∃ n, ss[e]? = some (.name (n ++ [')']))

/-- What is open from place `i` on is closed by the segment at `e`, and by none before it. -/
structure ClosesAt (ss : List Segment) (i e : Nat) : Prop where
  after : i ≤ e
  within : e < ss.length
  positive : ∀ k, i ≤ k → k < e → 0 < depth ss i k
  closed : depth ss i e ≤ 0

/-- The parenthesis that opens at place `i` is not closed by any of the segments. -/
structure Unclosed (ss : List Segment) (i : Nat) : Prop where
  opens : OpensAt ss i
  positive : ∀ k, i ≤ k → k < ss.length → 0 < depth ss i k

theorem OpensAt.within {i : Nat} (opens : OpensAt ss i) : i < ss.length := by
  obtain ⟨n, here⟩ := opens
  exact (List.getElem?_eq_some_iff.mp here).1

theorem ClosesAt.unique {i d e : Nat} (first : ClosesAt ss i d) (second : ClosesAt ss i e) :
    d = e := by
  rcases Nat.lt_trichotomy d e with before | same | behind
  · have positive := second.positive d first.after before
    have closed := first.closed
    omega
  · exact same
  · have positive := first.positive e second.after behind
    have closed := second.closed
    omega

theorem Unclosed.not_closesAt {i e : Nat} (unclosed : Unclosed ss i) : ¬ ClosesAt ss i e := by
  intro closes
  have positive := unclosed.positive e closes.after closes.within
  have closed := closes.closed
  omega

theorem opens_iff {s : Segment} : opens s = true ↔ ∃ n, s = .name ('(' :: n) := by
  unfold opens
  split
  · simp
  · rename_i other
    simpa using fun n => other n

theorem closes_iff {s : Segment} : closes s = true ↔ ∃ n, s = .name (n ++ [')']) := by
  unfold closes
  rw [beq_iff_eq, List.getLast?_eq_some_iff]
  cases s with
  | name n => simp [Segment.text]
  | symbol s =>
    simp only [reduceCtorEq, exists_false, iff_false, ← List.getLast?_eq_some_iff]
    rcases s with r | r <;> cases r <;> decide

theorem any_opens_iff {i : Nat} : ss[i]?.any opens = true ↔ OpensAt ss i := by
  rw [Option.any_eq_true]
  simp only [opens_iff, OpensAt]
  grind

theorem any_closes_iff {e : Nat} : ss[e]?.any closes = true ↔ EndsAt ss e := by
  rw [Option.any_eq_true]
  simp only [closes_iff, EndsAt]
  grind

theorem depth_add (ss : List Segment) (i j : Nat) :
    depth ss i (i + j) = Segment.balance ((ss.drop i).take (j + 1)) := by
  unfold depth Span.slice
  rw [show i + j + 1 - i = j + 1 by omega]

theorem closing?_eq_none_iff {d : Int} : closing? d ss = none ↔ Stays d ss := by
  induction ss generalizing d with
  | nil => simp [closing?, Stays]
  | cons s ss ih =>
    rw [closing?, Stays]
    by_cases closed : d + s.text.balance ≤ 0
    · simp [closed, Int.not_lt.mpr closed]
    · simp [closed, ih, Int.not_le.mp closed]

theorem closing?_eq_some_iff_take {d : Int} {k : Nat} :
    closing? d ss = some k ↔ k < ss.length ∧
      (∀ j < k, 0 < d + Segment.balance (ss.take (j + 1))) ∧
      d + Segment.balance (ss.take (k + 1)) ≤ 0 := by
  rw [closing?_eq_some_iff]
  constructor
  · rintro ⟨front, s, back, rfl, rfl, stays, closed⟩
    refine ⟨by simp, fun j before => ?_, ?_⟩
    · rw [List.take_append_of_le_length (by omega)]
      exact Segment.stays_iff_take.mp stays j before
    · rw [List.take_length_add_append]
      exact closed
  · rintro ⟨within, positive, closed⟩
    have length : (ss.take k).length = k := by
      rw [List.length_take]
      omega
    refine ⟨ss.take k, ss[k], ss.drop (k + 1), ?_, length, ?_, ?_⟩
    · rw [← List.drop_eq_getElem_cons within, List.take_append_drop]
    · refine Segment.stays_iff_take.mpr fun j before => ?_
      rw [List.take_take, Nat.min_eq_left (by omega)]
      exact positive j (by omega)
    · rwa [List.take_append_getElem]

theorem closesAt_iff {i e : Nat} :
    ClosesAt ss i e ↔ ∃ k, e = i + k ∧ closing? 0 (ss.drop i) = some k := by
  simp only [closing?_eq_some_iff_take, ← depth_add, List.length_drop, Int.zero_add]
  constructor
  · rintro ⟨after, within, positive, closed⟩
    obtain ⟨k, rfl⟩ := Nat.exists_eq_add_of_le after
    exact ⟨k, rfl, by omega, fun j before => positive (i + j) (by omega) (by omega), closed⟩
  · rintro ⟨k, rfl, within, positive, closed⟩
    refine ⟨by omega, by omega, fun j after before => ?_, closed⟩
    obtain ⟨j, rfl⟩ := Nat.exists_eq_add_of_le after
    exact positive j (by omega)

theorem unclosed_iff {i : Nat} :
    Unclosed ss i ↔ OpensAt ss i ∧ closing? 0 (ss.drop i) = none := by
  rw [closing?_eq_none_iff, Segment.stays_iff_take]
  simp only [← depth_add, List.length_drop, Int.zero_add]
  constructor
  · rintro ⟨opens, positive⟩
    exact ⟨opens, fun k within => positive (i + k) (by omega) (by omega)⟩
  · rintro ⟨opens, positive⟩
    refine ⟨opens, fun k after within => ?_⟩
    obtain ⟨j, rfl⟩ := Nat.exists_eq_add_of_le after
    exact positive j (by omega)

/-! ### The places that the scan looks at -/

/-- From place `i` the scan goes on at place `j`: the next one, or behind the run that opens. -/
inductive Next (ss : List Segment) (i : Nat) : Nat → Prop
  | pass (within : i < ss.length) (plain : ¬ OpensAt ss i) : Next ss i (i + 1)
  | close {e : Nat} (opens : OpensAt ss i) (closes : ClosesAt ss i e) : Next ss i (e + 1)

/-- The scan, which starts at the first segment, reaches the place. -/
def Reached (ss : List Segment) : Nat → Prop := Relation.ReflTransGen (Next ss) 0

theorem Next.lt {i j : Nat} (next : Next ss i j) : i < j ∧ j ≤ ss.length := by
  cases next with
  | pass within => omega
  | close _ closes =>
    have after := closes.after
    have within := closes.within
    omega

theorem Next.unique {i j k : Nat} (first : Next ss i j) (second : Next ss i k) : j = k := by
  cases first with
  | pass _ plain =>
    cases second with
    | pass => rfl
    | close opens => exact absurd opens plain
  | close opens closes =>
    cases second with
    | pass _ plain => exact absurd opens plain
    | close _ again => rw [closes.unique again]

theorem Next.not_unclosed {i j : Nat} (next : Next ss i j) : ¬ Unclosed ss i := by
  intro unclosed
  cases next with
  | pass _ plain => exact plain unclosed.opens
  | close _ closes => exact unclosed.not_closesAt closes

theorem le_of_path {i j : Nat} (path : Relation.ReflTransGen (Next ss) i j) : i ≤ j := by
  induction path with
  | refl => exact Nat.le_refl _
  | tail _ next ih =>
    have forward := next.lt
    omega

/-- The scan reaches no place that it jumps over. -/
theorem le_of_reached {i j k : Nat} (here : Reached ss i) (next : Next ss i j)
    (there : Reached ss k) (before : k < j) : k ≤ i := by
  have deterministic : Relator.RightUnique (Next ss) := fun _ _ _ first second =>
    first.unique second
  rcases Relation.ReflTransGen.total_of_right_unique deterministic here there with path | path
  · rcases path.cases_head with rfl | ⟨m, step, rest⟩
    · exact Nat.le_refl _
    · obtain rfl := step.unique next
      have beyond := le_of_path rest
      omega
  · exact le_of_path path

end Group

end GenreRelations
