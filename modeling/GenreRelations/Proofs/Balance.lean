import GenreRelations.Expression.Group

/-!
The running balance of parentheses over segments. A run of segments is closed by the first one
after which the balance is no longer positive; `Group.closing?_eq_some_iff` says so about the scan.
-/

namespace GenreRelations

namespace Text

theorem balance_append (s t : Text) : (s ++ t).balance = s.balance + t.balance := by
  unfold balance
  rw [List.count_append, List.count_append]
  omega

theorem balance_opening (s : Text) : balance ('(' :: s) = s.balance + 1 := by
  have single : balance ['('] = 1 := by decide
  rw [← List.singleton_append, balance_append, single]
  omega

theorem balance_space (s : Text) : balance (' ' :: s) = s.balance := by
  have single : balance [' '] = 0 := by decide
  rw [← List.singleton_append, balance_append, single]
  omega

theorem balance_of_plain {s : Text} (opening : '(' ∉ s) (closing : ')' ∉ s) : s.balance = 0 := by
  rw [balance, List.count_eq_zero.mpr opening, List.count_eq_zero.mpr closing]
  rfl

theorem balance_closing (s : Text) : balance (s ++ [')']) = s.balance - 1 := by
  have single : balance [')'] = -1 := by decide
  rw [balance_append, single]
  omega

end Text

namespace Segment

/-- How many more parentheses the segments open than they close. -/
def balance : List Segment → Int
  | [] => 0
  | s :: ss => s.text.balance + balance ss

/-- Every running balance over the segments is positive, if it is `depth` before them. -/
def Stays (depth : Int) : List Segment → Prop
  | [] => True
  | s :: ss => 0 < depth + s.text.balance ∧ Stays (depth + s.text.balance) ss

instance decidableStays (depth : Int) : (ss : List Segment) → Decidable (Stays depth ss)
  | [] => .isTrue trivial
  | s :: ss =>
    have := decidableStays (depth + s.text.balance) ss
    inferInstanceAs (Decidable (_ ∧ _))

theorem balance_text_symbol (s : Symbol) : (symbol s).text.balance = 0 := by
  rcases s with r | r <;> cases r <;> decide

theorem balance_append (ss ts : List Segment) : balance (ss ++ ts) = balance ss + balance ts := by
  induction ss with
  | nil => simp [balance]
  | cons s ss ih =>
    rw [List.cons_append, balance, balance, ih]
    omega

theorem balance_singleton (s : Segment) : balance [s] = s.text.balance := by
  simp [balance]

theorem stays_append {d : Int} {ss ts : List Segment} :
    Stays d (ss ++ ts) ↔ Stays d ss ∧ Stays (d + balance ss) ts := by
  induction ss generalizing d with
  | nil => simp [Stays, balance]
  | cons s ss ih => simp [Stays, balance, ih, and_assoc, Int.add_assoc]

theorem Stays.mono {d e : Int} {ss : List Segment} (stays : Stays d ss) (le : d ≤ e) :
    Stays e ss := by
  induction ss generalizing d e with
  | nil => trivial
  | cons s ss ih =>
    obtain ⟨first, rest⟩ := stays
    exact ⟨by omega, ih rest (by omega)⟩

end Segment

namespace Group

open Segment (Stays)

theorem closing?_eq_some_iff {d : Int} {ss : List Segment} {k : Nat} :
    closing? d ss = some k ↔ ∃ front s back, ss = front ++ s :: back ∧ front.length = k ∧
      Stays d front ∧ d + Segment.balance (front ++ [s]) ≤ 0 := by
  induction ss generalizing d k with
  | nil => simp [closing?]
  | cons t ss ih =>
    rw [closing?]
    by_cases closed : d + t.text.balance ≤ 0
    · simp only [if_pos closed, Option.some.injEq]
      constructor
      · rintro rfl
        exact ⟨[], t, ss, rfl, rfl, trivial, by simpa [Segment.balance] using closed⟩
      · rintro ⟨front, s, back, parts, rfl, stays, -⟩
        cases front with
        | nil => rfl
        | cons u front =>
          obtain ⟨rfl, -⟩ := List.cons.inj parts
          have := stays.1
          omega
    · simp only [if_neg closed, Option.map_eq_some_iff, ih]
      constructor
      · rintro ⟨j, ⟨front, s, back, rfl, rfl, stays, below⟩, rfl⟩
        refine ⟨t :: front, s, back, rfl, rfl, ⟨by omega, stays⟩, ?_⟩
        rw [List.cons_append, Segment.balance]
        omega
      · rintro ⟨front, s, back, parts, rfl, stays, below⟩
        cases front with
        | nil =>
          obtain ⟨rfl, -⟩ := List.cons.inj parts
          rw [List.nil_append, Segment.balance_singleton] at below
          omega
        | cons u front =>
          obtain ⟨rfl, rfl⟩ := List.cons.inj parts
          refine ⟨front.length, ⟨front, s, back, rfl, rfl, stays.2, ?_⟩, rfl⟩
          rw [List.cons_append, Segment.balance] at below
          omega

/-- A group as the scan finds it: two segments or more from an opening to a closing one, with the
parentheses balanced at the last segment and at none before it. -/
structure IsRun (g : List Segment) : Prop where
  enclosed : Enclosed g
  stays : Stays 0 g.dropLast
  closed : Segment.balance g ≤ 0

theorem enclosed_iff {g : List Segment} :
    Enclosed g ↔ 2 ≤ g.length ∧ g.head?.any opens = true ∧ g.getLast?.any closes = true := by
  constructor
  · rintro ⟨s, ms, t, rfl, opening, closing⟩
    rw [List.getLast?_concat]
    exact ⟨by simp, opening, closing⟩
  · rintro ⟨several, opening, closing⟩
    cases g with
    | nil => simp at several
    | cons s g =>
      obtain ⟨ms, t, rfl⟩ : ∃ ms t, g = ms ++ [t] := by
        rcases List.eq_nil_or_concat g with rfl | ⟨ms, t, rfl⟩
        · simp at several
        · exact ⟨ms, t, List.concat_eq_append⟩
      rw [← List.cons_append, List.getLast?_concat] at closing
      exact ⟨s, ms, t, rfl, opening, closing⟩

instance (g : List Segment) : Decidable (Enclosed g) := decidable_of_iff _ enclosed_iff.symm

instance (g : List Segment) : Decidable (IsRun g) :=
  decidable_of_iff (Enclosed g ∧ Stays 0 g.dropLast ∧ Segment.balance g ≤ 0)
    ⟨fun ⟨enclosed, stays, closed⟩ => ⟨enclosed, stays, closed⟩,
      fun ⟨enclosed, stays, closed⟩ => ⟨enclosed, stays, closed⟩⟩

theorem Enclosed.parts {g : List Segment} (enclosed : Enclosed g) :
    ∃ n ms t, g = .name ('(' :: n) :: (ms ++ [t]) ∧ closes t = true := by
  obtain ⟨s, ms, t, rfl, opening, closing⟩ := enclosed
  unfold opens at opening
  split at opening
  · exact ⟨_, ms, t, rfl, closing⟩
  · simp at opening

theorem IsRun.closing? {g : List Segment} (run : IsRun g) (rest : List Segment) :
    Group.closing? 0 (g ++ rest) = some (g.length - 1) := by
  obtain ⟨enclosed, stays, closed⟩ := run
  obtain ⟨s, ms, t, rfl, -, -⟩ := enclosed
  rw [List.dropLast_concat] at stays
  refine closing?_eq_some_iff.mpr ⟨s :: ms, t, rest, by simp, by simp, stays, ?_⟩
  omega

theorem isRun_take {s : Segment} {ss : List Segment} {k : Nat} (opening : opens s = true)
    (scan : Group.closing? 0 (s :: ss) = some k) (several : 0 < k)
    (closing : ((s :: ss)[k]?.map closes).getD false = true) :
    IsRun ((s :: ss).take (k + 1)) ∧ ((s :: ss).take (k + 1)).length = k + 1 := by
  obtain ⟨front, t, back, parts, rfl, stays, closed⟩ := closing?_eq_some_iff.mp scan
  have front_ne_nil : front ≠ [] := List.length_pos_iff.mp several
  obtain ⟨u, ms, rfl⟩ := List.exists_cons_of_ne_nil front_ne_nil
  obtain ⟨rfl, -⟩ := List.cons.inj parts
  have last : closes t = true := by simpa [parts] using closing
  have run : (s :: ss).take ((s :: ms).length + 1) = s :: ms ++ [t] := by
    rw [parts, List.take_length_add_append]
    rfl
  rw [run]
  refine ⟨⟨⟨s, ms, t, rfl, opening, last⟩, ?_, by omega⟩, by simp⟩
  rwa [List.dropLast_concat]

/-- The scan records a run and goes on behind it. -/
theorem IsRun.spans {g rest : List Segment} (run : IsRun g) {i : Nat} {found : List Span}
    (later : Group.spans (i + g.length) rest = .ok found) :
    Group.spans i (g ++ rest) = .ok (⟨i, i + g.length⟩ :: found) := by
  have closing := run.closing? rest
  obtain ⟨n, ms, last, rfl, closes⟩ := run.enclosed.parts
  have opens : Group.opens (.name ('(' :: n)) = true := rfl
  have length : (Segment.name ('(' :: n) :: (ms ++ [last])).length = ms.length + 1 + 1 := by simp
  have behind : (ms ++ last :: rest).drop (ms.length + 1) = rest := by simp
  have ending : (Segment.name ('(' :: n) :: (ms ++ last :: rest))[ms.length + 1]? = some last := by
    simp
  rw [length] at closing later ⊢
  simp only [List.cons_append, List.append_assoc, List.nil_append, Nat.add_sub_cancel]
    at closing ⊢
  rw [Group.spans, if_pos opens, closing]
  simp only [behind, ending, ← Nat.add_assoc] at later ⊢
  simp [later, bind, Except.bind, pure, Except.pure, closes]

end Group

end GenreRelations
