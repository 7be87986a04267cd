import GenreRelations.Level

/-!
Groups of a level. A group runs from a name that starts with `(` to the first segment at which
the parentheses balance again. If that is the same name, its parentheses belong to the name; if it
is a later segment that does not end with `)`, the run is passed over. `weight_inner_slice` says that
the inside of a group is lighter than its level by two characters or more.
-/

namespace GenreRelations

/-- How many more parentheses a text opens than it closes. The count has no bound; one in 32 bits
agrees with it for texts of fewer than 2 ^ 31 parentheses. -/
def Text.balance (s : Text) : Int := (s.count '(' : Int) - s.count ')'

namespace Group

/-- A group can start at the segment. -/
def opens : Segment → Bool
  | .name ('(' :: _) => true
  | _ => false

/-- A group can end at the segment. -/
def closes (s : Segment) : Bool := s.text.getLast? == some ')'

/-- How many segments lie before the first one at which a balance that starts at `depth` is no
longer positive. The balance has no bound, as in `Text.balance`; from 0 on, one in 32 bits agrees
with it while the segments have fewer than 2 ^ 31 parentheses. -/
def closing? (depth : Int) : List Segment → Option Nat
  | [] => none
  | s :: ss =>
    let d := depth + s.text.balance
    if d ≤ 0 then some 0 else (closing? d ss).map (· + 1)

/-- The spans of the groups, where the first segment has number `i`; if a parenthesis is never
closed, the number of the segment that opens it. -/
def spans (i : Nat) : List Segment → Except Nat (List Span)
  | [] => .ok []
  | s :: ss =>
    if opens s then
      match closing? 0 (s :: ss) with
      | none => .error i
      | some k => do
        let rest ← spans (i + k + 1) (ss.drop k)
        if 0 < k && ((s :: ss)[k]?.map closes).getD false then
          return ⟨i, i + k + 1⟩ :: rest
        else
          return rest
    else
      spans (i + 1) ss
  termination_by ss => ss.length

/-- The text without one `(` in front. -/
def dropOpening : Text → Text
  | '(' :: s => s
  | s => s

/-- The text without one `)` at the end. -/
def dropClosing (s : Text) : Text := if s.getLast? = some ')' then s.dropLast else s

/-- The text between the outer parentheses of a group. -/
def inner (ss : List Segment) : Text := dropClosing (dropOpening (Segment.join ss))

/-! ### Weight -/

/-- The segments of a group: two or more, the first of which can start and the last end one. -/
def Enclosed (ss : List Segment) : Prop :=
  ∃ s ms t, ss = s :: ms ++ [t] ∧ opens s = true ∧ closes t = true

theorem enclosed_of_mem_spans {ss : List Segment} {i : Nat} {found : List Span}
    (h : spans i ss = .ok found) {span : Span} (hs : span ∈ found) :
    i ≤ span.start ∧ Enclosed (Span.slice ⟨span.start - i, span.stop - i⟩ ss) := by
  fun_induction spans i ss generalizing found with
  | case1 i =>
    obtain rfl := Except.ok.inj h
    simp at hs
  | case2 => simp at h
  | case3 i s ss hopen k hk ih =>
    cases hrest : spans (i + k + 1) (ss.drop k) with
    | error e => rw [hrest] at h; simp [bind, Except.bind] at h
    | ok rest =>
      have hlater : span ∈ rest →
          i ≤ span.start ∧ Enclosed (Span.slice ⟨span.start - i, span.stop - i⟩ (s :: ss)) := by
        intro hmem
        obtain ⟨hle, henc⟩ := ih hrest hmem
        refine ⟨by omega, ?_⟩
        have hslice : Span.slice ⟨span.start - i, span.stop - i⟩ (s :: ss) =
            Span.slice ⟨span.start - (i + k + 1), span.stop - (i + k + 1)⟩ (ss.drop k) := by
          simp only [Span.slice, List.drop_drop]
          rw [show span.start - i = (k + (span.start - (i + k + 1))) + 1 by omega,
            List.drop_succ_cons,
            show span.stop - i - (k + (span.start - (i + k + 1)) + 1) =
              span.stop - (i + k + 1) - (span.start - (i + k + 1)) by omega]
        rw [hslice]
        exact henc
      rw [hrest] at h
      simp only [bind, Except.bind] at h
      split at h
      · rename_i hlast
        obtain rfl := Except.ok.inj h
        rcases List.mem_cons.mp hs with rfl | hmem
        · refine ⟨Nat.le_refl _, ?_⟩
          simp only [Bool.and_eq_true, decide_eq_true_eq] at hlast
          obtain ⟨hpos, hclose⟩ := hlast
          obtain ⟨j, rfl⟩ : ∃ j, k = j + 1 := ⟨k - 1, by omega⟩
          rw [List.getElem?_cons_succ] at hclose
          cases ht : ss[j]? with
          | none => rw [ht] at hclose; simp at hclose
          | some t =>
            rw [ht] at hclose
            refine ⟨s, ss.take j, t, ?_, hopen, by simpa using hclose⟩
            simp only [Span.slice, Nat.sub_self, List.drop_zero, Nat.sub_zero]
            rw [show i + (j + 1) + 1 - i = j + 1 + 1 by omega, List.take_succ_cons,
              List.take_add_one, ht]
            rfl
        · exact hlater hmem
      · obtain rfl := Except.ok.inj h
        exact hlater hs
  | case4 i s ss hopen ih =>
    obtain ⟨hle, henc⟩ := ih h hs
    refine ⟨by omega, ?_⟩
    have hslice : Span.slice ⟨span.start - i, span.stop - i⟩ (s :: ss) =
        Span.slice ⟨span.start - (i + 1), span.stop - (i + 1)⟩ ss := by
      simp only [Span.slice]
      rw [show span.start - i = (span.start - (i + 1)) + 1 by omega, List.drop_succ_cons,
        show span.stop - i - (span.start - (i + 1) + 1) =
          span.stop - (i + 1) - (span.start - (i + 1)) by omega]
    rw [hslice]
    exact henc

theorem weight_dropClosing {s : Text} (h : s.getLast? = some ')') :
    (dropClosing s).weight + 1 = s.weight := by
  rw [dropClosing, if_pos h]
  obtain ⟨t, rfl⟩ := List.getLast?_eq_some_iff.mp h
  have hparen : Text.isBlank ')' = false := by decide
  rw [List.dropLast_concat, Text.weight_append, Text.weight_cons, hparen, Text.weight_nil]
  rfl

theorem weight_inner {ss : List Segment} (h : Enclosed ss) :
    (inner ss).weight + 2 = Segment.weight ss := by
  obtain ⟨s, ms, t, rfl, hopen, hclose⟩ := h
  obtain ⟨n, rfl⟩ : ∃ n, s = .name ('(' :: n) := by
    unfold opens at hopen
    split at hopen
    · exact ⟨_, rfl⟩
    · simp at hopen
  have hlast : t.text.getLast? = some ')' := by simpa [closes] using hclose
  have hjoin : Segment.join (.name ('(' :: n) :: ms ++ [t]) =
      '(' :: (Text.unwords (n :: ms.map Segment.text) ++ ' ' :: t.text) := by
    simp only [Segment.join, List.map_append, List.map_cons, List.map_nil]
    rw [Text.unwords_concat]
    simp only [Segment.text]
    rw [Text.unwords_cons_char, List.cons_append]
  have hinside :
      (Text.unwords (n :: ms.map Segment.text) ++ ' ' :: t.text).getLast? = some ')' := by
    simp [List.getLast?_append, List.getLast?_cons, hlast]
  have hparen : Text.isBlank '(' = false := by decide
  have hdrop := weight_dropClosing hinside
  rw [← Segment.weight_join, inner, hjoin, dropOpening, Text.weight_cons, hparen]
  simp only [Bool.false_eq_true, if_false]
  omega

theorem weight_slice_le (span : Span) (ss : List Segment) :
    Segment.weight (span.slice ss) ≤ Segment.weight ss := by
  conv => rhs; rw [← List.take_append_drop span.start ss, Segment.weight_append,
    ← List.take_append_drop (span.stop - span.start) (ss.drop span.start), Segment.weight_append]
  unfold Span.slice
  omega

/-- The inside of a group is lighter than its level by two characters or more. -/
theorem weight_inner_slice {ss : List Segment} {found : List Span} (h : spans 0 ss = .ok found)
    {span : Span} (hs : span ∈ found) :
    (inner (span.slice ss)).weight + 2 ≤ Segment.weight ss := by
  have henc : Enclosed (span.slice ss) := (enclosed_of_mem_spans h hs).2
  rw [weight_inner henc]
  exact weight_slice_le _ _

end Group

end GenreRelations
