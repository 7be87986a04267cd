import GenreRelations.Proofs.Runs

/-!
The scan for groups as a loop. One turn passes a segment that opens no group, or all segments of the
run that it opens, which is recorded if it is a group. `Group.Scan.run_eq_spans` says that the loop
ends within as many turns as there are segments, and with the spans. `Group.Scan.Sound` is what
every turn preserves; `Group.mem_spans_iff` and `Group.spans_eq_error_iff` say what it comes to.
-/

namespace GenreRelations

namespace Group

variable {ss : List Segment}

/-! ### The scan as a loop -/

/-- A span that the scan records: a run at a place that it reaches, of two segments or more, the
last of which can end a group. -/
structure Recorded (ss : List Segment) (span : Span) : Prop where
  reached : Reached ss span.start
  opens : OpensAt ss span.start
  closes : ClosesAt ss span.start (span.stop - 1)
  several : span.start + 1 < span.stop
  ends : EndsAt ss (span.stop - 1)

/-- The first parenthesis, among those at the places that the scan reaches, that is not closed. -/
structure FirstUnclosed (ss : List Segment) (i : Nat) : Prop where
  reached : Reached ss i
  unclosed : Unclosed ss i
  first : ∀ j, Reached ss j → Unclosed ss j → i ≤ j

/-- Where the scan stands, and the spans that it has recorded. -/
structure Scan where
  start : Nat
  found : List Span

namespace Scan

/-- One turn, at a place within the level. -/
def turn (ss : List Segment) (c : Scan) : Except Nat Scan :=
  if ss[c.start]?.any opens then
    match closing? 0 (ss.drop c.start) with
    | none => .error c.start
    | some k =>
      if 0 < k && ss[c.start + k]?.any closes then
        .ok ⟨c.start + k + 1, c.found ++ [⟨c.start, c.start + k + 1⟩]⟩
      else
        .ok ⟨c.start + k + 1, c.found⟩
  else
    .ok ⟨c.start + 1, c.found⟩

/-- The loop, if it ends within so many turns. -/
def run (ss : List Segment) : Nat → Scan → Option (Except Nat (List Span))
  | 0, c => if c.start < ss.length then none else some (.ok c.found)
  | turns + 1, c =>
    if c.start < ss.length then
      match c.turn ss with
      | .error i => some (.error i)
      | .ok d => run ss turns d
    else
      some (.ok c.found)

/-- What the scan comes to from where it stands. -/
def rest (ss : List Segment) (c : Scan) : Except Nat (List Span) :=
  (spans c.start (ss.drop c.start)).map (c.found ++ ·)

variable {c d : Scan}

theorem rest_of_end (behind : ss.length ≤ c.start) : c.rest ss = .ok c.found := by
  rw [rest, List.drop_eq_nil_of_le behind, spans]
  exact congrArg Except.ok (List.append_nil _)

theorem rest_eq (within : c.start < ss.length) : c.rest ss = c.turn ss >>= rest ss := by
  have here : ss.drop c.start = ss[c.start] :: ss.drop (c.start + 1) :=
    List.drop_eq_getElem_cons within
  unfold rest turn
  rw [List.getElem?_eq_getElem within, Option.any_some, here, spans]
  by_cases opening : opens ss[c.start] = true
  · rw [if_pos opening, if_pos opening]
    cases closing : closing? 0 (ss[c.start] :: ss.drop (c.start + 1)) with
    | none => rfl
    | some k =>
      have ending : (ss[c.start] :: ss.drop (c.start + 1))[k]? = ss[c.start + k]? := by
        rw [← here, List.getElem?_drop]
      have behind : (ss.drop (c.start + 1)).drop k = ss.drop (c.start + k + 1) := by
        rw [List.drop_drop]
        congr 1
        omega
      have last : (ss[c.start + k]?.map closes).getD false = ss[c.start + k]?.any closes := by
        cases ss[c.start + k]? <;> rfl
      simp only [ending, behind, last]
      cases later : spans (c.start + k + 1) (ss.drop (c.start + k + 1)) <;> split <;>
        simp [later, Except.map, bind, Except.bind, pure, Except.pure]
  · rw [if_neg opening, if_neg opening]
    rfl

/-- What a turn can do. -/
inductive Turns (ss : List Segment) (c : Scan) : Except Nat Scan → Prop
  | pass (plain : ¬ OpensAt ss c.start) : Turns ss c (.ok ⟨c.start + 1, c.found⟩)
  | skip {e : Nat} (opens : OpensAt ss c.start) (closes : ClosesAt ss c.start e)
      (single : ¬ (c.start < e ∧ EndsAt ss e)) : Turns ss c (.ok ⟨e + 1, c.found⟩)
  | record {e : Nat} (opens : OpensAt ss c.start) (closes : ClosesAt ss c.start e)
      (several : c.start < e) (ends : EndsAt ss e) :
      Turns ss c (.ok ⟨e + 1, c.found ++ [⟨c.start, e + 1⟩]⟩)
  | fail (unclosed : Unclosed ss c.start) : Turns ss c (.error c.start)

theorem turns_of_turn {result : Except Nat Scan} (turned : c.turn ss = result) :
    Turns ss c result := by
  subst turned
  unfold turn
  by_cases opening : ss[c.start]?.any opens = true
  · have opens : OpensAt ss c.start := any_opens_iff.mp opening
    rw [if_pos opening]
    cases closing : closing? 0 (ss.drop c.start) with
    | none => exact .fail (unclosed_iff.mpr ⟨opens, closing⟩)
    | some k =>
      have closes : ClosesAt ss c.start (c.start + k) := closesAt_iff.mpr ⟨k, rfl, closing⟩
      have group : (0 < k && ss[c.start + k]?.any Group.closes) = true ↔
          c.start < c.start + k ∧ EndsAt ss (c.start + k) := by
        rw [Bool.and_eq_true, decide_eq_true_eq, any_closes_iff, Nat.lt_add_right_iff_pos]
      by_cases ends : (0 < k && ss[c.start + k]?.any Group.closes) = true
      · simp only [if_pos ends]
        exact .record opens closes (group.mp ends).1 (group.mp ends).2
      · simp only [if_neg ends]
        exact .skip opens closes (mt group.mpr ends)
  · rw [if_neg opening]
    exact .pass (mt any_opens_iff.mpr opening)

theorem next_of_turn (within : c.start < ss.length) (turned : c.turn ss = .ok d) :
    Next ss c.start d.start := by
  cases turns_of_turn turned with
  | pass plain => exact .pass within plain
  | skip opens closes => exact .close opens closes
  | record opens closes => exact .close opens closes

theorem run_eq_rest {turns : Nat} (enough : ss.length ≤ c.start + turns) :
    run ss turns c = some (c.rest ss) := by
  induction turns generalizing c with
  | zero => rw [run, if_neg (by omega), rest_of_end (by omega)]
  | succ turns ih =>
    rw [run]
    by_cases within : c.start < ss.length
    · rw [if_pos within, rest_eq within]
      cases turned : c.turn ss with
      | error i => rfl
      | ok d =>
        have forward := (next_of_turn within turned).lt
        exact ih (by omega)
    · rw [if_neg within, rest_of_end (by omega)]

/-- The loop finds the spans, within as many turns as there are segments. -/
theorem run_eq_spans (ss : List Segment) : run ss ss.length ⟨0, []⟩ = some (spans 0 ss) := by
  rw [run_eq_rest (by simp), rest, List.drop_zero]
  cases spans 0 ss <;> rfl

theorem spans_of_run {result : Except Nat (List Span)}
    (ends : run ss ss.length ⟨0, []⟩ = some result) : spans 0 ss = result :=
  Option.some.inj ((run_eq_spans ss).symm.trans ends)

/-! ### What every turn preserves -/

/-- All groups before the place where the scan stands are recorded, in their order, and everything
that opens before it is closed. -/
structure Sound (ss : List Segment) (c : Scan) : Prop where
  reached : Reached ss c.start
  within : c.start ≤ ss.length
  recorded : ∀ span, span ∈ c.found ↔ span.start < c.start ∧ Recorded ss span
  passed : ∀ span ∈ c.found, span.stop ≤ c.start
  ordered : c.found.Pairwise fun a b => a.stop ≤ b.start
  closed : ∀ j < c.start, Reached ss j → ¬ Unclosed ss j

theorem sound_start (ss : List Segment) : Sound ss ⟨0, []⟩ where
  reached := .refl
  within := Nat.zero_le _
  recorded := by simp
  passed := by simp
  ordered := .nil
  closed := by simp

namespace Sound

variable (sound : Sound ss c)

include sound

/-- The scan goes on at place `j`, with the spans recorded at the place of the turn. -/
theorem step {j : Nat} {more : List Span} (next : Next ss c.start j)
    (here : ∀ span, span ∈ more ↔ span.start = c.start ∧ Recorded ss span)
    (passed : ∀ span ∈ more, span.stop ≤ j)
    (ordered : more.Pairwise fun a b => a.stop ≤ b.start) : Sound ss ⟨j, c.found ++ more⟩ := by
  obtain ⟨forward, within⟩ := next.lt
  refine ⟨sound.reached.tail next, within, fun span => ?_, fun span member => ?_, ?_, ?_⟩
  · rw [List.mem_append, sound.recorded, here, ← or_and_right]
    refine and_congr_left fun recorded => ?_
    -- nothing is reached behind the place of the turn and before the next one
    have le := le_of_reached sound.reached next recorded.reached
    simp only
    omega
  · rcases List.mem_append.mp member with earlier | now
    · exact Nat.le_trans (sound.passed span earlier) (Nat.le_of_lt forward)
    · exact passed span now
  · refine List.pairwise_append.mpr ⟨sound.ordered, ordered, fun a earlier b now => ?_⟩
    rw [((here b).mp now).1]
    exact sound.passed a earlier
  · intro i before there unclosed
    rcases Nat.lt_or_eq_of_le (le_of_reached sound.reached next there before) with earlier | rfl
    · exact sound.closed i earlier there unclosed
    · exact next.not_unclosed unclosed

theorem pass {j : Nat} (next : Next ss c.start j)
    (nothing : ∀ span, Recorded ss span → span.start ≠ c.start) : Sound ss ⟨j, c.found⟩ := by
  have none_here : ∀ span, span ∈ [] ↔ span.start = c.start ∧ Recorded ss span := fun span =>
    iff_of_false List.not_mem_nil fun here => nothing span here.2 here.1
  simpa using sound.step next none_here (by simp) .nil

/-- A turn preserves what the scan has come to. -/
theorem turn (within : c.start < ss.length) (turned : c.turn ss = .ok d) : Sound ss d := by
  have next := next_of_turn within turned
  cases turns_of_turn turned with
  | pass plain =>
    refine sound.pass next fun span recorded same => ?_
    exact plain (same ▸ recorded.opens)
  | @skip e _ closes single =>
    refine sound.pass next fun span recorded same => ?_
    obtain rfl := closes.unique (same ▸ recorded.closes)
    have several := recorded.several
    exact single ⟨by omega, recorded.ends⟩
  | @record e opens closes several ends =>
    have one_here : ∀ span, span ∈ [⟨c.start, e + 1⟩] ↔
        span.start = c.start ∧ Recorded ss span := by
      intro span
      rw [List.mem_singleton]
      constructor
      · rintro rfl
        exact ⟨rfl, sound.reached, opens, closes, by simpa using several, ends⟩
      · rintro ⟨same, recorded⟩
        obtain rfl := closes.unique (same ▸ recorded.closes)
        have several := recorded.several
        obtain ⟨start, stop⟩ := span
        simp only at same several
        simp only [Span.mk.injEq]
        omega
    exact sound.step next one_here (by simp) (List.pairwise_singleton _ _)

/-- Where a turn fails, the scan has met the first parenthesis that is not closed. -/
theorem firstUnclosed {i : Nat} (turned : c.turn ss = .error i) : FirstUnclosed ss i := by
  cases turns_of_turn turned with
  | fail unclosed =>
    exact ⟨sound.reached, unclosed, fun j there other =>
      Nat.not_lt.mp fun before => sound.closed j before there other⟩

theorem at_end (behind : ¬ c.start < ss.length) : Sound ss ⟨ss.length, c.found⟩ := by
  obtain ⟨start, found⟩ := c
  have ends : start = ss.length := Nat.le_antisymm sound.within (Nat.not_lt.mp behind)
  rwa [← ends]

end Sound

/-- What a whole scan comes to. -/
def Outcome (ss : List Segment) : Except Nat (List Span) → Prop
  | .ok found => Sound ss ⟨ss.length, found⟩
  | .error i => FirstUnclosed ss i

theorem run_outcome {turns : Nat} {result : Except Nat (List Span)} (sound : Sound ss c)
    (ends : run ss turns c = some result) : Outcome ss result := by
  induction turns generalizing c with
  | zero =>
    rw [run] at ends
    split at ends
    · cases ends
    · rename_i behind
      exact Option.some.inj ends ▸ sound.at_end behind
  | succ turns ih =>
    rw [run] at ends
    split at ends
    · rename_i within
      cases turned : c.turn ss with
      | error i =>
        rw [turned] at ends
        exact Option.some.inj ends ▸ sound.firstUnclosed turned
      | ok d =>
        rw [turned] at ends
        exact ih (sound.turn within turned) ends
    · rename_i behind
      exact Option.some.inj ends ▸ sound.at_end behind

theorem outcome_spans (ss : List Segment) : Outcome ss (spans 0 ss) :=
  run_outcome (sound_start ss) (run_eq_spans ss)

end Scan

/-! ### What is found -/

theorem sound_of_spans {found : List Span} (scan : spans 0 ss = .ok found) :
    Scan.Sound ss ⟨ss.length, found⟩ := by
  have outcome := Scan.outcome_spans ss
  rwa [scan] at outcome

theorem firstUnclosed_of_spans {i : Nat} (failed : spans 0 ss = .error i) :
    FirstUnclosed ss i := by
  have outcome := Scan.outcome_spans ss
  rwa [failed] at outcome

/-- The spans are those of the groups at the places that the scan reaches. -/
theorem mem_spans_iff {found : List Span} (scan : spans 0 ss = .ok found) {span : Span} :
    span ∈ found ↔ Recorded ss span := by
  rw [(sound_of_spans scan).recorded]
  exact ⟨And.right, fun recorded => ⟨recorded.opens.within, recorded⟩⟩

/-- A parenthesis that is reached and not closed makes the scan fail. -/
theorem exists_spans_eq_error_iff :
    (∃ i, spans 0 ss = .error i) ↔ ∃ i, Reached ss i ∧ Unclosed ss i := by
  constructor
  · rintro ⟨i, failed⟩
    have first := firstUnclosed_of_spans failed
    exact ⟨i, first.reached, first.unclosed⟩
  · rintro ⟨i, reached, unclosed⟩
    cases scan : spans 0 ss with
    | error j => exact ⟨j, rfl⟩
    | ok found =>
      have within := unclosed.opens.within
      exact absurd unclosed ((sound_of_spans scan).closed i within reached)

theorem spans_eq_error_iff {i : Nat} : spans 0 ss = .error i ↔ FirstUnclosed ss i := by
  refine ⟨firstUnclosed_of_spans, fun first => ?_⟩
  obtain ⟨j, failed⟩ := exists_spans_eq_error_iff.mpr ⟨i, first.reached, first.unclosed⟩
  have other := firstUnclosed_of_spans failed
  have le := first.first j other.reached other.unclosed
  have ge := other.first i first.reached first.unclosed
  rw [failed, Nat.le_antisymm le ge]

end Group

end GenreRelations
