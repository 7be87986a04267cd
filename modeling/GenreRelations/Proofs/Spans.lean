import GenreRelations.Proofs.Parsing
import GenreRelations.Proofs.Scanning

/-!
The spans of groups at a level in which names and symbols take turns. Every span starts and ends on
a name, covers three segments or more, and lies before the next one; so putting the groups in place
from right to left never leaves the level, and `Group.spans_wellFormed` is the whole of it.
-/

namespace GenreRelations

open Segment (tokenize)

/-- Names stand at the even places and symbols at the odd ones, and a name comes last. -/
structure Segment.TakesTurns (ss : List Segment) : Prop where
  turns : ∀ i s, ss[i]? = some s → (s.isName = true ↔ i % 2 = 0)
  last : ∃ n, ss.getLast? = some (.name n)

namespace Expression

theorem misplaced?_eq_none_iff {i : Nat} {ss : List Segment} : misplaced? i ss = none ↔
    ∀ j s, ss[j]? = some s → (s.isName = true ↔ (i + j) % 2 = 0) := by
  induction ss generalizing i with
  | nil => simp [misplaced?]
  | cons t ss ih =>
    rw [misplaced?]
    by_cases placed : t.isName = (i % 2 == 0)
    · rw [if_pos placed, ih]
      constructor
      · intro later j s stands
        cases j with
        | zero =>
          obtain rfl := Option.some.inj stands
          rw [placed, beq_iff_eq, Nat.add_zero]
        | succ j =>
          rw [later j s stands, show i + (j + 1) = i + 1 + j by omega]
      · intro all j s stands
        rw [all (j + 1) s stands, show i + (j + 1) = i + 1 + j by omega]
    · rw [if_neg placed]
      refine iff_of_false (by simp) fun all => placed ?_
      rw [Bool.eq_iff_iff, beq_iff_eq]
      exact all 0 t rfl

/-- The check of the positions accepts the segments that take turns, whatever the names are. -/
theorem checkPositions_eq_ok_iff_takesTurns {text : Text} {ss : List Segment} :
    checkPositions text ss = .ok () ↔ Segment.TakesTurns ss := by
  unfold checkPositions
  constructor
  · intro checked
    split at checked
    · cases checked
    · rename_i placed
      split at checked
      · rename_i n last
        exact ⟨by simpa using misplaced?_eq_none_iff.mp placed, n, last⟩
      · cases checked
  · rintro ⟨turns, n, last⟩
    have placed : misplaced? 0 ss = none := misplaced?_eq_none_iff.mpr (by simpa using turns)
    rw [placed, last]

end Expression

/-! ### Splices within the level -/

namespace Level

variable {A : Storage Slot}

theorem length_order_ofSegments (ss : List Segment) :
    (ofSegments ss A).order.length = ss.length := by
  have grown : ∀ l : Level A, (ss.foldl (fun l s => l.push (.segment s)) l).order.length =
      l.order.length + ss.length := by
    induction ss with
    | nil => exact fun l => rfl
    | cons s ss ih =>
      intro l
      rw [List.foldl_cons, ih, push, List.length_append, List.length_cons, List.length_cons]
      simp only [List.length_nil]
      omega
  exact (grown empty).trans (Nat.zero_add _)

/-- A splice leaves the places before its span alone. -/
theorem take_order_splice {l : Level A} {span : Span} (admits : l.Admits span) (t : Tree) {m : Nat}
    (before : m ≤ span.start) : (l.splice span t).order.take m = l.order.take m := by
  obtain ⟨ordered, within⟩ := admits
  unfold splice
  simp only
  rw [List.take_append_of_le_length, List.take_take, Nat.min_eq_left before]
  rw [List.length_take]
  omega

/-- Spans in increasing order that lie within the level do so still when their turn comes, if the
last one is replaced first. -/
theorem foldrM_splice? {l : Level A} {steps : List (Span × Tree)}
    (ordered : steps.Pairwise fun p q => p.1.stop ≤ q.1.start)
    (admits : ∀ p ∈ steps, l.Admits p.1) :
    steps.foldrM (fun p l => l.splice? p.1 p.2) l =
        some (steps.foldr (fun p l => l.splice p.1 p.2) l) ∧
      ∀ m, (∀ p ∈ steps, m ≤ p.1.start) →
        (steps.foldr (fun p l => l.splice p.1 p.2) l).order.take m = l.order.take m := by
  induction steps with
  | nil => exact ⟨rfl, fun m _ => rfl⟩
  | cons p steps ih =>
    obtain ⟨ahead, ordered⟩ := List.pairwise_cons.mp ordered
    obtain ⟨spliced, kept⟩ := ih ordered fun q member => admits q (List.mem_cons_of_mem _ member)
    obtain ⟨forward, within⟩ := admits p List.mem_cons_self
    have same := congrArg List.length (kept p.1.stop ahead)
    rw [List.length_take, List.length_take] at same
    have admitted : (steps.foldr (fun p l => l.splice p.1 p.2) l).Admits p.1 :=
      ⟨forward, by omega⟩
    constructor
    · rw [List.foldrM_cons, spliced, List.foldr_cons]
      exact if_pos admitted
    · intro m before
      have first := before p List.mem_cons_self
      rw [List.foldr_cons, take_order_splice admitted p.2 first]
      exact kept m fun q member => before q (List.mem_cons_of_mem _ member)

end Level

/-! ### Well-formed spans -/

/-- The span of a group among segments that take turns. -/
structure Span.WellFormed (ss : List Segment) (span : Span) : Prop where
  within : span.stop ≤ ss.length
  several : span.start + 3 ≤ span.stop
  even : span.start % 2 = 0 ∧ (span.stop - 1) % 2 = 0
  odd : (span.slice ss).length % 2 = 1
  opens : ∃ n, ss[span.start]? = some (.name ('(' :: n))
  ends : ∃ n, ss[span.stop - 1]? = some (.name (n ++ [')']))
  positive : ∀ k, 0 < k → k < (span.slice ss).length → 0 < Segment.balance ((span.slice ss).take k)
  closed : Segment.balance (span.slice ss) ≤ 0

theorem Span.length_slice {ss : List Segment} {span : Span} (within : span.stop ≤ ss.length) :
    (span.slice ss).length = span.stop - span.start := by
  unfold slice
  rw [List.length_take, List.length_drop]
  omega

namespace Group

variable {ss : List Segment}

theorem Recorded.wellFormed {span : Span} (turns : Segment.TakesTurns ss)
    (recorded : Recorded ss span) : span.WellFormed ss := by
  obtain ⟨-, ⟨n, opens⟩, closes, several, ⟨m, ends⟩⟩ := recorded
  have first : span.start % 2 = 0 := (turns.turns _ _ opens).mp rfl
  have last : (span.stop - 1) % 2 = 0 := (turns.turns _ _ ends).mp rfl
  have within := closes.within
  have length : (span.slice ss).length = span.stop - span.start :=
    Span.length_slice (by omega)
  refine ⟨by omega, by omega, ⟨first, last⟩, by omega, ⟨n, opens⟩, ⟨m, ends⟩, ?_, ?_⟩
  · intro k first before
    have positive := closes.positive (span.start + (k - 1)) (by omega) (by omega)
    rw [depth_add, Nat.sub_add_cancel first] at positive
    unfold Span.slice
    rwa [List.take_take, Nat.min_eq_left (by omega)]
  · have closed := closes.closed
    unfold depth at closed
    rwa [Nat.sub_add_cancel (by omega)] at closed

theorem pairwise_zip {found : List Span} (ordered : found.Pairwise fun a b => a.stop ≤ b.start)
    (groups : List Tree) : (found.zip groups).Pairwise fun p q => p.1.stop ≤ q.1.start := by
  induction found generalizing groups with
  | nil => exact .nil
  | cons a found ih =>
    cases groups with
    | nil => exact .nil
    | cons t groups =>
      obtain ⟨ahead, ordered⟩ := List.pairwise_cons.mp ordered
      exact List.pairwise_cons.mpr
        ⟨fun q member => ahead q.1 (List.of_mem_zip member).1, ih ordered groups⟩

theorem parseLevel_of_firstUnclosed {i : Nat} (several : 1 < (Expression.relationsOf ss).length)
    (first : FirstUnclosed ss i) (text : Text) :
    Tree.parseLevel text ss = .error (.malformed text (.unclosed i)) := by
  obtain ⟨r, q, rest, relations⟩ := Expression.exists_relations several
  exact Expression.parseLevel_of_unclosed relations (spans_eq_error_iff.mpr first)

/-- Where names and symbols take turns, the scan records just the groups at the places that it
reaches, as well-formed spans in increasing order that do not overlap, and putting groups in their
place stays within the level. It fails just if a parenthesis that it reaches is not closed, and
reports the first one, which a level that mixes operators passes on. -/
theorem spans_wellFormed (turns : Segment.TakesTurns ss) :
    (∀ found, spans 0 ss = .ok found →
      (∀ span, span ∈ found ↔ Recorded ss span) ∧
      (∀ span ∈ found, span.WellFormed ss) ∧
      found.Pairwise (fun a b => a.stop ≤ b.start) ∧
      ∀ (A : Storage Slot) (groups : List Tree),
        (found.zip groups).foldrM (fun p l => l.splice? p.1 p.2) (Level.ofSegments ss A) =
          some (Expression.spliced ss found groups A)) ∧
    (∀ i, spans 0 ss = .error i ↔ FirstUnclosed ss i) ∧
    ((∃ i, spans 0 ss = .error i) ↔ ∃ i, Reached ss i ∧ Unclosed ss i) ∧
    ∀ text i, 1 < (Expression.relationsOf ss).length → FirstUnclosed ss i →
      Tree.parseLevel text ss = .error (.malformed text (.unclosed i)) := by
  refine ⟨fun found scan => ?_, fun i => spans_eq_error_iff, exists_spans_eq_error_iff,
    fun text i several first => parseLevel_of_firstUnclosed several first text⟩
  have wellFormed : ∀ span ∈ found, span.WellFormed ss := fun span member =>
    ((mem_spans_iff scan).mp member).wellFormed turns
  have ordered := (sound_of_spans scan).ordered
  refine ⟨fun span => mem_spans_iff scan, wellFormed, ordered, fun A groups => ?_⟩
  refine (Level.foldrM_splice? (pairwise_zip ordered groups) fun p member => ?_).1
  have span := wellFormed p.1 (List.of_mem_zip member).1
  have several := span.several
  exact ⟨by omega, Level.length_order_ofSegments ss ▸ span.within⟩

/-- Two groups with a name in parentheses between them, and a group behind which nothing closes. -/
theorem spans_wellFormed_between :
    let ss := tokenize "(A | B) > (C) > (D ~ E)".toList
    let us := tokenize "(A | B) > (C ~ D".toList
    Span.WellFormed ss ⟨0, 3⟩ ∧ Span.WellFormed ss ⟨6, 9⟩ ∧ ¬ Recorded ss ⟨4, 5⟩ ∧
    (∀ t u : Tree, [((⟨0, 3⟩ : Span), t), (⟨6, 9⟩, u)].foldrM (fun p l => l.splice? p.1 p.2)
      (Level.ofSegments ss) = some (Expression.spliced ss [⟨0, 3⟩, ⟨6, 9⟩] [t, u])) ∧
    FirstUnclosed us 4 ∧ Tree.parseLevel [] us = .error (.malformed [] (.unclosed 4)) := by
  intro ss us
  have scan : spans 0 (tokenize "(A | B) > (C) > (D ~ E)".toList) = .ok [⟨0, 3⟩, ⟨6, 9⟩] :=
    Scan.spans_of_run (by rfl)
  have failed : spans 0 (tokenize "(A | B) > (C ~ D".toList) = .error 4 :=
    Scan.spans_of_run (by rfl)
  have turns : ∀ vs, Expression.checkPositions [] vs = .ok () → Segment.TakesTurns vs :=
    fun vs checked => Expression.checkPositions_eq_ok_iff_takesTurns.mp checked
  obtain ⟨recorded, wellFormed, -, within⟩ :=
    (spans_wellFormed (turns (tokenize "(A | B) > (C) > (D ~ E)".toList) (by rfl))).1 _ scan
  obtain ⟨-, reports, -, passesOn⟩ :=
    spans_wellFormed (turns (tokenize "(A | B) > (C ~ D".toList) (by rfl))
  have first : FirstUnclosed us 4 := (reports 4).mp failed
  refine ⟨wellFormed _ (by simp), wellFormed _ (by simp), ?_, fun t u => ?_, first, ?_⟩
  · exact mt (recorded ⟨4, 5⟩).mpr (by decide)
  · exact within Arena.storage [t, u]
  · exact passesOn [] 4 (by decide) first

end Group

end GenreRelations
