import GenreRelations.Proofs.Parentheses
import GenreRelations.Proofs.Parsing
import GenreRelations.Proofs.Pieces

/-!
Which parentheses a group stands in. The scan counts a segment at a time and stops once the balance
is no longer positive. So the last name of a group may close more than is open, as in
`(A | B)) > C`, and a name within may close the first parenthesis and open another, as in
`(A) (B | C) > D`. `Group.IsRun.matched_iff` says that nothing else keeps the outer parentheses of a
group from being partners.
-/

namespace GenreRelations

open Segment (Stays join tokenize)

/-- The first character and the last are partners: the balance is positive from the one until the
other, which brings it to zero. -/
structure Text.Matched (s : Text) : Prop where
  within : ∀ p q : Text, s = p ++ q → p ≠ [] → q ≠ [] → 0 < p.balance
  closed : s.balance = 0

theorem Text.matched_iff_take {s : Text} :
    s.Matched ↔ (∀ k < s.length, 0 < k → 0 < Text.balance (s.take k)) ∧ s.balance = 0 := by
  constructor
  · rintro ⟨within, closed⟩
    refine ⟨fun k below positive => within (s.take k) (s.drop k) (by simp) ?_ ?_, closed⟩
    · simpa [List.take_eq_nil_iff] using
        And.intro (Nat.ne_of_gt positive) (List.length_pos_iff.mp (by omega))
    · simpa using below
  · rintro ⟨within, closed⟩
    refine ⟨?_, closed⟩
    rintro p q rfl first last
    have shorter : p.length < (p ++ q).length := by
      simpa using List.length_pos_iff.mpr last
    have inner := within p.length shorter (List.length_pos_iff.mpr first)
    rwa [List.take_left] at inner

instance (s : Text) : Decidable s.Matched := decidable_of_iff _ Text.matched_iff_take.symm

namespace Segment

/-! ### Balance of the text of segments -/

theorem balance_join (ss : List Segment) : (join ss).balance = balance ss := by
  induction ss with
  | nil => rfl
  | cons s ss ih =>
    by_cases last : ss = []
    · subst last
      simp [join, Text.unwords_singleton, balance]
    · rw [join_cons s last, Text.balance_append, Text.balance_space, ih, balance]

theorem exists_join_append (front : List Segment) (s : Segment) (back : List Segment) :
    ∃ u v, join (front ++ s :: back) = u ++ (s.text ++ v) ∧ u.balance = balance front := by
  induction front with
  | nil =>
    cases back with
    | nil => exact ⟨[], [], by simp [join, Text.unwords_singleton], rfl⟩
    | cons t back => exact ⟨[], ' ' :: join (t :: back), join_cons s (by simp), rfl⟩
  | cons t front ih =>
    obtain ⟨u, v, written, before⟩ := ih
    refine ⟨t.text ++ ' ' :: u, v, ?_, ?_⟩
    · rw [List.cons_append, join_cons t (by simp), written]
      simp
    · rw [Text.balance_append, Text.balance_space, before, balance]

/-- The balance stays positive over a text if it does so segment by segment and within each. -/
theorem positive_of_split {d : Int} {ss : List Segment} (stays : Stays d ss.dropLast)
    (within : ∀ front s back, ss = front ++ s :: back → ∀ p q : Text, s.text = p ++ q → p ≠ [] →
      q ≠ [] → 0 < d + balance front + p.balance)
    {p q : Text} (split : join ss = p ++ q) (first : p ≠ []) (last : q ≠ []) :
    0 < d + p.balance := by
  induction ss generalizing d p with
  | nil => exact absurd (List.append_eq_nil_iff.mp split.symm).1 first
  | cons s ss ih =>
    have own : ∀ p q : Text, s.text = p ++ q → p ≠ [] → q ≠ [] → 0 < d + p.balance := by
      intro p q parts hp hq
      have inner := within [] s ss rfl p q parts hp hq
      rw [balance] at inner
      omega
    by_cases alone : ss = []
    · subst alone
      exact own p q ((Text.unwords_singleton s.text).symm.trans split) first last
    · rw [List.dropLast_cons_of_ne_nil alone] at stays
      obtain ⟨here, later⟩ := stays
      rw [join_cons s alone] at split
      rcases List.append_eq_append_iff.mp split with ⟨r, rfl, rest⟩ | ⟨r, parts, rfl⟩
      · -- the cut is behind the segment: before the space, behind it, or further on
        rcases r with _ | ⟨c, r⟩
        · rwa [List.append_nil]
        · obtain ⟨rfl, later_split⟩ := List.cons.inj rest
          rw [Text.balance_append, Text.balance_space]
          by_cases start : r = []
          · subst start
            simpa [Text.balance] using here
          · have behind : ∀ front t back, ss = front ++ t :: back → ∀ u v : Text, t.text = u ++ v →
                u ≠ [] → v ≠ [] → 0 < d + s.text.balance + balance front + u.balance := by
              intro front t back same u v parts hu hv
              have inner := within (s :: front) t back (congrArg (s :: ·) same) u v parts hu hv
              rw [balance] at inner
              omega
            have more := ih later behind later_split start
            omega
      · by_cases start : r = []
        · subst start
          rw [List.append_nil] at parts
          rwa [← parts]
        · exact own p r parts first start

theorem balance_of_symbol_split {s : Symbol} {p q : Text} (parts : (symbol s).text = p ++ q) :
    p.balance = 0 := by
  have plain : '(' ∉ (symbol s).text ∧ ')' ∉ (symbol s).text := by
    rcases s with r | r <;> cases r <;> decide
  rw [parts, List.mem_append, List.mem_append] at plain
  exact Text.balance_of_plain (fun isIn => plain.1 (.inl isIn)) fun isIn => plain.2 (.inl isIn)

end Segment

namespace Group

theorem isRun_slice {ss : List Segment} {found : List Span} (scan : spans 0 ss = .ok found)
    {span : Span} (member : span ∈ found) : IsRun (span.slice ss) := by
  have trees : (found.map fun _ => Tree.leaf []).length = found.length := by simp
  obtain ⟨ps, rfl, rfl, -, runs⟩ := Part.exists_parts scan trees
  have slices := Part.slice_spans ps []
  rw [List.nil_append, List.length_nil] at slices
  have isIn : span.slice (ps.flatMap Part.segments) ∈ (Part.groups ps).map Prod.fst :=
    slices ▸ List.mem_map.mpr ⟨span, member, rfl⟩
  obtain ⟨⟨g, t⟩, listed, same⟩ := List.mem_map.mp isIn
  rw [← same]
  exact runs g t (Part.mem_groups.mp listed)

namespace IsRun

variable {g : List Segment} (run : IsRun g)

include run

/-- Something is open behind every segment of a run but the last. -/
theorem positive {front back : List Segment} (parts : g = front ++ back) (first : front ≠ [])
    (last : back ≠ []) : 0 < Segment.balance front := by
  have stays := run.stays
  rw [parts, List.dropLast_append_of_ne_nil last, Segment.stays_append] at stays
  have ending := ((Segment.stays_iff_dropLast first).mp stays.1).2
  omega

theorem front_ne_nil {front back : List Segment} {s : Symbol}
    (parts : g = front ++ .symbol s :: back) : front ≠ [] := by
  rintro rfl
  obtain ⟨n, ms, m, rfl⟩ := run.enclosed.names
  simp at parts

/-- The outer parentheses of a run are partners if the run balances and none of its names closes
all that is open before it ends. -/
theorem matched_iff : (join g).Matched ↔ (join g).balance = 0 ∧
    ∀ front n back, g = front ++ .name n :: back → ∀ p q : Text, n = p ++ q → p ≠ [] → q ≠ [] →
      0 < (join front).balance + p.balance := by
  constructor
  · rintro ⟨within, closed⟩
    refine ⟨closed, ?_⟩
    rintro front n back parts p q rfl first last
    obtain ⟨u, v, written, before⟩ := Segment.exists_join_append front (.name (p ++ q)) back
    have positive := within (u ++ p) (q ++ v) (by simp [parts, written, Segment.text])
      (by simp [first]) (by simp [last])
    rwa [Text.balance_append, before, ← Segment.balance_join] at positive
  · rintro ⟨closed, names⟩
    refine ⟨fun p q split first last => ?_, closed⟩
    have stays : Stays 0 g.dropLast := run.stays
    rw [← Int.zero_add p.balance]
    refine Segment.positive_of_split stays ?_ split first last
    intro front s back parts u v own hu hv
    rw [Int.zero_add]
    cases s with
    | name n =>
      rw [← Segment.balance_join]
      exact names front n back parts u v own hu hv
    | symbol s =>
      have before := run.positive parts (run.front_ne_nil parts) (by simp)
      rwa [Segment.balance_of_symbol_split own, Int.add_zero]

end IsRun

/-- A group is its inside in parentheses, and these are partners just if they balance and no name
of the group closes all that is open before it ends. -/
theorem matched_of_spans {ss : List Segment} {found : List Span} (scan : spans 0 ss = .ok found)
    {span : Span} (member : span ∈ found) :
    let g := span.slice ss
    join g = '(' :: inner g ++ [')'] ∧
    (∀ front back, g = front ++ back → front ≠ [] → back ≠ [] → 0 < (join front).balance) ∧
    (join g).balance ≤ 0 ∧
    ((join g).Matched ↔ (join g).balance = 0 ∧
      ∀ front n back, g = front ++ .name n :: back → ∀ p q : Text, n = p ++ q → p ≠ [] → q ≠ [] →
        0 < (join front).balance + p.balance) := by
  intro g
  have run : IsRun g := isRun_slice scan member
  refine ⟨join_enclosed run.enclosed, ?_, ?_, run.matched_iff⟩
  · intro front back parts first last
    rw [Segment.balance_join]
    exact run.positive parts first last
  · rw [Segment.balance_join]
    exact run.closed

theorem matched_of_spans_pair :
    (join [.name "(A".toList, .symbol (.operator .blend), .name "B)".toList]).Matched ∧
    ∀ p q : Text, "B)".toList = p ++ q → p ≠ [] → q ≠ [] → 0 < 1 + p.balance := by
  have run : IsRun (tokenize "(A | B)".toList) := by decide
  have scan : spans 0 (tokenize "(A | B) > C".toList) = .ok [⟨0, 3⟩] :=
    @IsRun.spans _ [.symbol (.operator .derive), .name ['C']] run 0 [] (by simp [spans, opens])
  have enclosed := (matched_of_spans scan (List.mem_singleton_self _)).2.2.2
  have partners : (join [.name "(A".toList, .symbol (.operator .blend),
      .name "B)".toList]).Matched := by decide
  refine ⟨partners, fun p q => ?_⟩
  exact (enclosed.mp partners).2 [.name "(A".toList, .symbol (.operator .blend)] _ [] rfl p q

/-- A group whose last name closes more than is open, and a group of two pairs side by side. -/
theorem not_matched_of_spans :
    (Segment.Alternating (tokenize "(A | B)) > C".toList) ∧
      spans 0 (tokenize "(A | B)) > C".toList) = .ok [⟨0, 3⟩] ∧
      ¬ (join (Span.slice ⟨0, 3⟩ (tokenize "(A | B)) > C".toList))).Matched ∧
      Tree.parse "(A | B)) > C".toList = .ok (.sequence [.tree (.chain .blend
        [.leaf "A".toList, .leaf "B)".toList]), .symbol .derive, .tree (.leaf "C".toList)])) ∧
    Segment.Alternating (tokenize "(A) (B | C) > D".toList) ∧
      spans 0 (tokenize "(A) (B | C) > D".toList) = .ok [⟨0, 3⟩] ∧
      ¬ (join (Span.slice ⟨0, 3⟩ (tokenize "(A) (B | C) > D".toList))).Matched ∧
      Tree.parse "(A) (B | C) > D".toList = .ok (.sequence [.tree (.chain .blend
        [.leaf "A) (B".toList, .leaf "C".toList]), .symbol .derive, .tree (.leaf "D".toList)]) := by
  have alternating : ∀ s : Text, Expression.checkPositions s (tokenize s) = .ok () →
      Segment.Alternating (tokenize s) :=
    fun s placed => (Expression.checkPositions_eq_ok_iff (Segment.proper_tokenize s)).mp placed
  have closesMore : IsRun (tokenize "(A | B))".toList) := by decide
  have scan : spans 0 (tokenize "(A | B)) > C".toList) = .ok [⟨0, 3⟩] :=
    @IsRun.spans _ [.symbol (.operator .derive), .name ['C']] closesMore 0 []
      (by simp [spans, opens])
  have sideBySide : IsRun (tokenize "(A) (B | C)".toList) := by decide
  have pairs : spans 0 (tokenize "(A) (B | C) > D".toList) = .ok [⟨0, 3⟩] :=
    @IsRun.spans _ [.symbol (.operator .derive), .name ['D']] sideBySide 0 []
      (by simp [spans, opens])
  refine ⟨⟨alternating _ (by rfl), scan, by decide, ?_⟩,
    alternating _ (by rfl), pairs, by decide, ?_⟩
  · exact Expression.parse_of_spans _ [.chain .blend [.leaf "A".toList, .leaf "B)".toList]]
      (by decide) (by rfl) (by decide) scan (by cbv) (by rfl)
  · exact Expression.parse_of_spans _ [.chain .blend [.leaf "A) (B".toList, .leaf "C".toList]]
      (by decide) (by rfl) (by decide) pairs (by cbv) (by rfl)

end Group

end GenreRelations
