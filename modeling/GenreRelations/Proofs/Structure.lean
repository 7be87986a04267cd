import GenreRelations.Proofs.Compositional

/-!
Faults of structure. Dividers of two kinds are reported before anything else, then the first symbol
where a name has to stand, and only then is a level looked into. `Tree.parse_structure` says which
fault is found and that no other text reports it; a text without a word is the only one to hold no
genre, and no text lacks a relation.
-/

namespace GenreRelations

open Segment (Alternating IsLevel Proper tokenize)

namespace Segment

/-- Dividers of two kinds occur. -/
def MixesDividers (ss : List Segment) : Prop :=
  ∃ r q, .symbol (.divider r) ∈ ss ∧ .symbol (.divider q) ∈ ss ∧ r ≠ q

/-- The first divider is of one kind, and the first divider of another kind is of the other. -/
def FirstDividers (ss : List Segment) (first second : Relation) : Prop :=
  ∃ front middle back,
    ss = front ++ .symbol (.divider first) :: (middle ++ .symbol (.divider second) :: back) ∧
    (∀ s ∈ front, s.isDivider = false) ∧ (∀ r, .symbol (.divider r) ∈ middle → r = first) ∧
    second ≠ first

/-- A symbol stands where a name has to: at an even place, or at the end. -/
def Misplaced (ss : List Segment) (i : Nat) : Prop :=
  (∃ s, ss[i]? = some (.symbol s)) ∧ (i % 2 = 0 ∨ i + 1 = ss.length)

/-- The first place with a symbol where a name has to stand. -/
def FirstMisplaced (ss : List Segment) (i : Nat) : Prop :=
  Misplaced ss i ∧ ∀ j < i, ¬ Misplaced ss j

theorem FirstDividers.mixesDividers {ss : List Segment} {first second : Relation}
    (firsts : FirstDividers ss first second) : MixesDividers ss := by
  obtain ⟨front, middle, back, rfl, -, -, differ⟩ := firsts
  exact ⟨first, second, by simp, by simp, differ.symm⟩

theorem not_misplaced_zero {n : Text} {ss : List Segment} : ¬ Misplaced (.name n :: ss) 0 := by
  rintro ⟨⟨s, stands⟩, -⟩
  simp at stands

theorem misplaced_one {n : Text} {s : Symbol} {ss : List Segment} :
    Misplaced (.name n :: .symbol s :: ss) 1 ↔ ss = [] := by
  simp [Misplaced]

theorem misplaced_add_two {n : Text} {s : Symbol} {ss : List Segment} {i : Nat} :
    Misplaced (.name n :: .symbol s :: ss) (i + 2) ↔ Misplaced ss i := by
  simp [Misplaced]

/-- A name and a symbol in front move every fault by two places. -/
theorem FirstMisplaced.add_two {n : Text} {s : Symbol} {ss : List Segment} {i : Nat}
    (first : FirstMisplaced ss i) (nonempty : ss ≠ []) :
    FirstMisplaced (.name n :: .symbol s :: ss) (i + 2) := by
  refine ⟨misplaced_add_two.mpr first.1, ?_⟩
  intro j before
  match j with
  | 0 => exact not_misplaced_zero
  | 1 => exact fun here => nonempty (misplaced_one.mp here)
  | j + 2 => exact fun here => first.2 j (by omega) (misplaced_add_two.mp here)

theorem not_misplaced_of_alternating {ss : List Segment} (alternating : Alternating ss) (i : Nat) :
    ¬ Misplaced ss i := by
  induction alternating generalizing i with
  | name =>
    rintro ⟨⟨s, stands⟩, -⟩
    cases i <;> simp at stands
  | cons name rest ih =>
    match i with
    | 0 => exact not_misplaced_zero
    | 1 => exact fun here => rest.ne_nil (misplaced_one.mp here)
    | i + 2 => exact fun here => ih i (misplaced_add_two.mp here)

end Segment

namespace Expression

open Segment (FirstDividers FirstMisplaced Misplaced MixesDividers)

/-! ### Dividers -/

theorem firstDividers_of_dividerOf {text : Text} {ss : List Segment} {e : ParseError}
    (failed : dividerOf text ss = .error e) :
    ∃ first second, FirstDividers ss first second ∧ e = .ambiguousDividers text first second := by
  unfold dividerOf at failed
  split at failed
  · simp at failed
  · rename_i first rest kinds
    split at failed
    · simp at failed
    · rename_i second found
      refine ⟨first, second, ?_, (Except.error.inj failed).symm⟩
      obtain ⟨front, s, behind, rfl, before, isFirst, later⟩ := List.filterMap_eq_cons_iff.mp kinds
      obtain ⟨differs, same, more, rfl, agree⟩ := List.find?_eq_some_iff_append.mp found
      obtain ⟨near, far, rfl, nearKinds, farKinds⟩ := List.filterMap_eq_append_iff.mp later
      obtain ⟨plain, t, back, rfl, without, isSecond, -⟩ := List.filterMap_eq_cons_iff.mp farKinds
      obtain rfl := divider?_eq_some_iff.mp isFirst
      obtain rfl := divider?_eq_some_iff.mp isSecond
      refine ⟨front, near ++ plain, back, by simp, ?_, ?_, by simpa using differs⟩
      · exact fun s member => divider?_eq_none_iff.mp (before s member)
      · intro r member
        rcases List.mem_append.mp member with member | member
        · have kind := mem_filterMap_divider?.mpr member
          rw [nearKinds] at kind
          simpa using agree r kind
        · exact absurd (without _ member) (by simp [divider?])

/-- The check of the dividers accepts what holds one kind of them at most. -/
theorem exists_dividerOf_iff {text : Text} {ss : List Segment} :
    (∃ found, dividerOf text ss = .ok found) ↔ ¬ MixesDividers ss := by
  constructor
  · rintro ⟨found, accepted⟩ ⟨r, q, first, second, differ⟩
    cases found with
    | none =>
      have plain := dividerOf_eq_ok_none_iff.mp accepted _ first
      simp [Segment.isDivider] at plain
    | some d =>
      have kind := dividerOf_eq_ok_some_iff.mp accepted
      exact differ (((kind r).mp first).trans ((kind q).mp second).symm)
  · intro unmixed
    cases checked : dividerOf text ss with
    | ok found => exact ⟨found, rfl⟩
    | error e =>
      obtain ⟨first, second, firsts, -⟩ := firstDividers_of_dividerOf checked
      exact absurd firsts.mixesDividers unmixed

/-! ### Positions -/

theorem firstMisplaced_of_misplaced? {ss : List Segment} (proper : Proper ss) {i k : Nat}
    (even : i % 2 = 0) (found : misplaced? i ss = some k) :
    ∃ j, k = i + j ∧ FirstMisplaced ss j := by
  have odd : (i + 1) % 2 = 1 := by omega
  match ss with
  | [] => simp [misplaced?] at found
  | .symbol s :: ss =>
    obtain rfl : i = k := by simpa [misplaced?, Segment.isName, even] using found
    exact ⟨0, rfl, ⟨⟨s, rfl⟩, .inl rfl⟩, by simp⟩
  | [.name n] => simp [misplaced?, Segment.isName, even] at found
  | .name n :: .name m :: ss => exact absurd rfl (proper.2.1 m ss)
  | .name n :: .symbol s :: ss =>
    have later : misplaced? (i + 1 + 1) ss = some k := by
      simpa [misplaced?, Segment.isName, even, odd] using found
    have nonempty : ss ≠ [] := by
      rintro rfl
      simp [misplaced?] at later
    have rest : Proper ss := proper.2.2
    obtain ⟨j, rfl, first⟩ := firstMisplaced_of_misplaced? rest (by omega) later
    exact ⟨j + 2, by omega, FirstMisplaced.add_two first nonempty⟩

theorem firstMisplaced_of_last {ss : List Segment} (proper : Proper ss) {i : Nat}
    (even : i % 2 = 0) (placed : misplaced? i ss = none) {s : Symbol}
    (last : ss.getLast? = some (.symbol s)) : FirstMisplaced ss (ss.length - 1) := by
  have odd : (i + 1) % 2 = 1 := by omega
  match ss with
  | [] => simp at last
  | .symbol s :: ss => simp [misplaced?, Segment.isName, even] at placed
  | [.name n] => simp at last
  | .name n :: .name m :: ss => exact absurd rfl (proper.2.1 m ss)
  | [.name n, .symbol s] =>
    refine ⟨Segment.misplaced_one.mpr rfl, fun j before => ?_⟩
    obtain rfl : j = 0 := by simpa using before
    exact Segment.not_misplaced_zero
  | .name n :: .symbol s :: t :: ss =>
    have later : misplaced? (i + 1 + 1) (t :: ss) = none := by
      rw [misplaced?, if_pos (by simp [Segment.isName, even]), misplaced?,
        if_pos (by simp [Segment.isName, odd])] at placed
      exact placed
    have rest : Proper (t :: ss) := proper.2.2
    have first := firstMisplaced_of_last rest (by omega) later (by simpa using last)
    exact FirstMisplaced.add_two first (by simp)

theorem firstMisplaced_of_checkPositions {text : Text} {ss : List Segment} (proper : Proper ss)
    (nonempty : ss ≠ []) {e : ParseError} (failed : checkPositions text ss = .error e) :
    ∃ i, FirstMisplaced ss i ∧ e = .misplacedOperator text i := by
  unfold checkPositions at failed
  split at failed
  · rename_i k found
    obtain ⟨i, rfl, first⟩ := firstMisplaced_of_misplaced? proper rfl found
    rw [Nat.zero_add] at failed
    exact ⟨i, first, (Except.error.inj failed).symm⟩
  · rename_i placed
    split at failed
    · simp at failed
    · rename_i last
      refine ⟨_, ?_, (Except.error.inj failed).symm⟩
      cases ending : ss.getLast? with
      | none => exact absurd (List.getLast?_eq_none_iff.mp ending) nonempty
      | some t =>
        cases t with
        | name n => exact absurd ending (last n)
        | symbol s => exact firstMisplaced_of_last proper rfl placed ending

/-- The check of the positions accepts what has no symbol where a name has to stand. -/
theorem alternating_iff {ss : List Segment} (proper : Proper ss) (nonempty : ss ≠ []) :
    Alternating ss ↔ ∀ i, ¬ Misplaced ss i := by
  constructor
  · exact Segment.not_misplaced_of_alternating
  · intro placed
    cases checked : checkPositions [] ss with
    | ok u => exact (checkPositions_eq_ok_iff proper).mp checked
    | error e =>
      obtain ⟨i, first, -⟩ := firstMisplaced_of_checkPositions proper nonempty checked
      exact absurd first.1 (placed i)

/-! ### Levels -/

/-- What can be wrong with a level itself, its groups apart. -/
inductive LevelFault (text : Text) : ParseError → Prop
  | grouping : LevelFault text (.ambiguousGrouping text)
  | unclosed (i : Nat) : LevelFault text (.malformed text (.unclosed i))
  | unbalanced (n : Text) : LevelFault text (.malformed text (.unbalanced n))

theorem levelFault_of_elementOf {text : Text} {slot : Slot} {e : ParseError}
    (failed : elementOf text slot = .error e) : LevelFault text e := by
  unfold elementOf at failed
  split at failed
  · simp at failed
  · simp at failed
  · rename_i n
    split at failed
    · simp at failed
    · exact Except.error.inj failed ▸ .unbalanced n

theorem levelFault_of_assemble {text : Text} {slots : List Slot} {e : ParseError}
    (failed : assemble text slots = .error e) : LevelFault text e := by
  unfold assemble at failed
  cases read : slots.mapM (elementOf text) with
  | error d =>
    obtain rfl : d = e := by simpa [read, bind, Except.bind] using failed
    obtain ⟨-, slot, -, -, -, here⟩ := mapM_eq_error_iff.mp read
    exact levelFault_of_elementOf here
  | ok es =>
    simp only [read, bind, Except.bind] at failed
    split at failed
    · simp [pure, Except.pure] at failed
    · split at failed
      · exact Except.error.inj failed ▸ .grouping
      · simp [pure, Except.pure] at failed

/-- An alternation without symbols is one name. -/
theorem exists_name_of_relationsOf {ss : List Segment} (alternating : Alternating ss)
    (relations : relationsOf ss = []) : ∃ n, ss = [.name n] := by
  cases alternating with
  | @name n => exact ⟨n, rfl⟩
  | @cons n s rest =>
    have listed : s.relation ∈ relationsOf (.name n :: .symbol s :: rest) :=
      mem_relationsOf.mpr ⟨s, by simp, rfl⟩
    rw [relations] at listed
    exact absurd listed (List.not_mem_nil)

/-- A level of names and symbols in turn fails by one of its own faults, or as a group in it does. -/
theorem levelFault_of_parseLevel {text : Text} {ss : List Segment} {e : ParseError}
    (alternating : Alternating ss) (failed : Tree.parseLevel text ss = .error e) :
    LevelFault text e ∨
      ∃ g, g <:+: ss ∧ Group.Enclosed g ∧ Tree.parse (Group.inner g) = .error e := by
  rw [Tree.parseLevel_eq] at failed
  cases relations : relationsOf ss with
  | nil =>
    obtain ⟨n, rfl⟩ := exists_name_of_relationsOf alternating relations
    simp [relations, namesOf, Segment.name?] at failed
  | cons r rest =>
    cases rest with
    | nil => simp [relations] at failed
    | cons q rest =>
      simp only [relations] at failed
      cases scan : Group.spans 0 ss with
      | error i =>
        simp only [scan] at failed
        exact .inl (Except.error.inj failed ▸ .unclosed i)
      | ok found =>
        simp only [scan] at failed
        cases groups : found.mapM fun span => Tree.parse (Group.inner (span.slice ss)) with
        | error d =>
          obtain rfl : d = e := by simpa [groups, bind, Except.bind] using failed
          exact .inr (exists_failed_group scan groups)
        | ok ts =>
          simp only [groups, bind, Except.bind] at failed
          exact .inl (levelFault_of_assemble failed)

/-! ### The whole text -/

section

variable {text : Text} {s : Symbol} {e : ParseError} (symbol : .symbol s ∈ tokenize text)

include symbol

theorem parse_of_mixesDividers (mixed : MixesDividers (tokenize text)) :
    ∃ first second, FirstDividers (tokenize text) first second ∧
      Tree.parse text = .error (.ambiguousDividers text first second) := by
  cases divider : dividerOf text (tokenize text) with
  | ok found => exact absurd mixed (exists_dividerOf_iff.mp ⟨found, divider⟩)
  | error e =>
    obtain ⟨first, second, firsts, rfl⟩ := firstDividers_of_dividerOf divider
    refine ⟨first, second, firsts, ?_⟩
    rw [parse_of_symbol symbol, divider]
    rfl

theorem parse_of_misplaced (unmixed : ¬ MixesDividers (tokenize text))
    (misplaced : ∃ i, Misplaced (tokenize text) i) :
    ∃ i, FirstMisplaced (tokenize text) i ∧
      Tree.parse text = .error (.misplacedOperator text i) := by
  have proper := Segment.proper_tokenize text
  have nonempty : tokenize text ≠ [] := List.ne_nil_of_mem symbol
  obtain ⟨found, divider⟩ := exists_dividerOf_iff.mpr unmixed
  cases placed : checkPositions text (tokenize text) with
  | ok u =>
    obtain ⟨i, here⟩ := misplaced
    have alternating := (checkPositions_eq_ok_iff proper).mp placed
    exact absurd here (Segment.not_misplaced_of_alternating alternating i)
  | error e =>
    obtain ⟨i, first, rfl⟩ := firstMisplaced_of_checkPositions proper nonempty placed
    refine ⟨i, first, ?_⟩
    rw [parse_of_symbol symbol, divider, placed]
    rfl

/-- Past the two checks, what a text reports of itself is a fault of one of its levels. -/
theorem levelFault_of_parse (unmixed : ¬ MixesDividers (tokenize text))
    (noneMisplaced : ∀ i, ¬ Misplaced (tokenize text) i) (failed : Tree.parse text = .error e)
    (own : e.text = text) : LevelFault text e := by
  have proper := Segment.proper_tokenize text
  have alternating := (alternating_iff proper (List.ne_nil_of_mem symbol)).mpr noneMisplaced
  have placed : checkPositions text (tokenize text) = .ok () :=
    (checkPositions_eq_ok_iff proper).mpr alternating
  obtain ⟨found, divider⟩ : ∃ found, dividerOf text (tokenize text) = .ok found :=
    exists_dividerOf_iff.mpr unmixed
  -- a group in a level cannot have raised the error, which carries the whole text
  have fault : ∀ ss, ss <:+: tokenize text → Alternating ss →
      Tree.parseLevel text ss = .error e → LevelFault text e := by
    intro ss piece turns fails
    rcases levelFault_of_parseLevel turns fails with here | ⟨g, inside, enclosed, inner⟩
    · exact here
    · have heavy := Nat.le_of_eq (Segment.weight_tokenize text)
      exact absurd own (text_ne_of_group heavy (inside.trans piece) enclosed inner)
  cases found with
  | none =>
    have level : IsLevel (tokenize text) := ⟨alternating, dividerOf_eq_ok_none_iff.mp divider⟩
    rw [parse_eq_parseLevel level (alternating.several symbol)] at failed
    exact fault _ (List.infix_refl _) alternating failed
  | some d =>
    have kind := dividerOf_eq_ok_some_iff.mp divider
    rw [parse_eq_parseLevels kind placed] at failed
    cases trees : (levelsOf text).mapM (Tree.parseLevel text) with
    | ok ts => simp [trees, bind, Except.bind] at failed
    | error c =>
      obtain rfl : c = e := by simpa [trees, bind, Except.bind] using failed
      obtain ⟨front, ss, back, parts, -, here⟩ := mapM_eq_error_iff.mp trees
      have member : ss ∈ levelsOf text := by simp [parts]
      have level := isLevel_of_mem_levelsOf kind placed member
      exact fault ss (piece_of_mem_splitOnP member) level.alternating here

/-- What makes a text with a symbol malformed is a parenthesis. -/
theorem malformation_of_symbol {why : Malformation}
    (failed : Tree.parse text = .error (.malformed text why)) :
    (∃ i, why = .unclosed i) ∨ ∃ n, why = .unbalanced n := by
  by_cases mixed : MixesDividers (tokenize text)
  · obtain ⟨first, second, -, other⟩ := parse_of_mixesDividers symbol mixed
    simp [other] at failed
  · by_cases misplaced : ∃ i, Misplaced (tokenize text) i
    · obtain ⟨i, -, other⟩ := parse_of_misplaced symbol mixed misplaced
      simp [other] at failed
    · have fault := levelFault_of_parse symbol mixed (not_exists.mp misplaced) failed rfl
      cases fault with
      | unclosed i => exact .inl ⟨i, rfl⟩
      | unbalanced n => exact .inr ⟨n, rfl⟩

end

/-! ### Texts without a symbol -/

theorem exists_symbol_of_enclosed {g : List Segment} (proper : Proper g)
    (enclosed : Group.Enclosed g) : ∃ s, .symbol s ∈ g := by
  obtain ⟨n, ms, m, rfl⟩ := enclosed.names
  match ms with
  | [] => exact absurd rfl (proper.2.1 _ [])
  | .name u :: ms => exact absurd rfl (proper.2.1 u _)
  | .symbol s :: ms => exact ⟨s, by simp⟩

/-- The text of an error is the whole text, or the inside of a group, which has a symbol. -/
theorem symbol_of_failure {text : Text} {e : ParseError} (failed : Tree.parse text = .error e) :
    e.text = text ∨ ∃ s, .symbol s ∈ tokenize e.text := by
  refine induction_on_failure ?_ ?_ failed
  · exact fun _ => .inl rfl
  · intro text g piece enclosed _ ih
    refine .inr ?_
    rcases ih with here | deeper
    · obtain ⟨s, symbol⟩ :=
        exists_symbol_of_enclosed ((Segment.proper_tokenize text).of_piece piece) enclosed
      rw [here]
      exact ⟨s, symbol_mem_inside enclosed symbol⟩
    · exact deeper

/-- What is malformed for no parenthesis is a blank text. -/
theorem blank_of_malformed {text u : Text} {why : Malformation}
    (failed : Tree.parse text = .error (.malformed u why)) (closed : ∀ i, why ≠ .unclosed i)
    (balanced : ∀ n, why ≠ .unbalanced n) : u = text ∧ why = .noGenre ∧ tokenize text = [] := by
  have again : Tree.parse u = .error (.malformed u why) := Tree.parse_text_of_failure failed
  have names : ∀ s, .symbol s ∉ tokenize u := by
    intro s symbol
    rcases malformation_of_symbol symbol again with ⟨i, here⟩ | ⟨n, here⟩
    · exact closed i here
    · exact balanced n here
  obtain rfl : u = text := by
    rcases symbol_of_failure failed with here | ⟨s, symbol⟩
    · exact here
    · exact absurd symbol (names s)
  rw [parse_of_names names] at again
  split at again
  · rename_i empty
    simp only [Except.error.injEq, ParseError.malformed.injEq, true_and] at again
    exact ⟨rfl, again.symm, by simpa using empty⟩
  · simp at again

end Expression

namespace Malformation

/-- The reasons with a number or a name in them start with another letter than the rest. -/
theorem head?_reason_parenthesis (i : Nat) (n : Text) :
    (unclosed i).reason.head? = some 'u' ∧ (unbalanced n).reason.head? = some 'u' := by
  unfold reason
  simp

theorem ne_of_reason {why : Malformation} {reason : Text} (same : why.reason = reason)
    (start : reason.head? = some 'n') : (∀ i, why ≠ unclosed i) ∧ ∀ n, why ≠ unbalanced n := by
  constructor
  · rintro i rfl
    have other := (head?_reason_parenthesis i []).1
    rw [same, start] at other
    simp at other
  · rintro n rfl
    have other := (head?_reason_parenthesis 0 n).2
    rw [same, start] at other
    simp at other

end Malformation

namespace Tree

open Expression Segment

theorem parse_noGenre_iff {text : Text} :
    (∃ u why, parse text = .error (.malformed u why) ∧ why.reason = "no genre given".toList) ↔
      ∀ c ∈ text, Text.isBlank c = true := by
  rw [← tokenize_eq_nil_iff]
  constructor
  · rintro ⟨u, why, failed, reason⟩
    obtain ⟨closed, balanced⟩ := Malformation.ne_of_reason reason rfl
    exact (blank_of_malformed failed closed balanced).2.2
  · intro empty
    refine ⟨text, .noGenre, ?_, rfl⟩
    rw [parse_of_names (by simp [empty]), empty]
    rfl

theorem parse_ne_noRelation {text u : Text} {why : Malformation}
    (failed : parse text = .error (.malformed u why)) :
    why.reason ≠ "no relation between genres".toList := by
  intro reason
  obtain ⟨closed, balanced⟩ := Malformation.ne_of_reason reason rfl
  obtain ⟨-, rfl, -⟩ := blank_of_malformed failed closed balanced
  revert reason
  decide

/-- Of a text with a symbol, dividers of two kinds are reported first, whatever else is wrong, then
the first symbol where a name has to stand, and no other text reports either of itself. That there
is no genre is said exactly of blank texts, and that there is no relation of none. -/
theorem parse_structure (text : Text) :
    (∀ s, .symbol s ∈ tokenize text →
      (MixesDividers (tokenize text) → ∃ first second, FirstDividers (tokenize text) first second ∧
        parse text = .error (.ambiguousDividers text first second)) ∧
      (¬ MixesDividers (tokenize text) → (∃ i, Misplaced (tokenize text) i) →
        ∃ i, FirstMisplaced (tokenize text) i ∧
          parse text = .error (.misplacedOperator text i)) ∧
      (¬ MixesDividers (tokenize text) → (∀ i, ¬ Misplaced (tokenize text) i) →
        (∀ r q, parse text ≠ .error (.ambiguousDividers text r q)) ∧
          ∀ i, parse text ≠ .error (.misplacedOperator text i))) ∧
    ((∃ u why, parse text = .error (.malformed u why) ∧ why.reason = "no genre given".toList) ↔
      ∀ c ∈ text, Text.isBlank c = true) ∧
    ∀ u why, parse text = .error (.malformed u why) →
      why.reason ≠ "no relation between genres".toList := by
  refine ⟨fun s symbol => ⟨parse_of_mixesDividers symbol, parse_of_misplaced symbol, ?_⟩,
    parse_noGenre_iff, fun u why => parse_ne_noRelation⟩
  intro unmixed noneMisplaced
  constructor
  · intro r q failed
    cases levelFault_of_parse symbol unmixed noneMisplaced failed rfl
  · intro i failed
    cases levelFault_of_parse symbol unmixed noneMisplaced failed rfl

theorem parse_structure_competing :
    (∃ first second, FirstDividers (tokenize "A | || B >> C ~~".toList) first second ∧
      parse "A | || B >> C ~~".toList =
        .error (.ambiguousDividers "A | || B >> C ~~".toList first second)) ∧
    (∃ i, FirstMisplaced (tokenize "A | B > | (C".toList) i ∧
      parse "A | B > | (C".toList = .error (.misplacedOperator "A | B > | (C".toList i)) ∧
    (∀ i, parse "(| A > B) ~ C".toList ≠ .error (.misplacedOperator "(| A > B) ~ C".toList i)) ∧
    (∃ u why, parse "\u3000\t".toList = .error (.malformed u why) ∧
      why.reason = "no genre given".toList) := by
  refine ⟨?_, ?_, ?_, ?_⟩
  · refine ((parse_structure _).1 (.operator .blend) (by decide)).1 ?_
    exact ⟨.blend, .derive, by decide, by decide, by decide⟩
  · refine ((parse_structure _).1 (.operator .blend) (by decide)).2.1 ?_ ?_
    · exact exists_dividerOf_iff.mp ⟨none, (by rfl : dividerOf [] _ = _)⟩
    · exact ⟨4, ⟨.operator .blend, by decide⟩, by decide⟩
  · refine (((parse_structure _).1 (.operator .fuse) (by decide)).2.2 ?_ ?_).2
    · exact exists_dividerOf_iff.mp ⟨none, (by rfl : dividerOf [] _ = _)⟩
    · have placed : checkPositions [] (tokenize "(| A > B) ~ C".toList) = .ok () := by rfl
      exact not_misplaced_of_alternating ((checkPositions_eq_ok_iff (proper_tokenize _)).mp placed)
  · exact (parse_structure _).2.1.mpr (List.all_eq_true.mp (by decide))

end Tree

end GenreRelations
