import GenreRelations.Proofs.Parsing
import GenreRelations.Proofs.Pieces

/-!
How reading fails. A fault of the text itself carries the text and depends on it no further; any
other failure is that of a group inside it, and comes out unchanged. So the text that an error
carries fails with the same error, and stands in parentheses: `Tree.parse_error_text`.
-/

namespace GenreRelations

open Segment (join tokenize)

/-- Reading a list fails with the error of the first member that cannot be read. -/
theorem mapM_eq_error_iff {α β ε : Type} {f : α → Except ε β} {xs : List α} {e : ε} :
    xs.mapM f = .error e ↔ ∃ front x back, xs = front ++ x :: back ∧
      (∀ y ∈ front, ∃ z, f y = .ok z) ∧ f x = .error e := by
  induction xs with
  | nil => simp [pure, Except.pure]
  | cons x xs ih =>
    rw [List.mapM_cons]
    constructor
    · intro failed
      cases first : f x with
      | error d =>
        obtain rfl : d = e := by simpa [first, bind, Except.bind] using failed
        exact ⟨[], x, xs, rfl, by simp, first⟩
      | ok z =>
        cases rest : xs.mapM f with
        | ok zs => simp [first, rest, bind, Except.bind, pure, Except.pure] at failed
        | error d =>
          obtain rfl : d = e := by simpa [first, rest, bind, Except.bind] using failed
          obtain ⟨front, y, back, rfl, before, here⟩ := ih.mp rest
          refine ⟨x :: front, y, back, rfl, fun w member => ?_, here⟩
          rcases List.mem_cons.mp member with rfl | member
          · exact ⟨z, first⟩
          · exact before w member
    · rintro ⟨front, y, back, parts, before, here⟩
      cases front with
      | nil =>
        obtain ⟨rfl, rfl⟩ := List.cons.inj parts
        simp [here, bind, Except.bind]
      | cons w front =>
        obtain ⟨rfl, rfl⟩ := List.cons.inj parts
        obtain ⟨z, first⟩ := before x List.mem_cons_self
        have rest := ih.mpr ⟨front, y, back, rfl,
          fun w member => before w (List.mem_cons_of_mem _ member), here⟩
        simp only [first, rest, bind, Except.bind]

namespace ParseError

/-- The error with another text in the place of its own. -/
def withText (text : Text) : ParseError → ParseError
  | ambiguousDividers _ r q => ambiguousDividers text r q
  | misplacedOperator _ i => misplacedOperator text i
  | ambiguousGrouping _ => ambiguousGrouping text
  | malformed _ why => malformed text why

theorem text_withText (text : Text) (e : ParseError) : (e.withText text).text = text := by
  cases e <;> rfl

end ParseError

namespace Expression

/-! ### Faults of a text itself -/

/-- The outcome depends on the text only in that an error carries it. -/
def CarriesText {α : Type} (f : Text → Except ParseError α) : Prop :=
  ∀ s t, f t = (f s).mapError (·.withText t)

namespace CarriesText

variable {α β : Type} {f : Text → Except ParseError α}

theorem text_eq (carries : CarriesText f) {s : Text} {e : ParseError} (failed : f s = .error e) :
    e.text = s := by
  have again := carries s s
  rw [failed] at again
  rw [Except.error.inj again, ParseError.text_withText]

theorem ok (a : α) : CarriesText fun _ => .ok a := fun _ _ => rfl

theorem error {g : Text → ParseError} (carried : ∀ s t, g t = (g s).withText t) :
    CarriesText (α := α) fun text => .error (g text) := by
  intro s t
  exact congrArg Except.error (carried s t)

theorem bind {g : Text → α → Except ParseError β} (first : CarriesText f)
    (later : ∀ a, CarriesText fun text => g text a) : CarriesText fun text => f text >>= g text := by
  intro s t
  have here := first s t
  cases read : f s with
  | error e =>
    rw [read] at here
    simp only [here, read]
    rfl
  | ok a =>
    rw [read] at here
    simp only [here, read]
    exact later a s t

theorem mapM {g : Text → α → Except ParseError β} (each : ∀ a, CarriesText fun text => g text a)
    (as : List α) : CarriesText fun text => as.mapM (g text) := by
  induction as with
  | nil => exact .ok []
  | cons a as ih =>
    simp only [List.mapM_cons]
    exact (each a).bind fun b => ih.bind fun bs => .ok (b :: bs)

end CarriesText

theorem carriesText_dividerOf (ss : List Segment) : CarriesText fun text => dividerOf text ss := by
  unfold dividerOf
  split
  · exact .ok _
  · split
    · exact .ok _
    · exact .error fun _ _ => rfl

theorem carriesText_checkPositions (ss : List Segment) :
    CarriesText fun text => checkPositions text ss := by
  unfold checkPositions
  split
  · exact .error fun _ _ => rfl
  · split
    · exact .ok _
    · exact .error fun _ _ => rfl

theorem carriesText_elementOf (slot : Slot) : CarriesText fun text => elementOf text slot := by
  unfold elementOf
  split
  · exact .ok _
  · exact .ok _
  · split
    · exact .ok _
    · exact .error fun _ _ => rfl

theorem carriesText_assemble (slots : List Slot) : CarriesText fun text => assemble text slots := by
  refine (CarriesText.mapM carriesText_elementOf slots).bind fun es => ?_
  split
  · exact .ok _
  · split
    · exact .error fun _ _ => rfl
    · exact .ok _

/-! ### Faults of groups -/

theorem slice_piece (span : Span) (ss : List Segment) : span.slice ss <:+: ss := by
  refine ⟨ss.take span.start, (ss.drop span.start).drop (span.stop - span.start), ?_⟩
  rw [Span.slice, List.append_assoc, List.take_append_drop, List.take_append_drop]

/-- If the groups of a level cannot all be read, one of them fails with the same error. -/
theorem exists_failed_group {ss : List Segment} {found : List Span} {e : ParseError}
    (scan : Group.spans 0 ss = .ok found)
    (groups : (found.mapM fun span => Tree.parse (Group.inner (span.slice ss))) = .error e) :
    ∃ g, g <:+: ss ∧ Group.Enclosed g ∧ Tree.parse (Group.inner g) = .error e := by
  obtain ⟨front, span, back, rfl, -, failed⟩ := mapM_eq_error_iff.mp groups
  have member : span ∈ front ++ span :: back := by simp
  exact ⟨_, slice_piece span ss, (Group.enclosed_of_mem_spans scan member).2, failed⟩

/-- A level fails by a fault of its own, or as a group in it does. -/
theorem parseLevel_cases (ss : List Segment) :
    (CarriesText fun text => Tree.parseLevel text ss) ∨
      ∃ g e, g <:+: ss ∧ Group.Enclosed g ∧ Tree.parse (Group.inner g) = .error e ∧
        ∀ text, Tree.parseLevel text ss = .error e := by
  simp only [Tree.parseLevel_eq]
  cases relationsOf ss with
  | nil =>
    refine .inl ?_
    simp only
    split
    · exact .ok _
    · exact .error fun _ _ => rfl
  | cons r rest =>
    cases rest with
    | nil => exact .inl (.ok _)
    | cons q rest =>
      simp only
      cases scan : Group.spans 0 ss with
      | error i => exact .inl (.error fun _ _ => rfl)
      | ok found =>
        simp only
        -- the groups are read before the level is assembled, and none of them sees its text
        cases groups : found.mapM fun span => Tree.parse (Group.inner (span.slice ss)) with
        | ok ts => exact .inl (carriesText_assemble _)
        | error e =>
          obtain ⟨g, piece, enclosed, failed⟩ := exists_failed_group scan groups
          exact .inr ⟨g, e, piece, enclosed, failed, fun text => rfl⟩

theorem piece_of_mem_splitOnP {p : Segment → Bool} {ss level : List Segment}
    (member : level ∈ ss.splitOnP p) : level <:+: ss := by
  by_cases splits : ∃ s ∈ ss, p s = true
  · obtain ⟨s, isIn, separates⟩ := splits
    obtain ⟨front, back, rfl⟩ := List.append_of_mem isIn
    rw [List.splitOnP_append_cons front back separates, List.mem_append] at member
    rcases member with member | member
    · exact (piece_of_mem_splitOnP member).trans (List.prefix_append _ _).isInfix
    · have behind : back <:+ front ++ s :: back := ⟨front ++ [s], by simp⟩
      exact (piece_of_mem_splitOnP member).trans behind.isInfix
  · rw [List.splitOnP_eq_singleton (by simpa using splits), List.mem_singleton] at member
    exact member ▸ List.infix_refl ss
  termination_by ss.length

/-- Every error carries the text, or is that of a group among the segments. -/
def FailsWithin {α : Type} (text : Text) (ss : List Segment) (x : Except ParseError α) : Prop :=
  ∀ e, x = .error e → e.text = text ∨
    ∃ g, g <:+: ss ∧ Group.Enclosed g ∧ Tree.parse (Group.inner g) = .error e

namespace FailsWithin

variable {α β : Type} {text : Text} {ss ts : List Segment}

theorem of_carriesText {f : Text → Except ParseError α} (carries : CarriesText f) :
    FailsWithin text ss (f text) := by
  intro e failed
  exact .inl (carries.text_eq failed)

theorem bind {x : Except ParseError α} {f : α → Except ParseError β}
    (first : FailsWithin text ss x) (later : ∀ a, FailsWithin text ss (f a)) :
    FailsWithin text ss (x >>= f) := by
  cases x with
  | error d => exact fun e failed => first e (congrArg _ (Except.error.inj failed))
  | ok a => exact later a

theorem mapM {f : β → Except ParseError α} {xs : List β}
    (each : ∀ x ∈ xs, FailsWithin text ss (f x)) : FailsWithin text ss (xs.mapM f) := by
  intro e failed
  obtain ⟨front, x, back, rfl, -, fails⟩ := mapM_eq_error_iff.mp failed
  exact each x (by simp) e fails

theorem mono {x : Except ParseError α} (within : FailsWithin text ss x) (piece : ss <:+: ts) :
    FailsWithin text ts x := by
  intro e failed
  rcases within e failed with own | ⟨g, inner, enclosed, fails⟩
  · exact .inl own
  · exact .inr ⟨g, inner.trans piece, enclosed, fails⟩

end FailsWithin

theorem failsWithin_parseLevel (text : Text) (ss : List Segment) :
    FailsWithin text ss (Tree.parseLevel text ss) := by
  rcases parseLevel_cases ss with carries | ⟨g, d, piece, enclosed, inner, fails⟩
  · exact .of_carriesText carries
  · intro e failed
    rw [fails text] at failed
    obtain rfl := Except.error.inj failed
    exact .inr ⟨g, piece, enclosed, inner⟩

/-- An expression fails by a fault of its own, or as a group in it does. -/
theorem failsWithin_parse (text : Text) : FailsWithin text (tokenize text) (Tree.parse text) := by
  rw [Tree.parse_eq]
  split
  · split
    · exact .of_carriesText (f := fun text => .error (.malformed text .noGenre))
        (.error fun _ _ => rfl)
    · exact fun e failed => absurd failed (by simp)
  · refine .bind (.of_carriesText (carriesText_dividerOf _)) fun found => ?_
    refine .bind (.of_carriesText (carriesText_checkPositions _)) fun _ => ?_
    cases found with
    | none => exact failsWithin_parseLevel text _
    | some d =>
      refine .bind (.mapM fun level member => ?_) fun ts => .of_carriesText (.ok _)
      exact (failsWithin_parseLevel text level).mono (piece_of_mem_splitOnP member)

/-- A text of several relations fails as the first group in it that does. -/
theorem parse_eq_error_of_group {text : Text} {front back : List Span} {span : Span}
    {e : ParseError} (undivided : ∀ s ∈ tokenize text, s.isDivider = false)
    (placed : checkPositions text (tokenize text) = .ok ())
    (several : 1 < (relationsOf (tokenize text)).length)
    (spans : Group.spans 0 (tokenize text) = .ok (front ++ span :: back))
    (before : ∀ s ∈ front, ∃ t, Tree.parse (Group.inner (s.slice (tokenize text))) = .ok t)
    (failed : Tree.parse (Group.inner (span.slice (tokenize text))) = .error e) :
    Tree.parse text = .error e := by
  rw [parse_eq_of_spans undivided placed several spans,
    mapM_eq_error_iff.mpr ⟨front, span, back, rfl, before, failed⟩]
  rfl

theorem weight_le_of_piece {ss ts : List Segment} (piece : ss <:+: ts) :
    Segment.weight ss ≤ Segment.weight ts := by
  obtain ⟨before, after, rfl⟩ := piece
  rw [Segment.weight_append, Segment.weight_append]
  omega

/-- What holds of the text of an error, and of a text if it holds of the group in it that fails,
holds of every text that fails with the error. -/
@[elab_as_elim]
theorem induction_on_failure {e : ParseError} {motive : Text → Prop}
    (own : Tree.parse e.text = .error e → motive e.text)
    (group : ∀ text g, g <:+: tokenize text → Group.Enclosed g →
      (Group.inner g).weight + 2 ≤ text.weight → motive (Group.inner g) → motive text)
    {text : Text} (failed : Tree.parse text = .error e) : motive text := by
  -- on the weight, since what a group encloses is lighter than the text around it
  generalize bound : text.weight = w
  induction w using Nat.strongRecOn generalizing text with
  | ind w ih =>
    rcases failsWithin_parse text e failed with here | ⟨g, piece, enclosed, inner⟩
    · subst here
      exact own failed
    · have lighter := weight_le_of_piece piece
      rw [Segment.weight_tokenize, ← Group.weight_inner enclosed] at lighter
      exact group text g piece enclosed lighter (ih _ (by omega) inner rfl)

theorem weight_error_le {text : Text} {e : ParseError} (failed : Tree.parse text = .error e) :
    e.text.weight ≤ text.weight := by
  refine induction_on_failure ?_ ?_ failed
  · exact fun _ => Nat.le_refl _
  · intro text g _ _ lighter ih
    omega

end Expression

namespace Tree

open Expression

theorem parse_text_of_failure {text : Text} {e : ParseError} (failed : parse text = .error e) :
    parse e.text = .error e := by
  refine induction_on_failure ?_ ?_ failed
  · exact id
  · exact fun _ _ _ _ _ ih => ih

theorem enclosed_text_of_failure {text : Text} {e : ParseError} (failed : parse text = .error e) :
    e.text = text ∨ ('(' :: e.text ++ [')']) <:+: join (tokenize text) := by
  refine induction_on_failure ?_ ?_ failed
  · exact fun _ => .inl rfl
  · intro text g piece enclosed _ ih
    have group : ('(' :: Group.inner g ++ [')']) <:+: join (tokenize text) :=
      Group.join_enclosed enclosed ▸ Segment.join_piece piece
    refine .inr ?_
    rcases ih with here | deeper
    · rwa [here]
    · have proper := (Segment.proper_tokenize text).of_piece piece
      have within : Group.inner g <:+: '(' :: Group.inner g ++ [')'] :=
        (List.suffix_cons _ _).isInfix.trans (List.prefix_append _ _).isInfix
      exact (deeper.trans (Group.join_inside_piece enclosed proper)).trans (within.trans group)

/-- The text of an error fails with the same error. It is the whole text, or stands between
parentheses in the text with single spaces. -/
theorem parse_error_text {text : Text} {e : ParseError} (failed : parse text = .error e) :
    parse e.text = .error e ∧ (e.text = text ∨ ∃ before after,
      join (tokenize text) = before ++ '(' :: e.text ++ ')' :: after) := by
  refine ⟨parse_text_of_failure failed, ?_⟩
  rcases enclosed_text_of_failure failed with own | ⟨before, after, written⟩
  · exact .inl own
  · exact .inr ⟨before, after, by simpa using written.symm⟩

theorem parse_ambiguous :
    parse "A | B > C".toList = .error (.ambiguousGrouping "A | B > C".toList) := by
  have spans : Group.spans 0 [.name ['A'], .symbol (.operator .blend), .name ['B'],
      .symbol (.operator .derive), .name ['C']] = .ok [] := by
    simp [Group.spans, Group.opens]
  exact @parse_eq_of_spans _ [] (by decide) (by rfl) (by decide) spans

theorem parse_error_text_nested :
    parse "( (A | B > C) ~ D) | E".toList = .error (.ambiguousGrouping "A | B > C".toList) ∧
    parse "A | B > C".toList = .error (.ambiguousGrouping "A | B > C".toList) ∧
    ∃ before after, join (tokenize "( (A | B > C) ~ D) | E".toList) =
      before ++ '(' :: "A | B > C".toList ++ ')' :: after := by
  have group : parse " (A | B > C) ~ D".toList =
      .error (.ambiguousGrouping "A | B > C".toList) := by
    have run : Group.IsRun (tokenize "(A | B > C)".toList) := by decide
    have spans : Group.spans 0 (tokenize " (A | B > C) ~ D".toList) = .ok [⟨0, 5⟩] :=
      @Group.IsRun.spans _ [.symbol (.operator .fuse), .name ['D']] run 0 []
        (by simp [Group.spans, Group.opens])
    exact @parse_eq_error_of_group _ [] _ _ _ (by decide) (by rfl) (by decide) spans (by simp)
      parse_ambiguous
  have read : parse "( (A | B > C) ~ D) | E".toList =
      .error (.ambiguousGrouping "A | B > C".toList) := by
    have run : Group.IsRun (tokenize "( (A | B > C) ~ D)".toList) := by decide
    have spans : Group.spans 0 (tokenize "( (A | B > C) ~ D) | E".toList) = .ok [⟨0, 7⟩] :=
      @Group.IsRun.spans _ [.symbol (.operator .blend), .name ['E']] run 0 []
        (by simp [Group.spans, Group.opens])
    exact @parse_eq_error_of_group _ [] _ _ _ (by decide) (by rfl) (by decide) spans (by simp)
      group
  have located := parse_error_text read
  exact ⟨read, located.1, located.2.resolve_left (by decide)⟩

end Tree

end GenreRelations
