import GenreRelations.Proofs.Compositional
import GenreRelations.Proofs.Scanning
import Mathlib.Logic.Function.Iterate

/-!
Reading in rounds. One round leaves the insides of the groups to another reader; they weigh two
characters less than the text or fewer still, so a text is read to its end by half as many rounds as
it has characters, whatever reads what is left then. `Tree.parse_rounds` says so, together with the
progress that the scan for groups makes in each of its turns.
-/

namespace GenreRelations

open Expression (checkPositions dividerOf joined levelsOf pairUp readLevel relationsOf)
open Segment (tokenize)

namespace Tree

/-- Reading the text calls for reading the inside of a group, at one of its levels. -/
inductive Calls (text : Text) : Text → Prop
  | group {ss : List Segment} {found : List Span} {span : Span} (level : ss ∈ levelsOf text)
      (several : 1 < (relationsOf ss).length) (scan : Group.spans 0 ss = .ok found)
      (member : span ∈ found) : Calls text (Group.inner (span.slice ss))

/-- One round of reading, which leaves the insides of groups to `read`. -/
def parseWith (read : Text → Except ParseError Tree) (text : Text) : Except ParseError Tree :=
  if (tokenize text).all Segment.isName then
    if (tokenize text).isEmpty then .error (.malformed text .noGenre)
    else .ok (.leaf text)
  else do
    let divider ← dividerOf text (tokenize text)
    checkPositions text (tokenize text)
    match divider with
    | none => readLevel text (tokenize text) fun inner _ => read inner
    | some d =>
      let trees ← (levelsOf text).mapM fun level => readLevel text level fun inner _ => read inner
      return .sequence (joined d (trees.map pairUp))

variable {text : Text} {f g : Text → Except ParseError Tree}

theorem parse_eq_parseWith (text : Text) : parse text = parseWith parse text := parse_eq text

/-- The inside of a group lacks its two parentheses. -/
theorem weight_of_calls {inner : Text} (calls : Calls text inner) :
    inner.weight + 2 ≤ text.weight := by
  obtain ⟨level, -, scan, member⟩ := calls
  have inside := Group.weight_inner_slice scan member
  have whole := Expression.weight_le_of_mem_splitOnP level
  rw [Segment.weight_tokenize] at whole
  omega

theorem readLevel_congr {ss : List Segment}
    (same : ∀ found, 1 < (relationsOf ss).length → Group.spans 0 ss = .ok found →
      ∀ span ∈ found, f (Group.inner (span.slice ss)) = g (Group.inner (span.slice ss))) :
    (readLevel text ss fun inner _ => f inner) = readLevel text ss fun inner _ => g inner := by
  rw [Expression.readLevel_eq, Expression.readLevel_eq]
  split
  · rfl
  · rfl
  · rename_i symbols second
    have several : 1 < (relationsOf ss).length := by
      match relations : relationsOf ss with
      | [] => exact absurd relations symbols
      | [r] => exact absurd relations (second r)
      | r :: q :: rest => simp
    split
    · rfl
    · rename_i found scan
      rw [mapM_congr (same found several scan)]

/-- A round asks its reader for nothing but the texts that it calls for. -/
theorem parseWith_congr (same : ∀ inner, Calls text inner → f inner = g inner) :
    parseWith f text = parseWith g text := by
  have level : ∀ ss ∈ levelsOf text,
      (readLevel text ss fun inner _ => f inner) = readLevel text ss fun inner _ => g inner :=
    fun ss member => readLevel_congr fun found several scan span isIn =>
      same _ (.group member several scan isIn)
  unfold parseWith
  split
  · rfl
  · cases divided : dividerOf text (tokenize text) with
    | error e => rfl
    | ok divider =>
      cases checkPositions text (tokenize text) with
      | error e => rfl
      | ok _ =>
        cases divider with
        | none =>
          have undivided := Expression.dividerOf_eq_ok_none_iff.mp divided
          have whole : levelsOf text = [tokenize text] := List.splitOnP_eq_singleton undivided
          exact level _ (whole ▸ List.mem_singleton_self _)
        | some d => simp only [bind, Except.bind, mapM_congr level]

theorem iterate_parseWith {n : Nat} (enough : text.weight < 2 * n) :
    (parseWith^[n] f) text = parse text := by
  induction n generalizing text with
  | zero => omega
  | succ n ih =>
    rw [Function.iterate_succ_apply', parse_eq_parseWith]
    refine parseWith_congr fun inner calls => ih ?_
    have lighter := weight_of_calls calls
    omega

/-- The equation of a round has one solution. -/
theorem eq_parseWith_iff : (∀ text, f text = parseWith f text) ↔ f = parse := by
  constructor
  · intro equation
    have fixed : parseWith f = f := (funext equation).symm
    funext text
    have rounds := @iterate_parseWith text f (text.weight + 1) (by omega)
    rwa [Function.iterate_fixed fixed] at rounds
  · rintro rfl
    exact parse_eq_parseWith

/-- Reading ends on every text. A turn of the scan for groups moves on, so the scan takes no more
turns than there are segments. What a text calls for has two characters less that are not blank, and
a round depends on nothing else; so half as many rounds as there are characters settle what is read,
and no other reader satisfies the equation of a round. -/
theorem parse_rounds :
    (∀ (ss : List Segment) (c d : Group.Scan), c.start < ss.length → c.turn ss = .ok d →
      c.start < d.start ∧ d.start ≤ ss.length) ∧
    (∀ ss : List Segment, Group.Scan.run ss ss.length ⟨0, []⟩ = some (Group.spans 0 ss)) ∧
    (∀ text inner, Calls text inner → inner.weight + 2 ≤ text.weight) ∧
    (∀ text f g, (∀ inner, Calls text inner → f inner = g inner) →
      parseWith f text = parseWith g text) ∧
    (∀ text f n, text.weight < 2 * n → (parseWith^[n] f) text = parse text) ∧
    ∀ f, (∀ text, f text = parseWith f text) ↔ f = parse := by
  refine ⟨?_, Group.Scan.run_eq_spans, fun _ _ => weight_of_calls, fun _ _ _ => parseWith_congr,
    fun _ _ _ => iterate_parseWith, fun _ => eq_parseWith_iff⟩
  intro ss c d within turned
  exact (Group.Scan.next_of_turn within turned).lt

theorem parse_rounds_nested :
    let text : Text := "((A | B) > C) ~ D".toList
    let inner : Text := "(A | B) > C".toList
    let failing : Text → Except ParseError Tree := fun text => .error (.malformed text .noGenre)
    (∃ d, Group.Scan.turn (tokenize text) ⟨0, []⟩ = .ok d ∧ 0 < d.start ∧ d.start ≤ 7) ∧
    Calls text inner ∧ inner.weight + 2 ≤ text.weight ∧
    parseWith parse text = parseWith (parseWith^[5] failing) text ∧
    (parseWith^[6] failing) text = parse text := by
  intro text inner failing
  have scan : Group.spans 0 (tokenize "((A | B) > C) ~ D".toList) = .ok [⟨0, 5⟩] :=
    Group.Scan.spans_of_run (by rfl)
  have calls : Calls text inner :=
    @Calls.group text (tokenize text) [⟨0, 5⟩] ⟨0, 5⟩ (by decide) (by decide) scan (by simp)
  have turned : Group.Scan.turn (tokenize text) ⟨0, []⟩ = .ok ⟨5, [⟨0, 5⟩]⟩ := by rfl
  obtain ⟨progress, -, lighter, depends, rounds, -⟩ := parse_rounds
  refine ⟨⟨_, turned, progress _ _ _ (by decide) turned⟩, calls, lighter text inner calls,
    depends text _ _ fun u called => ?_, rounds text failing 6 (by decide)⟩
  have below := lighter text u called
  have weight : text.weight = 11 := by decide
  exact (rounds u failing 5 (by omega)).symm

end Tree

end GenreRelations
