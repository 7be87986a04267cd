import GenreRelations.Proofs.Compositional
import GenreRelations.Proofs.Shape

/-!
Expressions that differ in their first name. Of a name that opens no group, reading asks no more
than how many parentheses it leaves open. So another one that leaves as many open is read in its
place: the trees have one shape, and failures one kind. `Expression.alike_parse` says so of texts
with the same segments behind the first.
-/

namespace GenreRelations

open Expression (CarriesText assemble elementOf pairUp spliced)
open Segment (tokenize)

namespace Tree

/-! ### Shapes of trees -/

mutual

/-- The tree without its names. -/
def unnamed : Tree → Tree
  | leaf _ => leaf []
  | pair l r t => pair l.unnamed r t.unnamed
  | chain r ts => chain r (operandsUnnamed ts)
  | sequence es => sequence (elementsUnnamed es)

def operandsUnnamed : List Tree → List Tree
  | [] => []
  | t :: ts => t.unnamed :: operandsUnnamed ts

def elementsUnnamed : List Element → List Element
  | [] => []
  | .tree t :: es => .tree t.unnamed :: elementsUnnamed es
  | .symbol r :: es => .symbol r :: elementsUnnamed es

end

/-- The trees are the same, but for the first of their names. -/
structure RenamesFirst (t u : Tree) : Prop where
  shape : t.unnamed = u.unnamed
  names : ∃ n m ns, t.leaves = n :: ns ∧ u.leaves = m :: ns

theorem leaves_pairUp (t : Tree) : (pairUp t).leaves = t.leaves := by
  rcases pairUp_cases t with same | ⟨l, r, u, rfl, paired⟩
  · rw [same]
  · rw [paired, leaves, leaves, operandsLeaves, operandsLeaves, operandsLeaves, List.append_nil]

theorem unnamed_pairUp (t : Tree) : (pairUp t).unnamed = pairUp t.unnamed := by
  cases t with
  | chain r ts =>
    match ts with
    | [] => rfl
    | [t] => rfl
    | [t, u] => rfl
    | t :: u :: v :: ts => rfl
  | _ => rfl

namespace RenamesFirst

theorem leaf (n m : Text) : (Tree.leaf n).RenamesFirst (.leaf m) := ⟨rfl, n, m, [], rfl, rfl⟩

variable {t u : Tree} (first : t.RenamesFirst u)

include first

theorem chain (r : Relation) (ts : List Tree) :
    (Tree.chain r (t :: ts)).RenamesFirst (.chain r (u :: ts)) := by
  obtain ⟨shape, n, m, ns, left, right⟩ := first
  refine ⟨?_, n, m, ns ++ operandsLeaves ts, ?_, ?_⟩
  · rw [unnamed, unnamed, operandsUnnamed, operandsUnnamed, shape]
  · rw [leaves, operandsLeaves, left, List.cons_append]
  · rw [leaves, operandsLeaves, right, List.cons_append]

theorem sequence (es : List Element) :
    (Tree.sequence (.tree t :: es)).RenamesFirst (.sequence (.tree u :: es)) := by
  obtain ⟨shape, n, m, ns, left, right⟩ := first
  refine ⟨?_, n, m, ns ++ elementsLeaves es, ?_, ?_⟩
  · rw [unnamed, unnamed, elementsUnnamed, elementsUnnamed, shape]
  · rw [leaves, elementsLeaves, left, List.cons_append]
  · rw [leaves, elementsLeaves, right, List.cons_append]

theorem pairUp : (pairUp t).RenamesFirst (pairUp u) := by
  obtain ⟨shape, names⟩ := first
  exact ⟨by rw [unnamed_pairUp, unnamed_pairUp, shape], by rwa [leaves_pairUp, leaves_pairUp]⟩

theorem joined (d : Relation) (ts : List Tree) :
    (Tree.sequence (Expression.joined d (t :: ts))).RenamesFirst
      (.sequence (Expression.joined d (u :: ts))) := by
  cases ts with
  | nil => exact first.sequence []
  | cons v ts => exact first.sequence (.symbol d :: Expression.joined d (v :: ts))

end RenamesFirst

end Tree

/-! ### Kinds of errors -/

/-- The error without the text that it carries and the name that it quotes. -/
def ParseError.kind : ParseError → ParseError
  | malformed _ (.unbalanced _) => malformed [] (.unbalanced [])
  | e => e.withText []

theorem ParseError.kind_withText (e : ParseError) (text : Text) :
    (e.withText text).kind = e.kind := by
  rcases e with - | - | - | ⟨-, why⟩
  · rfl
  · rfl
  · rfl
  · cases why <;> rfl

/-- Two outcomes are results that the relation holds of, or errors of one kind. -/
inductive Alike {α : Type} (R : α → α → Prop) :
    Except ParseError α → Except ParseError α → Prop
  | ok {a b : α} (related : R a b) : Alike R (.ok a) (.ok b)
  | error {e f : ParseError} (kinds : e.kind = f.kind) : Alike R (.error e) (.error f)

namespace Alike

variable {α β : Type}

theorem refl {R : α → α → Prop} (reflexive : ∀ a, R a a) (x : Except ParseError α) :
    Alike R x x := by
  cases x with
  | error e => exact .error rfl
  | ok a => exact .ok (reflexive a)

theorem mono {R S : α → α → Prop} {x y : Except ParseError α} (alike : Alike R x y)
    (implies : ∀ a b, R a b → S a b) : Alike S x y := by
  cases alike with
  | ok related => exact .ok (implies _ _ related)
  | error kinds => exact .error kinds

theorem outcomes {R : α → α → Prop} {x y : Except ParseError α} (alike : Alike R x y) :
    ((∃ b, y = .ok b) ↔ ∃ a, x = .ok a) ∧ (∀ a b, x = .ok a → y = .ok b → R a b) ∧
    ∀ e f, x = .error e → y = .error f → e.kind = f.kind := by
  cases alike with
  | ok related => simpa using related
  | error kinds => simpa using kinds

theorem bind {R : α → α → Prop} {S : β → β → Prop} {x y : Except ParseError α}
    {f g : α → Except ParseError β} (first : Alike R x y)
    (later : ∀ a b, R a b → Alike S (f a) (g b)) : Alike S (x >>= f) (y >>= g) := by
  cases first with
  | ok related => exact later _ _ related
  | error kinds => exact .error kinds

theorem mapM {f g : α → Except ParseError β} {xs : List α}
    (each : ∀ x ∈ xs, Alike Eq (f x) (g x)) : Alike Eq (xs.mapM f) (xs.mapM g) := by
  induction xs with
  | nil => exact .ok rfl
  | cons x xs ih =>
    rw [List.mapM_cons, List.mapM_cons]
    refine (each x List.mem_cons_self).bind ?_
    rintro a _ rfl
    refine (ih fun y member => each y (List.mem_cons_of_mem _ member)).bind ?_
    rintro as _ rfl
    exact .ok rfl

theorem of_carriesText {f : Text → Except ParseError α} (carries : CarriesText f) (s t : Text) :
    Alike Eq (f s) (f t) := by
  rw [carries s t]
  cases f s with
  | ok a => exact .ok rfl
  | error e => exact .error (ParseError.kind_withText e t).symm

end Alike

namespace Expression

theorem alike_parseLevel_of_same (s t : Text) (ss : List Segment) :
    Alike Eq (Tree.parseLevel s ss) (Tree.parseLevel t ss) := by
  rcases parseLevel_cases ss with carries | ⟨g, e, -, -, -, fails⟩
  · exact .of_carriesText carries s t
  · rw [fails s, fails t]
    exact .error rfl

/-! ### Levels with another first name -/

/-- Neither name opens a group, and both leave as many parentheses open. -/
structure Exchangeable (n m : Text) : Prop where
  left : Group.opens (.name n) = false
  right : Group.opens (.name m) = false
  balance : n.balance = m.balance

theorem spans_name {n : Text} (opens : Group.opens (.name n) = false) (rest : List Segment) :
    Group.spans 0 (.name n :: rest) = Group.spans 1 rest := by
  rw [Group.spans, if_neg (by simp [opens])]

theorem slice_name {span : Span} (behind : 1 ≤ span.start) (n m : Text) (rest : List Segment) :
    span.slice (.name n :: rest) = span.slice (.name m :: rest) := by
  obtain ⟨k, start⟩ : ∃ k, span.start = k + 1 := ⟨span.start - 1, by omega⟩
  simp [Span.slice, start]

theorem splitOnP_name (rest : List Segment) : ∃ level levels, ∀ n,
    (Segment.name n :: rest).splitOnP Segment.isDivider = (.name n :: level) :: levels := by
  obtain ⟨level, levels, parts⟩ :=
    List.exists_cons_of_ne_nil (List.splitOnP_ne_nil Segment.isDivider rest)
  refine ⟨level, levels, fun n => ?_⟩
  rw [List.splitOnP_cons_eq_if_modifyHead, parts]
  rfl

/-- Groups behind the first name leave it in its place. -/
theorem exists_slots_spliced {rest : List Segment} {found : List Span} {groups : List Tree}
    (scan : Group.spans 1 rest = .ok found) (length : groups.length = found.length) :
    ∃ slots, ∀ n,
      (spliced (.name n :: rest) found groups).slots = .segment (.name n) :: slots := by
  obtain ⟨ps, rfl, rfl, rfl, -⟩ := Part.exists_parts scan length
  refine ⟨ps.map Part.slot, fun n => ?_⟩
  exact (Part.holds_spliced Arena.lawful ps [.name n]).slots Arena.lawful

/-- What groups behind the first name are read as does not depend on that name. -/
theorem mapM_groups_name {rest : List Segment} {found : List Span}
    (scan : Group.spans 1 rest = .ok found) (n m : Text) :
    (found.mapM fun span => Tree.parse (Group.inner (span.slice (.name n :: rest)))) =
      found.mapM fun span => Tree.parse (Group.inner (span.slice (.name m :: rest))) := by
  refine mapM_congr fun span member => ?_
  have behind : 1 ≤ span.start := (Group.enclosed_of_mem_spans scan member).1
  rw [slice_name behind n m]

section

variable {s t n m : Text} (names : Exchangeable n m)

include names

theorem alike_elements (slots : List Slot) :
    Alike (fun es fs => ∃ rest, es = .tree (.leaf n) :: rest ∧ fs = .tree (.leaf m) :: rest)
      ((.segment (.name n) :: slots).mapM (elementOf s))
      ((.segment (.name m) :: slots).mapM (elementOf t)) := by
  have first : Alike (fun e f => e = .tree (.leaf n) ∧ f = .tree (.leaf m))
      (elementOf s (.segment (.name n))) (elementOf t (.segment (.name m))) := by
    unfold elementOf
    simp only [names.balance]
    split
    · exact .ok ⟨rfl, rfl⟩
    · exact .error rfl
  rw [List.mapM_cons, List.mapM_cons]
  refine first.bind ?_
  rintro _ _ ⟨rfl, rfl⟩
  refine (Alike.of_carriesText (.mapM carriesText_elementOf slots) s t).bind ?_
  rintro es _ rfl
  exact .ok ⟨es, rfl, rfl⟩

theorem alike_assemble (slots : List Slot) :
    Alike Tree.RenamesFirst (assemble s (.segment (.name n) :: slots))
      (assemble t (.segment (.name m) :: slots)) := by
  unfold assemble
  refine (alike_elements names slots).bind ?_
  rintro _ _ ⟨es, rfl, rfl⟩
  cases es with
  | nil => exact .ok (.leaf n m)
  | cons e es =>
    -- the name adds no symbol, so one of the two is ambiguous just if the other is
    change Alike _
      (if 1 < (Relation.distinct ((e :: es).filterMap Element.symbol?)).length then
        .error (.ambiguousGrouping s) else .ok (Tree.sequence (.tree (.leaf n) :: e :: es)))
      (if 1 < (Relation.distinct ((e :: es).filterMap Element.symbol?)).length then
        .error (.ambiguousGrouping t) else .ok (Tree.sequence (.tree (.leaf m) :: e :: es)))
    split
    · exact .error rfl
    · exact .ok ((Tree.RenamesFirst.leaf n m).sequence (e :: es))

theorem alike_parseLevel (rest : List Segment) :
    Alike Tree.RenamesFirst (Tree.parseLevel s (.name n :: rest))
      (Tree.parseLevel t (.name m :: rest)) := by
  have relations : relationsOf (.name m :: rest) = relationsOf (.name n :: rest) := rfl
  have left : namesOf (.name n :: rest) = n :: namesOf rest := rfl
  have right : namesOf (.name m :: rest) = m :: namesOf rest := rfl
  rw [Tree.parseLevel_eq, Tree.parseLevel_eq, relations, left, right]
  cases relationsOf (.name n :: rest) with
  | nil =>
    cases namesOf rest with
    | nil => exact .ok (.leaf n m)
    | cons u us => exact .error rfl
  | cons r more =>
    cases more with
    | nil => exact .ok ((Tree.RenamesFirst.leaf n m).chain r ((namesOf rest).map .leaf))
    | cons q more =>
      simp only [spans_name names.left, spans_name names.right]
      cases scan : Group.spans 1 rest with
      | error i => exact .error rfl
      | ok found =>
        simp only [mapM_groups_name scan n m]
        cases insides : found.mapM fun span =>
            Tree.parse (Group.inner (span.slice (.name m :: rest))) with
        | error e => exact .error rfl
        | ok ts =>
          have length := (mapM_eq_ok_iff.mp insides).length_eq.symm
          obtain ⟨slots, placed⟩ := exists_slots_spliced scan length
          simp only [placed, bind, Except.bind]
          exact alike_assemble names slots

/-- Only the first level between dividers has the first name. -/
theorem alike_levels (rest : List Segment) :
    Alike (fun ts us => ∃ t u more, ts = t :: more ∧ us = u :: more ∧ t.RenamesFirst u)
      (((Segment.name n :: rest).splitOnP Segment.isDivider).mapM (Tree.parseLevel s))
      (((Segment.name m :: rest).splitOnP Segment.isDivider).mapM (Tree.parseLevel t)) := by
  obtain ⟨level, levels, parts⟩ := splitOnP_name rest
  rw [parts n, parts m, List.mapM_cons, List.mapM_cons]
  refine (alike_parseLevel names level).bind fun v u renames => ?_
  refine (Alike.mapM fun level _ => alike_parseLevel_of_same s t level).bind ?_
  rintro ts _ rfl
  exact .ok ⟨v, u, ts, rfl, rfl, renames⟩

end

/-! ### Texts with another first name -/

section

variable {s t n m : Text} {rest : List Segment} (first : tokenize s = .name n :: rest)
  (second : tokenize t = .name m :: rest)

include first second

theorem alike_parse_of_names (names : ∀ q, .symbol q ∉ rest) :
    Alike Tree.RenamesFirst (Tree.parse s) (Tree.parse t) := by
  have alone : ∀ n q, .symbol q ∉ Segment.name n :: rest := by
    intro n q member
    exact names q (by simpa using member)
  rw [parse_of_names (first ▸ alone n), parse_of_names (second ▸ alone m), first, second]
  exact .ok (.leaf s t)

/-- Texts whose segments are the same but for a first name that leaves as much open are parsed to
trees that differ in that name only, or fail with errors of one kind. -/
theorem alike_parse (names : Exchangeable n m) :
    Alike Tree.RenamesFirst (Tree.parse s) (Tree.parse t) := by
  by_cases symbols : ∃ q, .symbol q ∈ rest
  · obtain ⟨q, symbol⟩ := symbols
    have left : .symbol q ∈ tokenize s := first ▸ List.mem_cons_of_mem _ symbol
    have right : .symbol q ∈ tokenize t := second ▸ List.mem_cons_of_mem _ symbol
    -- neither check looks into a name
    have dividers : dividerOf t (.name m :: rest) = dividerOf t (.name n :: rest) := rfl
    have positions : checkPositions t (.name m :: rest) = checkPositions t (.name n :: rest) := by
      cases rest <;> rfl
    rw [parse_of_symbol left, parse_of_symbol right, first, second, dividers, positions]
    refine (Alike.of_carriesText (carriesText_dividerOf _) s t).bind ?_
    rintro divider _ rfl
    refine (Alike.of_carriesText (carriesText_checkPositions _) s t).bind ?_
    rintro _ _ rfl
    cases divider with
    | none => exact alike_parseLevel names rest
    | some d =>
      refine (alike_levels names rest).bind ?_
      rintro _ _ ⟨t, u, more, rfl, rfl, renames⟩
      exact .ok (renames.pairUp.joined d (more.map pairUp))
  · exact alike_parse_of_names first second fun q symbol => symbols ⟨q, symbol⟩

end

end Expression

end GenreRelations
