import GenreRelations.Expression.Parse
import GenreRelations.Proofs.Balance
import GenreRelations.Proofs.Splicing
import Mathlib.Data.List.Forall2

/-!
A level cut into its groups and the segments between them. `Part.exists_parts` cuts a level where
the scan for groups does, and `Part.spans_flatMap` says that parts are found again by the scan.
`parseLevel_eq_ok_iff` is what the two give: a level of several relations is read by reading the
inside of every group and leaving all else in place.
-/

namespace GenreRelations

theorem mapM_eq_ok_iff {α β ε : Type} {f : α → Except ε β} {xs : List α} {ys : List β} :
    xs.mapM f = .ok ys ↔ List.Forall₂ (fun x y => f x = .ok y) xs ys := by
  induction xs generalizing ys with
  | nil =>
    rw [List.mapM_nil, List.forall₂_nil_left_iff]
    exact ⟨fun h => (Except.ok.inj h).symm, fun h => h ▸ rfl⟩
  | cons x xs ih =>
    rw [List.mapM_cons, List.forall₂_cons_left_iff]
    constructor
    · intro read
      cases first : f x with
      | error e => simp [first, bind, Except.bind] at read
      | ok y =>
        cases rest : xs.mapM f with
        | error e => simp [first, rest, bind, Except.bind] at read
        | ok zs =>
          simp only [first, rest, bind, Except.bind, pure, Except.pure, Except.ok.injEq] at read
          exact ⟨y, zs, rfl, ih.mp rest, read.symm⟩
    · rintro ⟨y, zs, first, rest, rfl⟩
      simp only [first, ih.mpr rest, bind, Except.bind, pure, Except.pure]

/-- What operators join at a level that is read through its groups. -/
inductive Operand where
  | name (name : Text)
  /-- The segments of a group, and the tree that its inside is read as. -/
  | group (segments : List Segment) (tree : Tree)

namespace Operand

def segments : Operand → List Segment
  | name n => [.name n]
  | group g _ => g

def tree : Operand → Tree
  | name n => .leaf n
  | group _ t => t

end Operand

inductive Part where
  | operand (operand : Operand)
  | symbol (symbol : Symbol)

namespace Part

def segments : Part → List Segment
  | operand o => o.segments
  | symbol s => [.symbol s]

def slot : Part → Slot
  | operand (.name n) => .segment (.name n)
  | operand (.group _ t) => .group t
  | symbol s => .segment (.symbol s)

def element : Part → Element
  | operand o => .tree o.tree
  | symbol s => .symbol s.relation

def ofSegment : Segment → Part
  | .name n => operand (.name n)
  | .symbol s => symbol s

/-- The groups with their trees. -/
def groups : List Part → List (List Segment × Tree)
  | [] => []
  | operand (.group g t) :: ps => (g, t) :: groups ps
  | operand (.name _) :: ps => groups ps
  | symbol _ :: ps => groups ps

/-- The spans of the groups, where the first segment has number `i`. -/
def spans (i : Nat) : List Part → List Span
  | [] => []
  | operand (.group g _) :: ps => ⟨i, i + g.length⟩ :: spans (i + g.length) ps
  | operand (.name _) :: ps => spans (i + 1) ps
  | symbol _ :: ps => spans (i + 1) ps

/-- Names close what they open, and groups are runs of their own. -/
def Sound : Part → Prop
  | operand (.name n) => n.balance = 0
  | operand (.group g _) => Group.IsRun g
  | symbol _ => True

theorem mem_groups {ps : List Part} {g : List Segment} {t : Tree} :
    (g, t) ∈ groups ps ↔ operand (.group g t) ∈ ps := by
  fun_induction groups ps with
  | case1 => simp
  | case2 h u ps ih => simp [ih]
  | case3 n ps ih => simp [ih]
  | case4 s ps ih => simp [ih]

/-! ### Segments on their own -/

theorem flatMap_segments_ofSegment (ss : List Segment) :
    (ss.map ofSegment).flatMap segments = ss := by
  induction ss with
  | nil => rfl
  | cons s ss ih =>
    rw [List.map_cons, List.flatMap_cons, ih]
    cases s <;> rfl

theorem groups_ofSegment (ss : List Segment) (ps : List Part) :
    groups (ss.map ofSegment ++ ps) = groups ps := by
  induction ss with
  | nil => rfl
  | cons s ss ih => cases s <;> exact ih

theorem group_mem_ofSegment_append {ss : List Segment} {ps : List Part} {g : List Segment}
    {t : Tree} : operand (.group g t) ∈ ss.map ofSegment ++ ps ↔ operand (.group g t) ∈ ps := by
  rw [← mem_groups, ← mem_groups, groups_ofSegment]

theorem spans_ofSegment (i : Nat) (ss : List Segment) (ps : List Part) :
    spans i (ss.map ofSegment ++ ps) = spans (i + ss.length) ps := by
  induction ss generalizing i with
  | nil => rfl
  | cons s ss ih =>
    have shifted : spans i ((s :: ss).map ofSegment ++ ps) =
        spans (i + 1) (ss.map ofSegment ++ ps) := by
      cases s <;> rfl
    rw [shifted, ih, List.length_cons]
    congr 1
    omega

/-! ### Parts and spans -/

/-- The scan finds the groups of sound parts. -/
theorem spans_flatMap {ps : List Part} (sound : ∀ p ∈ ps, p.Sound) (i : Nat) :
    Group.spans i (ps.flatMap segments) = .ok (spans i ps) := by
  fun_induction spans i ps with
  | case1 => rw [List.flatMap_nil, Group.spans]
  | case2 i g t ps ih =>
    have run : Group.IsRun g := sound (operand (.group g t)) List.mem_cons_self
    have rest := ih fun p hp => sound p (List.mem_cons_of_mem _ hp)
    exact run.spans rest
  | case3 i n ps ih =>
    have balanced : n.balance = 0 := sound (operand (.name n)) List.mem_cons_self
    have rest := ih fun p hp => sound p (List.mem_cons_of_mem _ hp)
    have closing : Group.closing? 0 (.name n :: ps.flatMap segments) = some 0 := by
      simp [Group.closing?, Segment.text, balanced]
    rw [List.flatMap_cons]
    simp only [segments, Operand.segments, List.singleton_append]
    rw [Group.spans]
    by_cases opens : Group.opens (.name n) = true
    · rw [if_pos opens, closing]
      simp only [Nat.add_zero, List.drop_zero]
      rw [rest]
      simp [bind, Except.bind, pure, Except.pure]
    · rw [if_neg opens, rest]
  | case4 i s ps ih =>
    have rest := ih fun p hp => sound p (List.mem_cons_of_mem _ hp)
    rw [List.flatMap_cons]
    simp only [segments, List.singleton_append]
    rw [Group.spans, if_neg (by simp [Group.opens]), rest]

/-- Where the scan finds groups, the level is cut into parts. -/
theorem exists_parts {i : Nat} {ss : List Segment} {found : List Span}
    (scan : Group.spans i ss = .ok found) {ts : List Tree} (length : ts.length = found.length) :
    ∃ ps, ps.flatMap segments = ss ∧ spans i ps = found ∧ (groups ps).map Prod.snd = ts ∧
      ∀ g t, operand (.group g t) ∈ ps → Group.IsRun g := by
  fun_induction Group.spans i ss generalizing found ts with
  | case1 i =>
    obtain rfl := Except.ok.inj scan
    obtain rfl := List.length_eq_zero_iff.mp length
    exact ⟨[], rfl, rfl, rfl, by simp⟩
  | case2 => simp at scan
  | case3 i s ss opens k closing ih =>
    cases later : Group.spans (i + k + 1) (ss.drop k) with
    | error e => simp [later, bind, Except.bind] at scan
    | ok rest =>
      simp only [later, bind, Except.bind, pure, Except.pure] at scan
      have cut : (s :: ss).take (k + 1) ++ ss.drop k = s :: ss := by simp
      split at scan
      · rename_i ends
        obtain rfl := Except.ok.inj scan
        simp only [Bool.and_eq_true, decide_eq_true_eq] at ends
        obtain ⟨run, runLength⟩ := Group.isRun_take opens closing ends.1 ends.2
        obtain ⟨t, ts, rfl⟩ := List.exists_cons_of_length_eq_add_one length
        obtain ⟨ps, restored, spansEq, trees, runs⟩ := ih later (by simpa using length)
        refine ⟨operand (.group ((s :: ss).take (k + 1)) t) :: ps, ?_, ?_, ?_, ?_⟩
        · rw [List.flatMap_cons, restored]
          exact cut
        · rw [spans, runLength, ← Nat.add_assoc, spansEq]
        · rw [groups, List.map_cons, trees]
        · intro g u member
          rcases List.mem_cons.mp member with same | member
          · obtain ⟨rfl, -⟩ := Operand.group.inj (operand.inj same)
            exact run
          · exact runs g u member
      · obtain rfl := Except.ok.inj scan
        obtain ⟨ps, restored, spansEq, trees, runs⟩ := ih later length
        obtain ⟨front, u, back, parts, rfl, -, -⟩ := Group.closing?_eq_some_iff.mp closing
        have runLength : ((s :: ss).take (front.length + 1)).length = front.length + 1 := by
          simp [parts]
        refine ⟨((s :: ss).take (front.length + 1)).map ofSegment ++ ps, ?_, ?_, ?_, ?_⟩
        · rw [List.flatMap_append, flatMap_segments_ofSegment, restored, cut]
        · rw [spans_ofSegment, runLength, ← Nat.add_assoc, spansEq]
        · rw [groups_ofSegment, trees]
        · intro g u member
          exact runs g u (group_mem_ofSegment_append.mp member)
  | case4 i s ss opens ih =>
    obtain ⟨ps, restored, spansEq, trees, runs⟩ := ih scan length
    refine ⟨ofSegment s :: ps, ?_, ?_, ?_, ?_⟩
    · rw [List.flatMap_cons, restored]
      cases s <;> rfl
    · rw [← spansEq]
      exact spans_ofSegment i [s] ps
    · rw [← trees]
      exact congrArg _ (groups_ofSegment [s] ps)
    · intro g u member
      exact runs g u ((@group_mem_ofSegment_append [s] ps g u).mp member)

/-! ### Groups in place -/

theorem slice_spans (ps : List Part) (front : List Segment) :
    (spans front.length ps).map (fun span => span.slice (front ++ ps.flatMap segments)) =
      (groups ps).map Prod.fst := by
  generalize position : front.length = i
  fun_induction spans i ps generalizing front with
  | case1 => rfl
  | case2 i g t ps ih =>
    have rest := ih (front ++ g) (by simp [position])
    rw [List.append_assoc] at rest
    rw [groups, List.map_cons, List.map_cons, ← rest, List.flatMap_cons]
    congr 1
    simp only [Span.slice, segments, Operand.segments]
    rw [← position, List.drop_left, Nat.add_sub_cancel_left, List.take_left]
  | case3 i n ps ih =>
    have rest := ih (front ++ [.name n]) (by simp [position])
    rwa [List.append_assoc] at rest
  | case4 i s ps ih =>
    have rest := ih (front ++ [.symbol s]) (by simp [position])
    rwa [List.append_assoc] at rest

theorem mapM_spans {ε : Type} {f : List Segment → Except ε Tree} {ps : List Part} :
    ((spans 0 ps).mapM fun span => f (span.slice (ps.flatMap segments))) =
        .ok ((groups ps).map Prod.snd) ↔
      ∀ g u, operand (.group g u) ∈ ps → f g = .ok u := by
  have slices := slice_spans ps []
  rw [List.nil_append, List.length_nil] at slices
  have inSlices : ((spans 0 ps).mapM fun span => f (span.slice (ps.flatMap segments))) =
      ((groups ps).map Prod.fst).mapM f := by
    rw [← slices, List.mapM_map]
    rfl
  rw [inSlices, mapM_eq_ok_iff, List.forall₂_map_left_iff, List.forall₂_map_right_iff,
    List.forall₂_same]
  simp only [Prod.forall, mem_groups]

/-- The level with its groups spliced in holds one slot for each part. -/
theorem holds_spliced {A : Storage Slot} (lawful : A.Lawful) (ps : List Part)
    (front : List Segment) :
    (Expression.spliced (front ++ ps.flatMap segments) (spans front.length ps)
      ((groups ps).map Prod.snd) A).Holds (front.map .segment ++ ps.map slot) := by
  generalize position : front.length = i
  fun_induction spans i ps generalizing front with
  | case1 => simpa [Expression.spliced] using Level.holds_ofSegments lawful front
  | case2 i g t ps ih =>
    have rest := ih (front ++ g) (by simp [position])
    have length := rest.length_order
    have admits : (Expression.spliced (front ++ g ++ ps.flatMap segments) (spans (i + g.length) ps)
        ((groups ps).map Prod.snd) A).Admits ⟨i, i + g.length⟩ := by
      refine ⟨Nat.le_add_right _ _, ?_⟩
      rw [length]
      simp [position]
    have placed := rest.splice lawful admits t
    have before : ((front ++ g).map Slot.segment ++ ps.map slot).take i = front.map .segment := by
      rw [List.map_append, List.append_assoc]
      exact List.take_left' (by simp [position])
    have after : ((front ++ g).map Slot.segment ++ ps.map slot).drop (i + g.length) =
        ps.map slot := List.drop_left' (by simp [position])
    rw [before, after, List.append_assoc] at placed
    exact placed
  | case3 i n ps ih =>
    have rest := ih (front ++ [.name n]) (by simp [position])
    rw [List.append_assoc, List.map_append, List.append_assoc] at rest
    exact rest
  | case4 i s ps ih =>
    have rest := ih (front ++ [.symbol s]) (by simp [position])
    rw [List.append_assoc, List.map_append, List.append_assoc] at rest
    exact rest

/-! ### Elements -/

theorem elementOf_slot {text : Text} {p : Part} {e : Element} :
    Expression.elementOf text p.slot = .ok e ↔
      e = p.element ∧ ∀ n, p = operand (.name n) → n.balance = 0 := by
  rcases p with (n | ⟨g, t⟩) | s
  · simp only [slot, Expression.elementOf]
    by_cases balanced : n.balance = 0
    · simp [balanced, element, Operand.tree, eq_comm]
    · simp [balanced]
  · simp [slot, Expression.elementOf, element, Operand.tree, eq_comm]
  · simp [slot, Expression.elementOf, element, eq_comm]

theorem mapM_elementOf {text : Text} {ps : List Part} {es : List Element} :
    (ps.map slot).mapM (Expression.elementOf text) = .ok es ↔
      es = ps.map element ∧ ∀ n, operand (.name n) ∈ ps → n.balance = 0 := by
  rw [mapM_eq_ok_iff, List.forall₂_map_left_iff]
  simp only [elementOf_slot]
  induction ps generalizing es with
  | nil => simp
  | cons p ps ih =>
    rw [List.forall₂_cons_left_iff]
    simp only [List.map_cons, List.mem_cons, or_imp, forall_and, ih]
    constructor
    · rintro ⟨e, rest, ⟨rfl, first⟩, ⟨rfl, others⟩, rfl⟩
      exact ⟨rfl, fun n same => first n same.symm, others⟩
    · rintro ⟨rfl, first, others⟩
      exact ⟨_, _, ⟨rfl, fun n same => first n same.symm⟩, ⟨rfl, others⟩, rfl⟩

end Part

namespace Expression

/-- Symbols of several relations stand at the level. -/
def Mixed (ss : List Segment) : Prop := ∃ r ∈ relationsOf ss, ∃ q ∈ relationsOf ss, r ≠ q

instance (ss : List Segment) : Decidable (Mixed ss) :=
  inferInstanceAs (Decidable (∃ r ∈ relationsOf ss, ∃ q ∈ relationsOf ss, r ≠ q))

theorem mem_relationsOf {r : Relation} {ss : List Segment} :
    r ∈ relationsOf ss ↔ ∃ s, Segment.symbol s ∈ ss ∧ s.relation = r := by
  simp only [relationsOf, Relation.distinct, List.mem_filter, Relation.mem_all, true_and,
    List.contains_iff_mem, List.mem_filterMap]
  constructor
  · rintro ⟨n | s, member, same⟩
    · simp [Segment.symbol?] at same
    · exact ⟨s, member, by simpa [Segment.symbol?] using same⟩
  · rintro ⟨s, member, rfl⟩
    exact ⟨_, member, rfl⟩

theorem Mixed.relationsOf {ss : List Segment} (mixed : Mixed ss) :
    ∃ r q rest, Expression.relationsOf ss = r :: q :: rest := by
  obtain ⟨r, hr, q, hq, different⟩ := mixed
  cases rs : Expression.relationsOf ss with
  | nil => simp [rs] at hr
  | cons u us =>
    cases us with
    | nil =>
      rw [rs, List.mem_singleton] at hr hq
      exact absurd (hr.trans hq.symm) different
    | cons v vs => exact ⟨u, v, vs, rfl⟩

/-- The elements of a level are one tree, or have symbols of one relation at most. -/
inductive Assembles : List Element → Tree → Prop
  | single (t : Tree) : Assembles [.tree t] t
  | sequence {es : List Element} (several : ∀ t, es ≠ [.tree t])
      (agree : (Relation.distinct (es.filterMap Element.symbol?)).length ≤ 1) :
      Assembles es (.sequence es)

theorem assemble_eq_ok_iff {text : Text} {slots : List Slot} {t : Tree} :
    assemble text slots = .ok t ↔
      ∃ es, slots.mapM (elementOf text) = .ok es ∧ Assembles es t := by
  unfold assemble
  cases read : slots.mapM (elementOf text) with
  | error e => simp [bind, Except.bind]
  | ok es =>
    simp only [bind, Except.bind, Except.ok.injEq, exists_eq_left']
    split
    · rename_i u
      constructor
      · rintro same
        obtain rfl := Except.ok.inj same
        exact .single _
      · intro assembled
        cases assembled with
        | single => rfl
        | sequence several => exact absurd rfl (several u)
    · rename_i several
      constructor
      · intro same
        split at same
        · simp [throw, throwThe, MonadExceptOf.throw] at same
        · rename_i agree
          obtain rfl := Except.ok.inj same
          exact .sequence several (by omega)
      · intro assembled
        cases assembled with
        | single => exact absurd rfl (several t)
        | sequence _ agree =>
          rw [if_neg (by omega)]
          rfl

theorem assemble_of_several {text : Text} {slots : List Slot} {es : List Element}
    (read : slots.mapM (elementOf text) = .ok es)
    (several : 1 < (Relation.distinct (es.filterMap Element.symbol?)).length) :
    assemble text slots = .error (.ambiguousGrouping text) := by
  unfold assemble
  rw [read]
  simp only [bind, Except.bind]
  split
  · simp [Element.symbol?, Relation.distinct] at several
  · rw [if_pos several]
    rfl

/-- How a level of several relations is read, once the spans of its groups are found. -/
theorem parseLevel_of_spans {text : Text} {ss : List Segment} {r q : Relation}
    {rest : List Relation} (relations : relationsOf ss = r :: q :: rest) {found : List Span}
    (scan : Group.spans 0 ss = .ok found) :
    Tree.parseLevel text ss =
      (found.mapM fun span => Tree.parse (Group.inner (span.slice ss))) >>= fun groups =>
        assemble text (spliced ss found groups).slots := by
  have unfolded := Tree.parseLevel_eq text ss
  rw [relations, scan] at unfolded
  exact unfolded

theorem parseLevel_of_unclosed {text : Text} {ss : List Segment} {r q : Relation}
    {rest : List Relation} (relations : relationsOf ss = r :: q :: rest) {i : Nat}
    (scan : Group.spans 0 ss = .error i) :
    Tree.parseLevel text ss = .error (.malformed text (.unclosed i)) := by
  have unfolded := Tree.parseLevel_eq text ss
  rw [relations, scan] at unfolded
  exact unfolded

/-- A level of several relations is read by reading the inside of each group and leaving all else
in its place. -/
theorem parseLevel_eq_ok_iff {text : Text} {ss : List Segment} {t : Tree} (mixed : Mixed ss) :
    Tree.parseLevel text ss = .ok t ↔
      ∃ ps : List Part, ps.flatMap Part.segments = ss ∧ (∀ p ∈ ps, p.Sound) ∧
        (∀ g u, .operand (.group g u) ∈ ps → Tree.parse (Group.inner g) = .ok u) ∧
        Assembles (ps.map Part.element) t := by
  obtain ⟨r, q, rest, relations⟩ := mixed.relationsOf
  constructor
  · intro read
    cases scan : Group.spans 0 ss with
    | error i => simp [parseLevel_of_unclosed relations scan] at read
    | ok found =>
      rw [parseLevel_of_spans relations scan] at read
      cases groups : found.mapM fun span => Tree.parse (Group.inner (span.slice ss)) with
      | error e => simp [groups, bind, Except.bind] at read
      | ok ts =>
        simp only [groups, bind, Except.bind] at read
        have pairs := mapM_eq_ok_iff.mp groups
        obtain ⟨ps, rfl, rfl, rfl, runs⟩ := Part.exists_parts scan pairs.length_eq.symm
        have slots := (Part.holds_spliced Arena.lawful ps []).slots Arena.lawful
        rw [List.map_nil, List.nil_append, List.nil_append, List.length_nil] at slots
        rw [slots] at read
        obtain ⟨es, elements, assembled⟩ := assemble_eq_ok_iff.mp read
        obtain ⟨rfl, balanced⟩ := Part.mapM_elementOf.mp elements
        refine ⟨ps, rfl, ?_, ?_, assembled⟩
        · rintro ((n | ⟨g, u⟩) | s) member
          · exact balanced n member
          · exact runs g u member
          · trivial
        · exact Part.mapM_spans.mp groups
  · rintro ⟨ps, rfl, sound, insides, assembled⟩
    have read := Part.mapM_spans.mpr insides
    have slots := (Part.holds_spliced Arena.lawful ps []).slots Arena.lawful
    rw [List.map_nil, List.nil_append, List.nil_append, List.length_nil] at slots
    have elements : (ps.map Part.slot).mapM (elementOf text) = .ok (ps.map Part.element) :=
      Part.mapM_elementOf.mpr ⟨rfl, fun n member => sound (.operand (.name n)) member⟩
    rw [parseLevel_of_spans relations (Part.spans_flatMap sound 0), read]
    simp only [bind, Except.bind, slots]
    exact assemble_eq_ok_iff.mpr ⟨_, elements, assembled⟩

end Expression

end GenreRelations
