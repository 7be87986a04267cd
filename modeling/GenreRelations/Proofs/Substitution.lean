import GenreRelations.Proofs.Parsing

/-!
Groups put in place all at once. A level puts its groups in place one by one, from the last to the
first. `Expression.slots_spliced` says that this is the same as to replace all of them at once, each
place of the level for itself: a group stands where its span starts, nothing where the span goes on,
and a segment outside all spans stays. `Tree.parseLevel_substituted` reads the level off the result.
-/

namespace GenreRelations

open Expression (assemble elementOf relationsOf spliced)

namespace Span

def Covers (span : Span) (i : Nat) : Prop := span.start ≤ i ∧ i < span.stop

instance (span : Span) (i : Nat) : Decidable (span.Covers i) :=
  inferInstanceAs (Decidable (_ ∧ _))

end Span

namespace Slot

/-- The element that a slot stands for, where every name is a leaf. -/
def element : Slot → Element
  | group t => .tree t
  | segment (.name n) => .tree (.leaf n)
  | segment (.symbol s) => .symbol s.relation

/-- What stands for the segment at a place: its group, if it is the first segment of one. -/
def placed (groups : List (Span × Tree)) (i : Nat) (s : Segment) : List Slot :=
  match groups.find? fun p => p.1.Covers i with
  | none => [.segment s]
  | some (span, t) => if i = span.start then [.group t] else []

/-- The segments with a group in the place of each span, all put there at once. -/
def substituted (ss : List Segment) (groups : List (Span × Tree)) : List Slot :=
  ss.zipIdx.flatMap fun p => placed groups p.2 p.1

/-! ### One place -/

theorem placed_of_outside {groups : List (Span × Tree)} {i : Nat}
    (outside : ∀ p ∈ groups, ¬ p.1.Covers i) (s : Segment) : placed groups i s = [.segment s] := by
  have none_found : (groups.find? fun p => p.1.Covers i) = none := by
    simpa [List.find?_eq_none] using outside
  rw [placed, none_found]

theorem placed_of_covers {before after : List (Span × Tree)} {span : Span} {i : Nat}
    (outside : ∀ p ∈ before, ¬ p.1.Covers i) (covers : span.Covers i) (t : Tree) (s : Segment) :
    placed (before ++ (span, t) :: after) i s = if i = span.start then [.group t] else [] := by
  have none_found : (before.find? fun p => p.1.Covers i) = none := by
    simpa [List.find?_eq_none] using outside
  rw [placed, List.find?_append, none_found, Option.none_or, List.find?_cons_of_pos (by simpa)]

theorem outside_of_mem_placed {groups : List (Span × Tree)} {i : Nat} {s u : Segment}
    (member : .segment u ∈ placed groups i s) : u = s ∧ ∀ p ∈ groups, ¬ p.1.Covers i := by
  unfold placed at member
  split at member
  · rename_i none_found
    exact ⟨by simpa using member, by simpa [List.find?_eq_none] using none_found⟩
  · split at member <;> simp at member

end Slot

namespace Part

/-! ### Parts of a level -/

theorem le_start_of_mem_spans {ps : List Part} {i : Nat} {span : Span}
    (member : span ∈ spans i ps) : i ≤ span.start := by
  fun_induction spans i ps with
  | case1 => simp at member
  | case2 i g t ps ih =>
    rcases List.mem_cons.mp member with rfl | later
    · exact Nat.le_refl _
    · exact Nat.le_trans (Nat.le_add_right _ _) (ih later)
  | case3 i n ps ih => exact Nat.le_trans (Nat.le_succ _) (ih member)
  | case4 i s ps ih => exact Nat.le_trans (Nat.le_succ _) (ih member)

theorem element_slot (p : Part) : p.slot.element = p.element := by
  rcases p with (n | ⟨g, t⟩) | s <;> rfl

def placedGroups (i : Nat) (ps : List Part) : List (Span × Tree) :=
  (spans i ps).zip ((groups ps).map Prod.snd)

section

variable {before : List (Span × Tree)} {i : Nat} (passed : ∀ p ∈ before, p.1.stop ≤ i)

include passed

theorem outside_of_passed {j : Nat} (le : i ≤ j) : ∀ p ∈ before, ¬ p.1.Covers j := by
  intro p member covers
  have behind := passed p member
  have within := covers.2
  omega

theorem flatMap_placed_group {g : List Segment} (nonempty : g ≠ []) (t : Tree)
    (after : List (Span × Tree)) :
    ((g.zipIdx i).flatMap fun p =>
      Slot.placed (before ++ (⟨i, i + g.length⟩, t) :: after) p.2 p.1) = [.group t] := by
  obtain ⟨s, ms, rfl⟩ := List.exists_cons_of_ne_nil nonempty
  have here : Span.Covers ⟨i, i + (s :: ms).length⟩ i := ⟨Nat.le_refl i, by simp⟩
  have first :
      Slot.placed (before ++ (⟨i, i + (s :: ms).length⟩, t) :: after) i s = [.group t] := by
    rw [Slot.placed_of_covers (outside_of_passed passed (Nat.le_refl i)) here, if_pos rfl]
  have others : ((ms.zipIdx (i + 1)).flatMap fun p =>
      Slot.placed (before ++ (⟨i, i + (s :: ms).length⟩, t) :: after) p.2 p.1) = [] := by
    refine List.flatMap_eq_nil_iff.mpr fun p member => ?_
    have above := List.le_snd_of_mem_zipIdx member
    have below := List.snd_lt_add_of_mem_zipIdx member
    have covers : Span.Covers ⟨i, i + (s :: ms).length⟩ p.2 :=
      ⟨Nat.le_of_succ_le above, by simpa [Nat.add_comm, Nat.add_left_comm] using below⟩
    rw [Slot.placed_of_covers (outside_of_passed passed (Nat.le_of_succ_le above)) covers,
      if_neg (Nat.ne_of_gt above)]
  rw [List.zipIdx_cons, List.flatMap_cons, others, List.append_nil]
  exact first

theorem placed_ahead (ps : List Part) (s : Segment) :
    Slot.placed (before ++ placedGroups (i + 1) ps) i s = [.segment s] := by
  refine Slot.placed_of_outside (fun p member => ?_) s
  rcases List.mem_append.mp member with member | member
  · exact outside_of_passed passed (Nat.le_refl i) p member
  · intro covers
    have ahead := le_start_of_mem_spans (List.of_mem_zip member).1
    have within := covers.1
    omega

end

/-- The parts of a level are what is left of its segments once its groups are in place. The scan
goes from left to right, so the groups before a part are passed and those behind it ahead. -/
theorem flatMap_placed {ps : List Part}
    (runs : ∀ g t, operand (.group g t) ∈ ps → Group.IsRun g) {i : Nat}
    {before : List (Span × Tree)} (passed : ∀ p ∈ before, p.1.stop ≤ i) :
    (((ps.flatMap segments).zipIdx i).flatMap fun p =>
      Slot.placed (before ++ placedGroups i ps) p.2 p.1) = ps.map slot := by
  fun_induction spans i ps generalizing before with
  | case1 => rfl
  | case2 i g t ps ih =>
    have nonempty : g ≠ [] := by
      obtain ⟨n, ms, m, rfl⟩ := (runs g t List.mem_cons_self).enclosed.names
      simp
    have passedToo : ∀ p ∈ before ++ [(⟨i, i + g.length⟩, t)], p.1.stop ≤ i + g.length := by
      intro p member
      rcases List.mem_append.mp member with member | member
      · exact Nat.le_trans (passed p member) (Nat.le_add_right _ _)
      · obtain rfl := List.mem_singleton.mp member
        exact Nat.le_refl _
    have rest := ih (fun h u member => runs h u (List.mem_cons_of_mem _ member)) passedToo
    have own := flatMap_placed_group passed nonempty t (placedGroups (i + g.length) ps)
    rw [List.append_assoc] at rest
    rw [List.flatMap_cons, List.zipIdx_append, List.flatMap_append]
    exact congrArg₂ (· ++ ·) own rest
  | case3 i n ps ih =>
    have rest := ih (fun h u member => runs h u (List.mem_cons_of_mem _ member))
      fun p member => Nat.le_succ_of_le (passed p member)
    exact congrArg₂ (· ++ ·) (placed_ahead passed ps (.name n)) rest
  | case4 i s ps ih =>
    have rest := ih (fun h u member => runs h u (List.mem_cons_of_mem _ member))
      fun p member => Nat.le_succ_of_le (passed p member)
    exact congrArg₂ (· ++ ·) (placed_ahead passed ps (.symbol s)) rest

end Part

namespace Expression

/-! ### Groups in place -/

section

variable {ss : List Segment} {found : List Span} {groups : List Tree}
  (scan : Group.spans 0 ss = .ok found) (length : groups.length = found.length)

include scan length

theorem exists_parts_in_place {A : Storage Slot} (lawful : A.Lawful) :
    ∃ ps : List Part, ps.flatMap Part.segments = ss ∧
      (spliced ss found groups A).slots = ps.map Part.slot ∧
      Slot.substituted ss (found.zip groups) = ps.map Part.slot := by
  obtain ⟨ps, rfl, rfl, rfl, runs⟩ := Part.exists_parts scan length
  have oneByOne := (Part.holds_spliced lawful ps []).slots lawful
  rw [List.map_nil, List.nil_append, List.nil_append, List.length_nil] at oneByOne
  exact ⟨ps, rfl, oneByOne, @Part.flatMap_placed ps runs 0 [] (by simp)⟩

/-- To put groups in place one by one is to put them there at once. -/
theorem slots_spliced {A : Storage Slot} (lawful : A.Lawful) :
    (spliced ss found groups A).slots = Slot.substituted ss (found.zip groups) := by
  obtain ⟨ps, -, oneByOne, atOnce⟩ := exists_parts_in_place scan length lawful
  exact oneByOne.trans atOnce.symm

/-- One element alone is no symbol, for a symbol is not a level of several relations. -/
theorem exists_tree_of_single (several : 1 < (relationsOf ss).length) {e : Element}
    (single : (Slot.substituted ss (found.zip groups)).map Slot.element = [e]) :
    ∃ t, e = .tree t := by
  obtain ⟨ps, rfl, -, atOnce⟩ := exists_parts_in_place scan length Arena.lawful
  rw [atOnce, List.map_map, List.map_eq_singleton_iff] at single
  obtain ⟨p, rfl, rfl⟩ := single
  rcases p with (n | ⟨g, t⟩) | s
  · exact ⟨.leaf n, rfl⟩
  · exact ⟨t, rfl⟩
  · simp [Part.segments, relationsOf, Segment.symbol?, Relation.distinct_eq_singleton] at several

end

section

variable {ss : List Segment} {found : List Span} {groups : List Tree}

theorem outside_of_mem_substituted (length : groups.length = found.length) {u : Segment}
    (member : .segment u ∈ Slot.substituted ss (found.zip groups)) :
    ∃ i, ss[i]? = some u ∧ ∀ span ∈ found, ¬ span.Covers i := by
  obtain ⟨⟨s, i⟩, listed, isIn⟩ := List.mem_flatMap.mp member
  obtain ⟨rfl, outside⟩ := Slot.outside_of_mem_placed isIn
  refine ⟨i, List.mem_zipIdx_iff_getElem?.mp listed, fun span spanFound => ?_⟩
  have spans : (found.zip groups).map Prod.fst = found :=
    List.map_fst_zip (Nat.le_of_eq length.symm)
  obtain ⟨p, paired, rfl⟩ := List.mem_map.mp (spans.symm ▸ spanFound)
  exact outside p paired

theorem elements_substituted (scan : Group.spans 0 ss = .ok found)
    (length : groups.length = found.length)
    (closed : ∀ i n, ss[i]? = some (.name n) → (∀ span ∈ found, ¬ span.Covers i) → n.balance = 0)
    (text : Text) : (Slot.substituted ss (found.zip groups)).mapM (elementOf text) =
      .ok ((Slot.substituted ss (found.zip groups)).map Slot.element) := by
  obtain ⟨ps, -, -, atOnce⟩ := exists_parts_in_place scan length Arena.lawful
  have balanced : ∀ n, Part.operand (.name n) ∈ ps → n.balance = 0 := by
    intro n member
    have stays : .segment (.name n) ∈ Slot.substituted ss (found.zip groups) :=
      atOnce ▸ List.mem_map.mpr ⟨_, member, rfl⟩
    obtain ⟨i, here, outside⟩ := outside_of_mem_substituted length stays
    exact closed i n here outside
  rw [atOnce, Part.mapM_elementOf, List.map_map]
  exact ⟨List.map_congr_left fun p _ => Part.element_slot p, balanced⟩

theorem parseLevel_eq_assemble (text : Text) (several : 1 < (relationsOf ss).length)
    (scan : Group.spans 0 ss = .ok found)
    (insides : (found.mapM fun span => Tree.parse (Group.inner (span.slice ss))) = .ok groups) :
    Tree.parseLevel text ss = assemble text (Slot.substituted ss (found.zip groups)) := by
  obtain ⟨r, q, rest, relations⟩ := exists_relations several
  have length : groups.length = found.length := (mapM_eq_ok_iff.mp insides).length_eq.symm
  rw [parseLevel_of_spans relations scan, insides, ← slots_spliced scan length Arena.lawful]
  rfl

end

/-! ### Elements of a level -/

/-- Symbols of several relations stand among the elements. -/
def Mixes (es : List Element) : Prop := ∃ r, .symbol r ∈ es ∧ ∃ q, .symbol q ∈ es ∧ r ≠ q

theorem symbol_mem_iff {es : List Element} {r : Relation} :
    r ∈ es.filterMap Element.symbol? ↔ .symbol r ∈ es := by
  rw [List.mem_filterMap]
  constructor
  · rintro ⟨t | q, member, same⟩
    · cases same
    · obtain rfl := Option.some.inj same
      exact member
  · exact fun member => ⟨_, member, rfl⟩

theorem mixes_iff {es : List Element} :
    Mixes es ↔ 1 < (Relation.distinct (es.filterMap Element.symbol?)).length := by
  rw [Relation.one_lt_length_distinct_iff]
  simp only [symbol_mem_iff, Mixes]

instance (es : List Element) : Decidable (Mixes es) := decidable_of_iff _ mixes_iff.symm

section

variable {text : Text} {slots : List Slot} {es : List Element}
  (read : slots.mapM (elementOf text) = .ok es)

include read

theorem assembles_of_not_mixes (agree : ¬ Mixes es) :
    ∃ t, assemble text slots = .ok t ∧ Assembles es t := by
  have assembled : ∃ t, Assembles es t := by
    by_cases single : ∃ t, es = [.tree t]
    · obtain ⟨t, rfl⟩ := single
      exact ⟨t, .single t⟩
    · exact ⟨_, .sequence (not_exists.mp single) (Nat.not_lt.mp (mt mixes_iff.mpr agree))⟩
  obtain ⟨t, assembles⟩ := assembled
  exact ⟨t, assemble_eq_ok_iff.mpr ⟨es, read, assembles⟩, assembles⟩

theorem assemble_eq_error_iff :
    assemble text slots = .error (.ambiguousGrouping text) ↔ Mixes es := by
  constructor
  · intro ambiguous
    by_contra agree
    obtain ⟨t, assembled, -⟩ := assembles_of_not_mixes read agree
    rw [assembled] at ambiguous
    cases ambiguous
  · exact fun mixes => assemble_of_several read (mixes_iff.mp mixes)

theorem assemble_of_single {t : Tree} (single : es = [.tree t]) :
    assemble text slots = .ok t := by
  subst single
  exact assemble_eq_ok_iff.mpr ⟨_, read, .single t⟩

theorem assemble_of_more (more : es.length ≠ 1) (agree : ¬ Mixes es) :
    assemble text slots = .ok (.sequence es) := by
  obtain ⟨t, assembled, assembles⟩ := assembles_of_not_mixes read agree
  cases assembles with
  | single => simp at more
  | sequence => exact assembled

end

end Expression

namespace Tree

open Expression

/-- A level that mixes operators is read as its segments with all groups in place. -/
theorem parseLevel_substituted {A : Storage Slot} (lawful : A.Lawful) {text : Text}
    {ss : List Segment} {found : List Span} {groups : List Tree}
    (several : 1 < (relationsOf ss).length) (scan : Group.spans 0 ss = .ok found)
    (insides : (found.mapM fun span => parse (Group.inner (span.slice ss))) = .ok groups)
    (closed : ∀ i n, ss[i]? = some (.name n) → (∀ span ∈ found, ¬ span.Covers i) →
      n.balance = 0) :
    let es := (Slot.substituted ss (found.zip groups)).map Slot.element
    (spliced ss found groups A).slots = Slot.substituted ss (found.zip groups) ∧
    (parseLevel text ss = .error (.ambiguousGrouping text) ↔ Mixes es) ∧
    (∀ e, es = [e] → ∃ t, e = .tree t ∧ parseLevel text ss = .ok t) ∧
    (es.length ≠ 1 → ¬ Mixes es → parseLevel text ss = .ok (.sequence es)) := by
  intro es
  have length : groups.length = found.length := (mapM_eq_ok_iff.mp insides).length_eq.symm
  have read := elements_substituted scan length closed text
  rw [parseLevel_eq_assemble text several scan insides]
  refine ⟨slots_spliced scan length lawful, assemble_eq_error_iff read, ?_, assemble_of_more read⟩
  intro e single
  obtain ⟨t, rfl⟩ := exists_tree_of_single scan length several single
  exact ⟨t, rfl, assemble_of_single read single⟩

theorem parseLevel_substituted_two :
    let ss := Segment.tokenize "(A | B) > C > (D ~ E ~ F)".toList
    let pair : Tree := .chain .blend [.leaf "A".toList, .leaf "B".toList]
    let triple : Tree := .chain .fuse [.leaf "D".toList, .leaf "E".toList, .leaf "F".toList]
    (spliced ss [⟨0, 3⟩, ⟨6, 11⟩] [pair, triple]).slots =
      [.group pair, .segment (.symbol (.operator .derive)), .segment (.name ['C']),
        .segment (.symbol (.operator .derive)), .group triple] ∧
    parseLevel [] ss = .ok (.sequence [.tree pair, .symbol .derive, .tree (.leaf ['C']),
      .symbol .derive, .tree triple]) := by
  intro ss pair triple
  have first : Group.IsRun (Segment.tokenize "(A | B)".toList) := by decide
  have second : Group.IsRun (Segment.tokenize "(D ~ E ~ F)".toList) := by decide
  have scan : Group.spans 0 ss = .ok [⟨0, 3⟩, ⟨6, 11⟩] := by
    have last : Group.spans 6 (Segment.tokenize "(D ~ E ~ F)".toList) = .ok [⟨6, 11⟩] :=
      @Group.IsRun.spans _ [] second 6 [] (by simp [Group.spans])
    have behind : Group.spans 3 (.symbol (.operator .derive) :: .name ['C'] ::
        .symbol (.operator .derive) :: Segment.tokenize "(D ~ E ~ F)".toList) =
        .ok [⟨6, 11⟩] := by
      simpa [Group.spans, Group.opens] using last
    exact @Group.IsRun.spans _ _ first 0 _ behind
  have insides : ([⟨0, 3⟩, ⟨6, 11⟩] : List Span).mapM (fun span =>
      parse (Group.inner (span.slice ss))) = .ok [pair, triple] := by
    have one : parse "A | B".toList = .ok pair := by cbv
    have two : parse "D ~ E ~ F".toList = .ok triple := by cbv
    exact mapM_eq_ok_iff.mpr (.cons one (.cons two .nil))
  have closed : ∀ i n, ss[i]? = some (.name n) →
      (∀ span ∈ ([⟨0, 3⟩, ⟨6, 11⟩] : List Span), ¬ span.Covers i) → n.balance = 0 := by
    intro i n here outside
    have below : i < 11 := (List.getElem?_eq_some_iff.mp here).1
    have own : ∀ i < 11, (∃ span ∈ ([⟨0, 3⟩, ⟨6, 11⟩] : List Span), span.Covers i) ∨
        (ss[i]?.map fun s => s.text.balance).getD 0 = 0 := by decide
    rcases own i below with ⟨span, found, covers⟩ | balanced
    · exact absurd covers (outside span found)
    · simpa [here, Segment.text] using balanced
  obtain ⟨slots, -, -, sequence⟩ := @parseLevel_substituted _ Arena.lawful [] ss _ _ (by decide)
    scan insides closed
  exact ⟨slots.trans rfl, sequence (by decide) (by decide)⟩

end Tree

end GenreRelations
