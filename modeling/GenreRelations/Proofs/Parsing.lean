import GenreRelations.Proofs.Grammar

/-!
Parsing follows the grammar. `reads_of_parse` says that a text without dividers is parsed as a tree
only if the grammar reads its segments so, and `Reads.parse` says the reverse.
-/

namespace GenreRelations

open Segment (Alternating IsLevel tokenize)

namespace Expression

/-! ### Checks before the levels -/

theorem divider?_eq_none_iff {s : Segment} : divider? s = none ↔ s.isDivider = false := by
  rcases s with n | r | r <;> simp [divider?, Segment.isDivider]

theorem divider?_eq_some_iff {s : Segment} {r : Relation} :
    divider? s = some r ↔ s = .symbol (.divider r) := by
  rcases s with n | q | q <;> simp [divider?]

theorem dividerOf_eq_ok_none_iff {text : Text} {ss : List Segment} :
    dividerOf text ss = .ok none ↔ ∀ s ∈ ss, s.isDivider = false := by
  have none_left : ss.filterMap divider? = [] ↔ ∀ s ∈ ss, s.isDivider = false := by
    simp [List.filterMap_eq_nil_iff, divider?_eq_none_iff]
  rw [← none_left, dividerOf]
  cases ss.filterMap divider? with
  | nil => simp
  | cons d ds =>
    simp only [reduceCtorEq, iff_false]
    cases ds.find? (· ≠ d) <;> simp

theorem all_isName_eq_false {ss : List Segment} {s : Symbol} (symbol : .symbol s ∈ ss) :
    ss.all Segment.isName = false :=
  List.all_eq_false.mpr ⟨_, symbol, by simp [Segment.isName]⟩

/-- A text with a symbol is read only if its dividers agree and its symbols are in place. -/
theorem parse_of_symbol {text : Text} {s : Symbol} (symbol : .symbol s ∈ tokenize text) :
    Tree.parse text = do
      let divider ← dividerOf text (tokenize text)
      checkPositions text (tokenize text)
      match divider with
      | none => Tree.parseLevel text (tokenize text)
      | some d =>
        let trees ← ((tokenize text).splitOnP Segment.isDivider).mapM (Tree.parseLevel text)
        return .sequence (joined d (trees.map pairUp)) := by
  have named : ¬ (tokenize text).all Segment.isName = true := by simp [all_isName_eq_false symbol]
  exact (Tree.parse_eq text).trans (if_neg named)

theorem parse_of_names {text : Text} (names : ∀ s, .symbol s ∉ tokenize text) :
    Tree.parse text =
      if (tokenize text).isEmpty then .error (.malformed text .noGenre) else .ok (.leaf text) := by
  have all : (tokenize text).all Segment.isName = true := by
    rw [List.all_eq_true]
    rintro (n | s) member
    · rfl
    · exact absurd member (names s)
  rw [Tree.parse_eq, if_pos all]

/-- A text without symbols is one name as it stands, if there is anything in it. -/
theorem parse_eq_ok_iff_of_names {text : Text} {t : Tree}
    (names : ∀ s, .symbol s ∉ tokenize text) :
    Tree.parse text = .ok t ↔ tokenize text ≠ [] ∧ t = .leaf text := by
  rw [parse_of_names names]
  cases tokenize text with
  | nil => simp
  | cons x xs => simp [eq_comm]

theorem alternating_of_parse {text : Text} {t : Tree} {s : Symbol}
    (symbol : .symbol s ∈ tokenize text) (read : Tree.parse text = .ok t) :
    Alternating (tokenize text) := by
  rw [parse_of_symbol symbol] at read
  cases divider : dividerOf text (tokenize text) with
  | error e => simp [divider, bind, Except.bind] at read
  | ok d =>
    cases checked : checkPositions text (tokenize text) with
    | error e => simp [divider, checked, bind, Except.bind] at read
    | ok u => exact (checkPositions_eq_ok_iff (Segment.proper_tokenize text)).mp checked

theorem parse_eq_parseLevel {text : Text} (level : IsLevel (tokenize text))
    (several : 2 ≤ (tokenize text).length) :
    Tree.parse text = Tree.parseLevel text (tokenize text) := by
  obtain ⟨s, symbol⟩ := level.alternating.exists_symbol several
  have divider : dividerOf text (tokenize text) = .ok none :=
    dividerOf_eq_ok_none_iff.mpr level.undivided
  have checked : checkPositions text (tokenize text) = .ok () :=
    (checkPositions_eq_ok_iff (Segment.proper_tokenize text)).mpr level.alternating
  rw [parse_of_symbol symbol, divider, checked]
  rfl

theorem exists_relations {ss : List Segment} (several : 1 < (relationsOf ss).length) :
    ∃ r q rest, relationsOf ss = r :: q :: rest := by
  cases relations : relationsOf ss with
  | nil => simp [relations] at several
  | cons r rest =>
    cases rest with
    | nil => simp [relations] at several
    | cons q rest => exact ⟨r, q, rest, rfl⟩

/-- How a text of several relations without dividers is parsed, once its groups are found. -/
theorem parse_eq_of_spans {text : Text} {found : List Span}
    (undivided : ∀ s ∈ tokenize text, s.isDivider = false)
    (placed : checkPositions text (tokenize text) = .ok ())
    (several : 1 < (relationsOf (tokenize text)).length)
    (spans : Group.spans 0 (tokenize text) = .ok found) :
    Tree.parse text =
      (found.mapM fun span => Tree.parse (Group.inner (span.slice (tokenize text)))) >>= fun groups =>
        assemble text (spliced (tokenize text) found groups).slots := by
  have level : IsLevel (tokenize text) :=
    ⟨(checkPositions_eq_ok_iff (Segment.proper_tokenize text)).mp placed, undivided⟩
  obtain ⟨r, q, rest, relations⟩ := exists_relations several
  have long : 2 ≤ (tokenize text).length := by
    have isIn : r ∈ relationsOf (tokenize text) := by simp [relations]
    obtain ⟨s, symbol, -⟩ := mem_relationsOf.mp isIn
    exact level.alternating.several symbol
  rw [parse_eq_parseLevel level long, parseLevel_of_spans relations spans]

/-- How a level with several operators is parsed. -/
theorem parse_of_spans {text : Text} (found : List Span) (groups : List Tree) {t : Tree}
    (undivided : ∀ s ∈ tokenize text, s.isDivider = false)
    (placed : checkPositions text (tokenize text) = .ok ())
    (several : 1 < (relationsOf (tokenize text)).length)
    (spans : Group.spans 0 (tokenize text) = .ok found)
    (insides : (found.mapM fun span => Tree.parse (Group.inner (span.slice (tokenize text)))) =
      .ok groups)
    (assembled : assemble text (spliced (tokenize text) found groups).slots = .ok t) :
    Tree.parse text = .ok t := by
  rw [parse_eq_of_spans undivided placed several spans, insides]
  exact assembled

/-! ### Groups -/

theorem symbol_mem_inside {g : List Segment} (enclosed : Group.Enclosed g) {s : Symbol}
    (symbol : .symbol s ∈ g) : .symbol s ∈ Group.inside g := by
  obtain ⟨n, ms, m, rfl⟩ := enclosed.names
  have middle : .symbol s ∈ Segment.name n :: (ms ++ [.name m]) := by simpa using symbol
  obtain ⟨front, back, parts⟩ := List.append_of_mem middle
  rw [Group.inside_names, parts, List.flatMap_append, List.flatMap_cons, Segment.words_symbol,
    List.singleton_append, Segment.ofWords_append_symbol]
  simp

/-- A run whose inside can be read is a group. -/
theorem isGroup_of_parse {g : List Segment} {t : Tree} (run : Group.IsRun g) (level : IsLevel g)
    (read : Tree.parse (Group.inner g) = .ok t) : Group.IsGroup g := by
  have several : 2 ≤ g.length := by
    obtain ⟨n, ms, m, rfl⟩ := run.enclosed.names
    simp
  obtain ⟨s, symbol⟩ := level.alternating.exists_symbol several
  have alternating := alternating_of_parse (symbol_mem_inside run.enclosed symbol) read
  have encloses := Group.encloses_inside level.alternating run.enclosed alternating
  exact ⟨run, level, alternating, encloses.undivided_iff.mp level.undivided⟩

theorem weight_le_of_mem {ps : List Part} {p : Part} (member : p ∈ ps) :
    Segment.weight p.segments ≤ Segment.weight (ps.flatMap Part.segments) := by
  induction ps with
  | nil => simp at member
  | cons q ps ih =>
    rw [List.flatMap_cons, Segment.weight_append]
    rcases List.mem_cons.mp member with rfl | member
    · exact Nat.le_add_right _ _
    · exact Nat.le_trans (ih member) (Nat.le_add_left _ _)

end Expression

/-! ### One relation -/

namespace Relation

theorem mem_distinct {rs : List Relation} {r : Relation} : r ∈ distinct rs ↔ r ∈ rs := by
  simp [distinct, mem_all]

theorem distinct_eq_singleton {rs : List Relation} {r : Relation} (only : ∀ q, q ∈ rs ↔ q = r) :
    distinct rs = [r] := by
  cases r <;> simp [distinct, all, List.filter, only]

theorem length_distinct_le_one_iff {rs : List Relation} :
    (distinct rs).length ≤ 1 ↔ ∃ r, ∀ q ∈ rs, q = r := by
  constructor
  · intro few
    match listed : distinct rs with
    | [] =>
      refine ⟨.blend, fun q member => ?_⟩
      rw [← mem_distinct, listed] at member
      simp at member
    | [r] =>
      refine ⟨r, fun q member => ?_⟩
      rw [← mem_distinct, listed] at member
      simpa using member
    | r :: q :: rest => simp [listed] at few
  · rintro ⟨r, only⟩
    cases rs with
    | nil => decide
    | cons q rest =>
      obtain rfl := only q List.mem_cons_self
      have single : ∀ p, p ∈ q :: rest ↔ p = q :=
        fun p => ⟨only p, fun same => same ▸ List.mem_cons_self⟩
      rw [distinct_eq_singleton single]
      exact Nat.le_refl _

theorem one_lt_length_distinct_iff {rs : List Relation} :
    1 < (distinct rs).length ↔ ∃ r ∈ rs, ∃ q ∈ rs, r ≠ q := by
  rw [← Nat.not_le, length_distinct_le_one_iff]
  constructor
  · intro several
    by_contra none_differ
    push Not at none_differ several
    obtain ⟨r, first, -⟩ := several .blend
    obtain ⟨q, second, differ⟩ := several r
    exact differ (none_differ q second r first)
  · rintro ⟨r, first, q, second, differ⟩ ⟨p, only⟩
    exact differ ((only r first).trans (only q second).symm)

end Relation

namespace Expression

theorem namesOf_joined (r : Relation) (ns : List Text) :
    namesOf (Segment.joined (.operator r) (ns.map fun n => [.name n])) = ns := by
  induction ns with
  | nil => rfl
  | cons n ns ih =>
    cases ns with
    | nil => rfl
    | cons m rest =>
      have start :
          namesOf (Segment.joined (.operator r) ((n :: m :: rest).map fun n => [.name n])) =
          n :: namesOf (Segment.joined (.operator r) ((m :: rest).map fun n => [.name n])) := by
        simp only [List.map_cons]
        rw [Segment.joined_cons_cons]
        rfl
      rw [start, ih]

theorem relationsOf_joined {r : Relation} {ns : List Text} (several : 2 ≤ ns.length) :
    relationsOf (Segment.joined (.operator r) (ns.map fun n => [.name n])) = [r] := by
  refine Relation.distinct_eq_singleton fun q => ?_
  rw [← Relation.mem_distinct, ← relationsOf, mem_relationsOf]
  constructor
  · rintro ⟨s, member, rfl⟩
    rcases Segment.mem_joined.mp member with ⟨ss, listed, isIn⟩ | ⟨-, same⟩
    · obtain ⟨n, -, rfl⟩ := List.mem_map.mp listed
      simp at isIn
    · obtain rfl := Segment.symbol.inj same
      rfl
  · rintro rfl
    exact ⟨.operator q, Segment.mem_joined.mpr (.inr ⟨by simpa using several, rfl⟩), rfl⟩

/-- A level of one relation is names with its operator between them. -/
theorem exists_names {ss : List Segment} {r : Relation} (level : IsLevel ss)
    (only : ∀ s, .symbol s ∈ ss → s.relation = r) :
    ∃ ns : List Text, ss = Segment.joined (.operator r) (ns.map fun n => [.name n]) ∧
      ns ≠ [] ∧ ∀ n ∈ ns, n.IsName := by
  obtain ⟨alternating, undivided⟩ := level
  induction alternating with
  | @name n name => exact ⟨[n], by simp [Segment.joined_singleton], by simp, by simpa using name⟩
  | @cons n s ss name rest ih =>
    obtain ⟨ns, rfl, nonempty, names⟩ := ih
      (fun t member => only t (by simp [member])) (fun x member => undivided x (by simp [member]))
    obtain ⟨m, ns, rfl⟩ := List.exists_cons_of_ne_nil nonempty
    have operator : s = .operator r := by
      have relation := only s (by simp)
      have single := undivided (.symbol s) (by simp)
      cases s with
      | operator q => rw [← relation]; rfl
      | divider q => simp [Segment.isDivider] at single
    subst operator
    refine ⟨n :: m :: ns, ?_, by simp, ?_⟩
    · simp only [List.map_cons]
      rw [Segment.joined_cons_cons]
      rfl
    · intro u member
      rcases List.mem_cons.mp member with rfl | member
      · exact name
      · exact names u member

/-! ### Parsing and reading -/

theorem mixed_of_relationsOf {ss : List Segment} {r q : Relation} {rest : List Relation}
    (relations : relationsOf ss = r :: q :: rest) : Mixed ss := by
  refine ⟨r, by simp [relations], q, by simp [relations], ?_⟩
  have distinct : (relationsOf ss).Nodup :=
    (show Relation.all.Nodup by decide).sublist List.filter_sublist
  rw [relations] at distinct
  rintro rfl
  exact (List.nodup_cons.mp distinct).1 List.mem_cons_self

/-- The symbols between the parts of a level are one operator. -/
theorem exists_operator {ps : List Part} {t : Tree} (level : IsLevel (ps.flatMap Part.segments))
    (assembled : Assembles (ps.map Part.element) t) :
    ∃ r, ∀ s, Part.symbol s ∈ ps → s = .operator r := by
  have operators : ∀ s, Part.symbol s ∈ ps → s = .operator s.relation := by
    intro s member
    have isIn : .symbol s ∈ ps.flatMap Part.segments :=
      List.mem_flatMap.mpr ⟨_, member, List.mem_singleton_self _⟩
    have single := level.undivided _ isIn
    cases s with
    | operator q => rfl
    | divider q => simp [Segment.isDivider] at single
  have relation : ∃ r, ∀ q ∈ (ps.map Part.element).filterMap Element.symbol?, q = r := by
    generalize ps.map Part.element = es at assembled
    cases assembled with
    | single => exact ⟨.blend, by simp [Element.symbol?]⟩
    | sequence _ agree => exact Relation.length_distinct_le_one_iff.mp agree
  obtain ⟨r, only⟩ := relation
  refine ⟨r, fun s member => ?_⟩
  have listed : s.relation ∈ (ps.map Part.element).filterMap Element.symbol? :=
    List.mem_filterMap.mpr ⟨.symbol s.relation, List.mem_map.mpr ⟨_, member, rfl⟩, rfl⟩
  rw [operators s member, only _ listed]

/-- Operands of a mixed level are a sequence, or one group that is all. -/
theorem reads_of_operands {r : Relation} {os : List Operand} {t : Tree}
    (mixed : Mixed (Segment.joined (.operator r) (os.map Operand.segments)))
    (operands : ∀ o ∈ os, o.IsOperand)
    (read : ∀ g u, .group g u ∈ os → Reads (Group.inside g) u)
    (assembled : Assembles (joined r (os.map Operand.tree)) t) :
    Reads (Segment.joined (.operator r) (os.map Operand.segments)) t := by
  rcases os with _ | ⟨o, _ | ⟨v, os⟩⟩
  · obtain ⟨q, isIn, -⟩ := mixed
    simp [Segment.joined, mem_relationsOf] at isIn
  · simp only [List.map_cons, List.map_nil, Segment.joined_singleton] at mixed assembled ⊢
    cases o with
    | name n =>
      obtain ⟨q, isIn, -⟩ := mixed
      obtain ⟨s, symbol, -⟩ := mem_relationsOf.mp isIn
      simp [Operand.segments] at symbol
    | group g u =>
      have group : Group.IsGroup g := operands (.group g u) (by simp)
      cases assembled with
      | single => exact .enclosed mixed group (read g u (by simp))
      | sequence several => exact absurd rfl (several u)
  · simp only [List.map_cons] at assembled ⊢
    cases assembled with
    | sequence => exact .sequence r operands (by simp) mixed read

/-- The parts of a mixed level are operands joined by one relation. -/
theorem reads_of_parts {ps : List Part} {t : Tree} (level : IsLevel (ps.flatMap Part.segments))
    (mixed : Mixed (ps.flatMap Part.segments)) (sound : ∀ p ∈ ps, p.Sound)
    (insides : ∀ g u, .operand (.group g u) ∈ ps → IsLevel g →
      Group.IsGroup g ∧ Reads (Group.inside g) u)
    (assembled : Assembles (ps.map Part.element) t) : Reads (ps.flatMap Part.segments) t := by
  obtain ⟨r, agree⟩ := exists_operator level assembled
  obtain ⟨os, rfl, alternating⟩ := Part.exists_operands level.alternating sound agree
  have inside := fun o (member : o ∈ os) => Part.operand_mem_intersperse member (.operator r)
  rw [Part.flatMap_segments_intersperse] at level mixed ⊢
  rw [Part.map_element_intersperse] at assembled
  have levels : ∀ o ∈ os, IsLevel o.segments := by
    intro o member
    refine ⟨alternating o member, fun x isIn => level.undivided x ?_⟩
    exact Segment.mem_joined.mpr (.inl ⟨_, List.mem_map.mpr ⟨o, member, rfl⟩, isIn⟩)
  refine reads_of_operands mixed ?_ ?_ assembled
  · rintro (n | ⟨g, u⟩) member
    · exact ⟨(alternating _ member).head, sound _ (inside _ member)⟩
    · exact (insides g u (inside _ member) (levels _ member)).1
  · intro g u member
    exact (insides g u (inside _ member) (levels _ member)).2

/-- How a level is read, if what the groups inside it are read as follows the grammar. -/
theorem reads_of_parseLevel {text : Text} {ss : List Segment} {t : Tree} (level : IsLevel ss)
    (insides : ∀ g u, Segment.weight g ≤ Segment.weight ss → Group.IsGroup g →
      Tree.parse (Group.inner g) = .ok u → Reads (Group.inside g) u)
    (read : Tree.parseLevel text ss = .ok t) : Reads ss t := by
  cases relations : relationsOf ss with
  | nil =>
    obtain ⟨ns, rfl, nonempty, names⟩ := exists_names (r := .blend) level fun s member => by
      have listed : s.relation ∈ relationsOf ss := mem_relationsOf.mpr ⟨s, member, rfl⟩
      simp [relations] at listed
    rcases ns with _ | ⟨n, _ | ⟨m, ns⟩⟩
    · exact absurd rfl nonempty
    · rw [Tree.parseLevel_eq, relations, namesOf_joined] at read
      obtain rfl := Except.ok.inj read
      exact .name (names n (by simp))
    · rw [relationsOf_joined (by simp)] at relations
      simp at relations
  | cons r rest =>
    cases rest with
    | nil =>
      have only : ∀ s, .symbol s ∈ ss → s.relation = r := by
        intro s member
        have listed : s.relation ∈ relationsOf ss := mem_relationsOf.mpr ⟨s, member, rfl⟩
        simpa [relations] using listed
      obtain ⟨ns, rfl, nonempty, names⟩ := exists_names level only
      rcases ns with _ | ⟨n, _ | ⟨m, ns⟩⟩
      · exact absurd rfl nonempty
      · have isIn : r ∈ relationsOf [Segment.name n] := by
          simpa [Segment.joined_singleton] using relations ▸ List.mem_singleton_self r
        simp [mem_relationsOf] at isIn
      · rw [Tree.parseLevel_eq, relations, namesOf_joined] at read
        obtain rfl := Except.ok.inj read
        exact .chain r names (by simp)
    | cons q rest =>
      have mixed := mixed_of_relationsOf relations
      obtain ⟨ps, rfl, sound, groups, assembled⟩ := (parseLevel_eq_ok_iff mixed).mp read
      refine reads_of_parts level mixed sound ?_ assembled
      intro g u member isLevel
      have run : Group.IsRun g := sound _ member
      have group := isGroup_of_parse run isLevel (groups g u member)
      exact ⟨group, insides g u (weight_le_of_mem member) group (groups g u member)⟩

theorem several_of_isGroup {g : List Segment} (group : Group.IsGroup g) :
    2 ≤ (Group.inside g).length :=
  group.encloses.several

/-- What is parsed follows the grammar. -/
theorem reads_of_parse {text : Text} {t : Tree}
    (undivided : ∀ s ∈ tokenize text, s.isDivider = false) {s : Symbol}
    (symbol : .symbol s ∈ tokenize text) (read : Tree.parse text = .ok t) :
    Reads (tokenize text) t := by
  generalize bound : text.weight = w
  induction w using Nat.strongRecOn generalizing text t s with
  | ind w ih =>
    have alternating := alternating_of_parse symbol read
    have level : IsLevel (tokenize text) := ⟨alternating, undivided⟩
    rw [parse_eq_parseLevel level (alternating.several symbol)] at read
    refine reads_of_parseLevel level ?_ read
    -- a group is no heavier than the text, and its inside is lighter than the group
    intro g u lighter group inner
    have weight := Group.weight_inner group.run.enclosed
    rw [Segment.weight_tokenize] at lighter
    obtain ⟨q, within⟩ := group.inside.alternating.exists_symbol (several_of_isGroup group)
    exact ih _ (by omega) group.inside.undivided within inner rfl

/-! ### What the grammar reads is parsed -/

theorem parseLevel_of_mixed {text : Text} {ps : List Part} {t : Tree}
    (mixed : Mixed (ps.flatMap Part.segments)) (sound : ∀ p ∈ ps, p.Sound)
    (groups : ∀ g u, .operand (.group g u) ∈ ps → Tree.parse (Group.inner g) = .ok u)
    (assembled : Assembles (ps.map Part.element) t) :
    Tree.parseLevel text (ps.flatMap Part.segments) = .ok t :=
  (parseLevel_eq_ok_iff mixed).mpr ⟨ps, rfl, sound, groups, assembled⟩

theorem symbols_joined {r : Relation} {ts : List Tree} :
    ∀ q ∈ (joined r ts).filterMap Element.symbol?, q = r := by
  induction ts with
  | nil => simp [joined]
  | cons t ts ih =>
    cases ts with
    | nil => simp [joined, Element.symbol?]
    | cons u ts =>
      intro q member
      rcases List.mem_cons.mp member with rfl | member
      · rfl
      · exact ih q member

end Expression

open Expression

theorem Operand.IsOperand.sound {o : Operand} (operand : o.IsOperand) :
    (Part.operand o).Sound := by
  cases o with
  | name n => exact operand.2
  | group g t => exact operand.run

theorem Reads.composite {ss : List Segment} {t : Tree} (reads : Reads ss t)
    (several : 2 ≤ ss.length) : t.isLeaf = false := by
  induction reads with
  | name => simp at several
  | chain => rfl
  | enclosed _ group _ ih => exact ih (several_of_isGroup group)
  | sequence => rfl

/-- The inside of a group is parsed as one level. -/
theorem Group.IsGroup.parse_inner {g : List Segment} {t : Tree} (group : Group.IsGroup g)
    (read : ∀ text, Tree.parseLevel text (Group.inside g) = .ok t) :
    Tree.parse (Group.inner g) = .ok t := by
  rw [parse_eq_parseLevel group.inside (several_of_isGroup group)]
  exact read _

theorem Reads.parseLevel {ss : List Segment} {t : Tree} (reads : Reads ss t) (text : Text) :
    Tree.parseLevel text ss = .ok t := by
  induction reads generalizing text with
  | @name n name =>
    have none_left : relationsOf [Segment.name n] = [] := rfl
    rw [Tree.parseLevel_eq, none_left]
    rfl
  | chain r names several =>
    rw [Tree.parseLevel_eq, relationsOf_joined several, namesOf_joined]
  | @enclosed g t mixed group read ih =>
    have whole : [Part.operand (.group g t)].flatMap Part.segments = g := by
      simp [Part.segments, Operand.segments]
    rw [← whole] at mixed ⊢
    refine parseLevel_of_mixed mixed ?_ ?_ (.single t)
    · intro p member
      obtain rfl := List.mem_singleton.mp member
      exact group.run
    · intro h u member
      obtain ⟨rfl, rfl⟩ := by simpa using member
      exact group.parse_inner ih
  | @sequence r os operands several mixed read ih =>
    rw [← Part.flatMap_segments_intersperse] at mixed ⊢
    rw [← Part.map_element_intersperse]
    refine parseLevel_of_mixed mixed ?_ ?_ (.sequence ?_ ?_)
    · intro p member
      rcases Part.mem_intersperse member with rfl | ⟨o, isIn, rfl⟩
      · trivial
      · exact (operands o isIn).sound
    · intro g u member
      rcases Part.mem_intersperse member with same | ⟨o, isIn, same⟩
      · simp at same
      · obtain rfl := Part.operand.inj same
        have group : Group.IsGroup g := operands _ isIn
        exact group.parse_inner (ih g u isIn)
    · intro u single
      rcases os with _ | ⟨o, _ | ⟨v, os⟩⟩
      · simp at several
      · simp at several
      · simp at single
    · rw [Part.map_element_intersperse]
      exact Relation.length_distinct_le_one_iff.mpr ⟨r, symbols_joined⟩

/-- What follows the grammar is parsed. -/
theorem Reads.parse {text : Text} {t : Tree} (reads : Reads (tokenize text) t)
    (several : 2 ≤ (tokenize text).length) : Tree.parse text = .ok t := by
  rw [parse_eq_parseLevel reads.isLevel several]
  exact reads.parseLevel text

end GenreRelations
