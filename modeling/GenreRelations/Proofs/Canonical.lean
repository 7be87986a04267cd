import GenreRelations.Proofs.Writing

/-!
Canonical text of parsed trees. What is read from one level and what is written for it differ in
spaces and in parentheses that enclose a whole level, but symbols and balances stay where they are.
So the canonical text is read as the same tree: `Tree.parse_canonical`.
-/

namespace GenreRelations

open Expression (Mixed joined mem_relationsOf)
open Segment (Alternating IsLevel Stays tokenize)

namespace Segment

/-- The second segments may stand in the place of the first: the symbols and the balance are the
same, and a running balance that stays positive over the first stays positive over the second. -/
structure Suits (old new : List Segment) : Prop where
  symbols : ∀ s, .symbol s ∈ new ↔ .symbol s ∈ old
  balance : Segment.balance new = Segment.balance old
  stays : ∀ d : Int, 0 < d → Stays d old.dropLast → Stays d new.dropLast

theorem Suits.refl (ss : List Segment) : Suits ss ss :=
  ⟨fun _ => Iff.rfl, rfl, fun _ _ stays => stays⟩

theorem Suits.mixed {old new : List Segment} (suits : Suits old new) :
    Mixed new ↔ Mixed old := by
  simp only [Mixed, mem_relationsOf, suits.symbols]

theorem Suits.trans {first second third : List Segment} (before : Suits first second)
    (after : Suits second third) : Suits first third := by
  refine ⟨fun s => (after.symbols s).trans (before.symbols s),
    after.balance.trans before.balance, ?_⟩
  intro d positive stays
  exact after.stays d positive (before.stays d positive stays)

/-- A run may lose its parentheses. -/
theorem suits_inside {g inner : List Segment} (encloses : Group.Encloses g inner)
    (run : Group.IsRun g) : Suits g inner := by
  refine ⟨fun s => encloses.symbol_mem.symm, encloses.balance.symm, ?_⟩
  -- a run keeps its inside positive, wherever it starts
  intro d positive _
  exact (encloses.isRun_iff.mp run).1.mono (by omega)

/-- A level may be put in parentheses where these make a run. -/
theorem suits_enclosing {g inner : List Segment} (encloses : Group.Encloses g inner)
    (run : Group.IsRun g) : Suits inner g := by
  refine ⟨fun s => encloses.symbol_mem, encloses.balance, ?_⟩
  intro d positive _
  exact run.stays.mono (by omega)

theorem suits_joined {α : Type} {s : Symbol} {f g : α → List Segment} {xs : List α}
    (suits : ∀ x ∈ xs, Suits (f x) (g x)) (old : ∀ x ∈ xs, f x ≠ [])
    (new : ∀ x ∈ xs, g x ≠ []) : Suits (joined s (xs.map f)) (joined s (xs.map g)) := by
  have symbols : ∀ t, .symbol t ∈ joined s (xs.map g) ↔ .symbol t ∈ joined s (xs.map f) := by
    intro t
    rw [mem_joined, mem_joined]
    simp only [List.mem_map, exists_exists_and_eq_and, List.length_map]
    refine or_congr_left ⟨?_, ?_⟩
    · rintro ⟨x, member, isIn⟩
      exact ⟨x, member, ((suits x member).symbols t).mp isIn⟩
    · rintro ⟨x, member, isIn⟩
      exact ⟨x, member, ((suits x member).symbols t).mpr isIn⟩
  suffices running : balance (joined s (xs.map g)) = balance (joined s (xs.map f)) ∧
      ∀ d : Int, 0 < d → Stays d (joined s (xs.map f)).dropLast →
        Stays d (joined s (xs.map g)).dropLast from ⟨symbols, running.1, running.2⟩
  clear symbols
  induction xs with
  | nil => exact ⟨rfl, fun _ _ stays => stays⟩
  | cons x xs ih =>
    have first := suits x List.mem_cons_self
    cases xs with
    | nil =>
      simp only [List.map_cons, List.map_nil, joined_singleton]
      exact ⟨first.balance, first.stays⟩
    | cons y ys =>
      obtain ⟨balance, stays⟩ := ih (fun z member => suits z (List.mem_cons_of_mem _ member))
        (fun z member => old z (List.mem_cons_of_mem _ member))
        (fun z member => new z (List.mem_cons_of_mem _ member))
      simp only [List.map_cons] at balance stays ⊢
      constructor
      · rw [balance_joined_cons_cons, balance_joined_cons_cons, first.balance, balance]
      · intro d positive before
        rw [stays_joined_cons_cons (old x (by simp)) (old y (by simp))] at before
        rw [stays_joined_cons_cons (new x (by simp)) (new y (by simp)), first.balance]
        obtain ⟨inner, between, later⟩ := before
        exact ⟨first.stays d positive inner, between, stays _ between later⟩

end Segment

open Segment (Suits)

/-! ### Trees read from one level -/

/-- The canonical text of the tree takes the place of the segments that the tree is read from. -/
structure Rewritten (ss : List Segment) (t : Tree) : Prop where
  reads : Reads (tokenize t.canonical) t
  written : Segment.join (tokenize t.canonical) = t.canonical
  suits : Suits ss (tokenize t.canonical)

/-- A tree that is read from the inside of a group is written as a group again. -/
theorem Rewritten.stands {g : List Segment} {t : Tree} (group : Group.IsGroup g)
    (rewritten : Rewritten (Group.inside g) t) :
    Tree.Stands t t (.group t.operandSegments t) ∧ Suits g t.operandSegments := by
  obtain ⟨reads, written, suits⟩ := rewritten
  have several : 2 ≤ (tokenize t.canonical).length := by
    obtain ⟨s, symbol⟩ :=
      group.inside.alternating.exists_symbol (Expression.several_of_isGroup group)
    exact reads.isLevel.alternating.several ((suits.symbols s).mpr symbol)
  have composite := reads.composite several
  obtain ⟨stays, closed⟩ := group.encloses.isRun_iff.mp group.run
  have stands : Tree.Stands t t (.group t.operandSegments t) :=
    Tree.stands_group composite reads written several (suits.stays 1 (by omega) stays)
      (suits.balance ▸ closed)
  have encloses := (Tree.encloses_operandSegments composite reads written several).1
  have run : Group.IsRun t.operandSegments := stands.operand.run
  exact ⟨stands, (Segment.suits_inside group.encloses group.run).trans
    (suits.trans (Segment.suits_enclosing encloses run))⟩

theorem rewritten_name {n : Text} (name : n.IsName) : Rewritten [.name n] (.leaf n) := by
  have single := Segment.tokenize_name name
  refine ⟨?_, ?_, ?_⟩
  · rw [Tree.canonical, single]
    exact .name name
  · rw [Tree.canonical, single]
    exact Text.unwords_singleton n
  · rw [Tree.canonical, single]
    exact .refl _

theorem rewritten_chain (r : Relation) {ns : List Text} (names : ∀ n ∈ ns, n.IsName)
    (several : 2 ≤ ns.length) :
    Rewritten (Segment.joined (.operator r) (ns.map fun n => [.name n]))
      (.chain r (ns.map .leaf)) := by
  have nonempty : ns.map Tree.leaf ≠ [] := by
    rintro empty
    simp_all
  have spaced : ∀ c ∈ ns.map Tree.leaf, c.Spaced := by
    intro c member
    obtain ⟨n, isIn, rfl⟩ := List.mem_map.mp member
    exact Tree.spaced_leaf (names n isIn)
  have written := Tree.join_tokenize_canonical (t := .chain r (ns.map .leaf)) rfl rfl nonempty
    spaced
  have segments := Tree.tokenize_canonical (t := .chain r (ns.map .leaf)) rfl rfl nonempty spaced
  rw [Tree.map_operandSegments_leaf names] at segments
  refine ⟨?_, written, ?_⟩
  · rw [segments]
    exact .chain r names several
  · rw [segments]
    exact .refl _

theorem rewritten_sequence (r : Relation) {os : List Operand} (operands : ∀ o ∈ os, o.IsOperand)
    (several : 2 ≤ os.length)
    (mixed : Mixed (Segment.joined (.operator r) (os.map Operand.segments)))
    (each : ∀ o ∈ os, (∃ p, Tree.Stands o.tree o.tree p) ∧
      Suits o.segments o.tree.operandSegments) :
    Rewritten (Segment.joined (.operator r) (os.map Operand.segments))
      (.sequence (joined r (os.map Operand.tree))) := by
  have stands : ∀ c ∈ os.map Operand.tree, ∃ o, Tree.Stands c (id c) o := by
    intro c member
    obtain ⟨o, isIn, rfl⟩ := List.mem_map.mp member
    exact (each o isIn).1
  have spaced : ∀ c ∈ os.map Operand.tree, c.Spaced := by
    intro c member
    obtain ⟨o, stands⟩ := stands c member
    exact stands.spaced
  have nonempty : os.map Operand.tree ≠ [] := by
    rintro empty
    simp_all
  have suits : Suits (Segment.joined (.operator r) (os.map Operand.segments))
      (Segment.joined (.operator r) (os.map fun o => o.tree.operandSegments)) := by
    refine Segment.suits_joined (fun o member => (each o member).2) ?_ ?_
    · intro o member
      exact (operands o member).isLevel.alternating.ne_nil
    · intro o member
      exact (spaced o.tree (List.mem_map.mpr ⟨o, member, rfl⟩)).alternating.ne_nil
  have again := suits.mixed.mpr mixed
  rw [show (fun o : Operand => o.tree.operandSegments) = Tree.operandSegments ∘ Operand.tree
    from rfl, ← List.map_map] at suits again
  have reads := Tree.reads_joined stands (by simpa using several) again
  rw [List.map_id] at reads
  have segments := Tree.tokenize_canonical
    (t := .sequence (joined r (os.map Operand.tree))) rfl rfl nonempty spaced
  have written := Tree.join_tokenize_canonical
    (t := .sequence (joined r (os.map Operand.tree))) rfl rfl nonempty spaced
  refine ⟨?_, written, ?_⟩
  · rw [segments]
    exact reads
  · rw [segments]
    exact suits

theorem Reads.rewritten {ss : List Segment} {t : Tree} (reads : Reads ss t) : Rewritten ss t := by
  induction reads with
  | name name => exact rewritten_name name
  | chain r names several => exact rewritten_chain r names several
  | enclosed _ group _ ih =>
    exact ⟨ih.reads, ih.written, (Segment.suits_inside group.encloses group.run).trans ih.suits⟩
  | @sequence r os operands several mixed _ ih =>
    refine rewritten_sequence r operands several mixed ?_
    rintro (n | ⟨g, u⟩) member
    · obtain ⟨name, closed⟩ := operands _ member
      refine ⟨⟨_, Tree.stands_leaf name closed⟩, ?_⟩
      rw [show Tree.operandSegments (Operand.name n).tree = [.name n] from
        Segment.tokenize_name name]
      exact .refl _
    · obtain ⟨stands, suits⟩ := (ih g u member).stands (operands _ member)
      exact ⟨⟨_, stands⟩, suits⟩

/-! ### Parsing canonical text -/

/-- The canonical text of a tree that was parsed without dividers is parsed as the same tree. -/
theorem Tree.parse_canonical {text : Text} {t : Tree}
    (undivided : ∀ r, Segment.symbol (.divider r) ∉ tokenize text)
    (read : parse text = .ok t) : parse t.canonical = .ok t := by
  have operators : ∀ s ∈ tokenize text, s.isDivider = false := by
    rintro (n | r | r) member
    · rfl
    · rfl
    · exact absurd member (undivided r)
  by_cases symbols : ∃ s, Segment.symbol s ∈ tokenize text
  · obtain ⟨s, symbol⟩ := symbols
    obtain ⟨reads, -, suits⟩ := (Expression.reads_of_parse operators symbol read).rewritten
    exact reads.parse (reads.isLevel.alternating.several ((suits.symbols s).mpr symbol))
  · -- a text without symbols is its own canonical text
    have names : ∀ s, Segment.symbol s ∉ tokenize text := fun s symbol => symbols ⟨s, symbol⟩
    obtain ⟨-, rfl⟩ := (Expression.parse_eq_ok_iff_of_names names).mp read
    exact read

theorem Tree.parse_canonical_spaced_group :
    parse "( (A | B) ) > C".toList = .ok (.sequence [.tree (.chain .blend
      [.leaf "(A".toList, .leaf "B)".toList]), .symbol .derive, .tree (.leaf "C".toList)]) ∧
    canonical (.sequence [.tree (.chain .blend
      [.leaf "(A".toList, .leaf "B)".toList]), .symbol .derive, .tree (.leaf "C".toList)]) =
      "((A | B)) > C".toList ∧
    parse "((A | B)) > C".toList = .ok (.sequence [.tree (.chain .blend
      [.leaf "(A".toList, .leaf "B)".toList]), .symbol .derive, .tree (.leaf "C".toList)]) := by
  have run : Group.IsRun (tokenize "( (A | B) )".toList) :=
    ⟨⟨.name "( (A".toList, [.symbol (.operator .blend)], .name "B) )".toList, by decide, rfl, rfl⟩,
      ⟨by decide, by decide, trivial⟩, by decide⟩
  have spans : Group.spans 0 (tokenize "( (A | B) ) > C".toList) = .ok [⟨0, 3⟩] :=
    @Group.IsRun.spans _ [.symbol (.operator .derive), .name "C".toList] run 0 []
      (by simp [Group.spans, Group.opens])
  have read : parse "( (A | B) ) > C".toList = .ok (.sequence [.tree (.chain .blend
      [.leaf "(A".toList, .leaf "B)".toList]), .symbol .derive, .tree (.leaf "C".toList)]) :=
    Expression.parse_of_spans [⟨0, 3⟩]
      [.chain .blend [.leaf "(A".toList, .leaf "B)".toList]] (by decide) (by rfl)
      (by decide) spans (by cbv) (by rfl)
  refine ⟨read, by decide, ?_⟩
  exact parse_canonical (fun r => by cases r <;> decide) read

end GenreRelations
