import GenreRelations.Proofs.Parentheses
import GenreRelations.Proofs.Parsing
import GenreRelations.Proofs.Trees

/-!
The segments that a tree is written with. A composite tree is written as its operands with one
symbol between neighbours; an operand is a name, or a group around the segments of its tree.
-/

namespace GenreRelations

open Expression (Mixed joined)
open Segment (Alternating IsLevel Stays tokenize)

namespace Tree

/-- The segments of a tree where it is an operand. -/
def operandSegments (t : Tree) : List Segment := tokenize t.operandText

/-- As an operand the tree is written with names and symbols in turn and single spaces. -/
structure Spaced (t : Tree) : Prop where
  alternating : Alternating t.operandSegments
  written : Segment.join t.operandSegments = t.operandText

section Composite

variable {t : Tree} {r : Relation} {cs : List Tree}

theorem tokenize_canonical (composite : t.isLeaf = false) (elements : t.elements = joined r cs)
    (nonempty : cs ≠ []) (spaced : ∀ c ∈ cs, c.Spaced) :
    tokenize t.canonical = Segment.joined (.operator r) (cs.map operandSegments) := by
  have texts : ∀ u ∈ cs.map operandText,
      Alternating (tokenize u) ∧ Segment.join (tokenize u) = u := by
    intro u member
    obtain ⟨c, isIn, rfl⟩ := List.mem_map.mp member
    exact ⟨(spaced c isIn).alternating, (spaced c isIn).written⟩
  have parts := Segment.tokenize_joined (s := .operator r) (by simpa using nonempty)
    (fun u member => (texts u member).1) (fun u member => (texts u member).2)
  rw [List.map_map] at parts
  rw [canonical_eq_unwords composite, elements, elementTexts_joined]
  exact parts

theorem join_tokenize_canonical (composite : t.isLeaf = false)
    (elements : t.elements = joined r cs) (nonempty : cs ≠ []) (spaced : ∀ c ∈ cs, c.Spaced) :
    Segment.join (tokenize t.canonical) = t.canonical := by
  have parts : ∀ ss ∈ cs.map operandSegments, ss ≠ [] := by
    intro ss member
    obtain ⟨c, isIn, rfl⟩ := List.mem_map.mp member
    exact (spaced c isIn).alternating.ne_nil
  have texts : (cs.map operandSegments).map Segment.join = cs.map operandText := by
    rw [List.map_map]
    exact List.map_congr_left fun c member => (spaced c member).written
  rw [tokenize_canonical composite elements nonempty spaced, Segment.join_joined _ parts, texts,
    canonical_eq_unwords composite, elements, elementTexts_joined]
  rfl

end Composite

/-- The operators in joined levels are the relations of the tree over the trees of the levels. -/
theorem operator_mem_joined {α : Type} {f : α → List Segment} {g : α → Tree} {t : Tree}
    {r : Relation} {xs : List α} (elements : t.elements = joined r (xs.map g))
    (each : ∀ x ∈ xs, ∀ q, .symbol (.operator q) ∈ f x ↔ q ∈ (g x).relations) (q : Relation) :
    .symbol (.operator q) ∈ Segment.joined (.operator r) (xs.map f) ↔ q ∈ t.relations := by
  rw [Segment.mem_joined, mem_relations, children_eq_treesOf, elements, treesOf_joined,
    symbol_mem_joined]
  simp only [List.mem_map, exists_exists_and_eq_and, List.length_map, Segment.symbol.injEq,
    Symbol.operator.injEq]
  refine or_congr_left ⟨?_, ?_⟩
  · rintro ⟨x, member, isIn⟩
    exact ⟨x, member, (each x member q).mp isIn⟩
  · rintro ⟨x, member, isIn⟩
    exact ⟨x, member, (each x member q).mpr isIn⟩

theorem spaced_leaf {n : Text} (name : n.IsName) : (leaf n).Spaced := by
  have single : (leaf n).operandSegments = [.name n] := Segment.tokenize_name name
  refine ⟨?_, ?_⟩
  · rw [single]
    exact .name name
  · rw [single, Segment.join]
    exact Text.unwords_singleton n

theorem map_operandSegments_leaf {ns : List Text} (names : ∀ n ∈ ns, n.IsName) :
    (ns.map leaf).map operandSegments = ns.map fun n => [.name n] := by
  rw [List.map_map]
  exact List.map_congr_left fun n member => Segment.tokenize_name (names n member)

theorem exists_leaves {ts : List Tree} (leaves : ∀ t ∈ ts, t.isLeaf = true) :
    ∃ ns : List Text, ts = ns.map leaf := by
  induction ts with
  | nil => exact ⟨[], rfl⟩
  | cons t ts ih =>
    obtain ⟨ns, rfl⟩ := ih fun u member => leaves u (List.mem_cons_of_mem _ member)
    have first := leaves t List.mem_cons_self
    cases t with
    | leaf n => exact ⟨n :: ns, rfl⟩
    | _ => simp [isLeaf] at first

/-! ### Operands -/

/-- The tree `c` is written as the operand `o`, which is read as the tree `d`. -/
structure Stands (c d : Tree) (o : Operand) : Prop where
  spaced : c.Spaced
  operand : o.IsOperand
  segments : o.segments = c.operandSegments
  tree : o.tree = d
  read : ∀ g t, o = .group g t → Reads (Group.inside g) t

theorem stands_leaf {n : Text} (name : n.IsName) (closed : n.balance = 0) :
    Stands (leaf n) (leaf n) (.name n) :=
  ⟨spaced_leaf name, ⟨name, closed⟩, (Segment.tokenize_name name).symm, rfl, by simp⟩

section Group

variable {c d : Tree}

theorem encloses_operandSegments (composite : c.isLeaf = false)
    (reads : Reads (tokenize c.canonical) d)
    (written : Segment.join (tokenize c.canonical) = c.canonical)
    (several : 2 ≤ (tokenize c.canonical).length) :
    Group.Encloses c.operandSegments (tokenize c.canonical) ∧ c.Spaced := by
  have text : c.operandText = '(' :: c.canonical ++ [')'] := by
    simp [operandText, enclose, composite]
  obtain ⟨encloses, alternating, outer⟩ :=
    Segment.tokenize_enclosed reads.isLevel.alternating written several
  rw [← text] at encloses alternating outer
  exact ⟨encloses, alternating, outer⟩

/-- A composite tree is written as a group, if its parentheses close where those of the group do. -/
theorem stands_group (composite : c.isLeaf = false) (reads : Reads (tokenize c.canonical) d)
    (written : Segment.join (tokenize c.canonical) = c.canonical)
    (several : 2 ≤ (tokenize c.canonical).length) (stays : Stays 1 (tokenize c.canonical).dropLast)
    (closed : Segment.balance (tokenize c.canonical) ≤ 0) :
    Stands c d (.group c.operandSegments d) := by
  obtain ⟨encloses, spaced⟩ := encloses_operandSegments composite reads written several
  obtain ⟨group, inside⟩ :=
    encloses.isGroup spaced.alternating reads.isLevel stays closed
  refine ⟨spaced, group, rfl, rfl, ?_⟩
  intro g t same
  obtain ⟨rfl, rfl⟩ := Operand.group.inj same
  rwa [inside]

end Group

theorem exists_operands {f : Tree → Tree} {cs : List Tree}
    (stands : ∀ c ∈ cs, ∃ o, Stands c (f c) o) :
    ∃ os : List Operand, os.map Operand.segments = cs.map operandSegments ∧
      os.map Operand.tree = cs.map f ∧ ∀ o ∈ os, ∃ c ∈ cs, Stands c (f c) o := by
  induction cs with
  | nil => exact ⟨[], rfl, rfl, by simp⟩
  | cons c cs ih =>
    obtain ⟨os, segments, trees, each⟩ :=
      ih fun b member => stands b (List.mem_cons_of_mem _ member)
    obtain ⟨o, first⟩ := stands c List.mem_cons_self
    refine ⟨o :: os, ?_, ?_, ?_⟩
    · rw [List.map_cons, List.map_cons, segments, first.segments]
    · rw [List.map_cons, List.map_cons, trees, first.tree]
    · intro p member
      rcases List.mem_cons.mp member with rfl | member
      · exact ⟨c, List.mem_cons_self, first⟩
      · obtain ⟨b, isIn, later⟩ := each p member
        exact ⟨b, List.mem_cons_of_mem _ isIn, later⟩

/-- Operands with one symbol between neighbours are read as a sequence. -/
theorem reads_joined {f : Tree → Tree} {r : Relation} {cs : List Tree}
    (stands : ∀ c ∈ cs, ∃ o, Stands c (f c) o) (several : 2 ≤ cs.length)
    (mixed : Mixed (Segment.joined (.operator r) (cs.map operandSegments))) :
    Reads (Segment.joined (.operator r) (cs.map operandSegments))
      (.sequence (joined r (cs.map f))) := by
  obtain ⟨os, segments, trees, each⟩ := exists_operands stands
  have same : os.length = cs.length := by
    have lengths := congrArg List.length trees
    simpa using lengths
  rw [← segments] at mixed ⊢
  rw [← trees]
  refine .sequence r (fun o member => ?_) (by omega) mixed (fun g t member => ?_)
  · obtain ⟨c, -, stands⟩ := each o member
    exact stands.operand
  · obtain ⟨c, -, stands⟩ := each _ member
    exact stands.read g t rfl

end Tree

end GenreRelations
