import GenreRelations.Proofs.Dividers
import GenreRelations.Proofs.Writing

/-!
The shape of parsed trees. A tree that is read from one level holds no pairs, its chains are over
leaves, and its sequences mix relations. Dividers add one sequence at the root, and pairs directly
below it: `Tree.parse_shape`.
-/

namespace GenreRelations

open Expression (Mixed joined pairUp mem_relationsOf)
open Segment (tokenize)

namespace Tree

/-! ### Trees read from one level -/

/-- The shape at the root of a tree that is read from one level. -/
def RootShape : Tree → Prop
  | leaf n => n.IsName
  | pair _ _ _ => False
  | chain _ ts => 2 ≤ ts.length ∧ ∀ c ∈ ts, c.isLeaf = true
  | sequence es =>
    (∃ r ts, es = joined r ts ∧ 2 ≤ ts.length ∧ ∃ c ∈ ts, c.isLeaf = false) ∧
      ∃ p ∈ (sequence es).relations, ∃ q ∈ (sequence es).relations, p ≠ q

/-- The shape everywhere in a tree that is read from one level. -/
def LevelShape (t : Tree) : Prop := ∀ u, Within u t → u.RootShape

theorem LevelShape.of_children {t : Tree} (root : t.RootShape)
    (below : ∀ c ∈ t.children, c.LevelShape) : t.LevelShape := by
  intro u within
  rcases within_iff.mp within with rfl | ⟨c, child, within⟩
  · exact root
  · exact below c child u within

theorem LevelShape.leaf {n : Text} (name : n.IsName) : (Tree.leaf n).LevelShape :=
  .of_children name (by simp [children])

end Tree

/-- The relations of a tree are those of the operators that it is read from. -/
theorem Reads.relations {ss : List Segment} {t : Tree} (reads : Reads ss t) (q : Relation) :
    .symbol (.operator q) ∈ ss ↔ q ∈ t.relations := by
  induction reads generalizing q with
  | name name => simp [Tree.relations]
  | @chain r ns _ _ =>
    exact Tree.operator_mem_joined (t := .chain r (ns.map .leaf)) (g := Tree.leaf) rfl
      (fun n _ q => by simp [Tree.relations]) q
  | enclosed _ group _ ih => rw [← ih, group.encloses.symbol_mem]
  | @sequence r os operands _ _ _ ih =>
    refine Tree.operator_mem_joined (t := .sequence (joined r (os.map Operand.tree))) rfl ?_ q
    rintro (n | ⟨g, t⟩) member q
    · simp [Operand.segments, Operand.tree, Tree.relations]
    · have group : Group.IsGroup g := operands _ member
      exact group.encloses.symbol_mem.trans (ih g t member q)

theorem Reads.mixed {ss : List Segment} {t : Tree} (reads : Reads ss t) (mixed : Mixed ss) :
    ∃ p ∈ t.relations, ∃ q ∈ t.relations, p ≠ q := by
  have operator : ∀ r ∈ Expression.relationsOf ss, r ∈ t.relations := by
    intro r isIn
    obtain ⟨s, symbol, rfl⟩ := mem_relationsOf.mp isIn
    have plain := reads.isLevel.undivided _ symbol
    cases s with
    | operator r => exact (reads.relations r).mp symbol
    | divider r => simp [Segment.isDivider] at plain
  obtain ⟨p, hasP, q, hasQ, different⟩ := mixed
  exact ⟨p, operator p hasP, q, operator q hasQ, different⟩

theorem exists_group_of_mixed {r : Relation} {os : List Operand}
    (mixed : Mixed (Segment.joined (.operator r) (os.map Operand.segments))) :
    ∃ g t, Operand.group g t ∈ os := by
  by_contra names
  have single : ∀ q ∈ Expression.relationsOf
      (Segment.joined (.operator r) (os.map Operand.segments)), q = r := by
    intro q isIn
    obtain ⟨s, symbol, rfl⟩ := mem_relationsOf.mp isIn
    rcases Segment.mem_joined.mp symbol with ⟨ss, listed, within⟩ | ⟨-, same⟩
    · obtain ⟨o, member, rfl⟩ := List.mem_map.mp listed
      cases o with
      | name n => simp [Operand.segments] at within
      | group g t => exact absurd ⟨g, t, member⟩ names
    · obtain rfl := Segment.symbol.inj same
      rfl
  obtain ⟨p, hasP, q, hasQ, different⟩ := mixed
  exact different ((single p hasP).trans (single q hasQ).symm)

theorem Reads.shape {ss : List Segment} {t : Tree} (reads : Reads ss t) : t.LevelShape := by
  induction reads with
  | name name => exact .leaf name
  | @chain r ns names several =>
    refine .of_children ⟨by simpa using several, fun c member => ?_⟩ fun c child => ?_
    · obtain ⟨n, -, rfl⟩ := List.mem_map.mp member
      rfl
    · obtain ⟨n, isIn, rfl⟩ := List.mem_map.mp child
      exact .leaf (names n isIn)
  | enclosed _ _ _ ih => exact ih
  | @sequence r os operands several mixed read ih =>
    obtain ⟨g, t, member⟩ := exists_group_of_mixed mixed
    have group : Group.IsGroup g := operands _ member
    have composite : ∃ c ∈ os.map Operand.tree, c.isLeaf = false :=
      ⟨t, List.mem_map.mpr ⟨_, member, rfl⟩,
        (read g t member).composite (Expression.several_of_isGroup group)⟩
    have whole := Reads.sequence r operands several mixed read
    refine .of_children ⟨⟨r, _, rfl, by simpa using several, composite⟩, whole.mixed mixed⟩ ?_
    intro c child
    rw [Tree.children, Tree.treesOf_joined] at child
    obtain ⟨o, isIn, rfl⟩ := List.mem_map.mp child
    cases o with
    | name n => exact .leaf (operands _ isIn).1
    | group g t => exact ih g t isIn

theorem Expression.Divides.levels {ss : List Segment} {d : Relation} {ps : List (List Segment × Tree)}
    (divides : Expression.Divides ss d ps) : ∀ t ∈ ps.map Prod.snd, t.LevelShape := by
  intro t member
  obtain ⟨p, isIn, rfl⟩ := List.mem_map.mp member
  exact (divides.reads p isIn).shape

/-! ### Pairs -/

namespace Tree

theorem pairUp_cases (t : Tree) : pairUp t = t ∨
    ∃ l r u, t = .chain r [l, u] ∧ pairUp t = .pair l r u := by
  unfold pairUp
  split
  · exact .inr ⟨_, _, _, rfl, rfl⟩
  · exact .inl rfl

/-- Pairing up the operands of a chain changes nothing but the root. -/
theorem within_pairUp {x t : Tree} (within : Within x (pairUp t)) :
    Within x t ∨ ∃ l r u, t = .chain r [l, u] ∧ x = .pair l r u ∧ pairUp t = .pair l r u := by
  rcases pairUp_cases t with same | ⟨l, r, u, rfl, paired⟩
  · exact .inl (same ▸ within)
  · rw [paired] at within ⊢
    rcases within_iff.mp within with rfl | ⟨c, child, within⟩
    · exact .inr ⟨l, r, u, rfl, rfl, rfl⟩
    · exact .inl (.child child within)

/-- A pair of leaves is all that pairing up adds to a tree that is read from one level. -/
theorem LevelShape.pair_within_pairUp {t l u : Tree} {r : Relation} (shape : t.LevelShape)
    (within : Within (.pair l r u) (pairUp t)) :
    pairUp t = .pair l r u ∧ l.isLeaf = true ∧ u.isLeaf = true := by
  rcases within_pairUp within with within | ⟨a, q, b, rfl, same, paired⟩
  · exact absurd (shape _ within) id
  · obtain ⟨rfl, rfl, rfl⟩ := Tree.pair.inj same
    have leaves : ∀ c ∈ [l, u], c.isLeaf = true := (shape _ (.refl _)).2
    exact ⟨paired, leaves l (by simp), leaves u (by simp)⟩

/-! ### Parsed expressions -/

/-- The shape of the tree of a text. -/
structure Shape (text : Text) (t : Tree) : Prop where
  names : ∀ n, Within (.leaf n) t → (∃ c ∈ n, Text.isBlank c = false) ∧ ∀ s : Symbol, n ≠ s.text
  /-- If the text has a symbol, then names have single spaces and no other blanks. -/
  spaced : (∃ s, .symbol s ∈ tokenize text) → ∀ n, Within (.leaf n) t → Text.unwords n.words = n
  chains : ∀ r ts, Within (.chain r ts) t → 2 ≤ ts.length ∧ ∀ c ∈ ts, c.isLeaf = true
  sequences : ∀ es, Within (.sequence es) t →
    3 ≤ es.length ∧ es.length % 2 = 1 ∧ ∃ r, Element.Alternate r es
  /-- A pair of leaves stands directly below the root of a divided text, and nowhere else. -/
  pairs : ∀ l r u, Within (.pair l r u) t → l.isLeaf = true ∧ u.isLeaf = true ∧
    (∃ d, .symbol (.divider d) ∈ tokenize text) ∧
      ∃ es, t = .sequence es ∧ .pair l r u ∈ treesOf es ∧
        ∀ c ∈ treesOf es, Within (.pair l r u) c → c = .pair l r u
  /-- All sequences but the root of a divided text mix relations and hold a composite tree. -/
  mixed : ∀ es, Within (.sequence es) t →
    ((∃ d, .symbol (.divider d) ∈ tokenize text) ∧ t = .sequence es) ∨
      ((∃ c ∈ treesOf es, c.isLeaf = false) ∧
        ∃ p ∈ (sequence es).relations, ∃ q ∈ (sequence es).relations, p ≠ q)

theorem solid_of_isName {n : Text} (name : n.IsName) :
    (∃ c ∈ n, Text.isBlank c = false) ∧ ∀ s : Symbol, n ≠ s.text :=
  ⟨Text.exists_solid_of_words_ne_nil name.words_ne_nil, name.ne_text⟩

theorem alternates_of_several {r : Relation} {ts : List Tree} (several : 2 ≤ ts.length) :
    3 ≤ (joined r ts).length ∧ (joined r ts).length % 2 = 1 ∧
      ∃ q, Element.Alternate q (joined r ts) := by
  have length := length_joined r ts
  have alternate : Element.Alternate r (joined r ts) :=
    Element.alternate_joined r (List.ne_nil_of_length_pos (by omega))
  exact ⟨by omega, alternate.odd, r, alternate⟩

theorem LevelShape.shape {text : Text} {t : Tree} (level : t.LevelShape) : Shape text t := by
  refine ⟨?_, ?_, ?_, ?_, ?_, ?_⟩
  · intro n within
    exact solid_of_isName (level _ within)
  · intro _ n within
    have name : n.IsName := level _ within
    exact name.spaced
  · intro r ts within
    exact level _ within
  · intro es within
    obtain ⟨⟨r, ts, rfl, several, -⟩, -⟩ := level _ within
    exact alternates_of_several several
  · intro l r u within
    exact absurd (level _ within) id
  · intro es within
    obtain ⟨⟨r, ts, rfl, -, composite⟩, mixed⟩ := level _ within
    rw [treesOf_joined]
    exact .inr ⟨composite, mixed⟩

/-- What is no pair, and not the root, lies in the tree of one level. -/
theorem within_divided {d : Relation} {ts : List Tree} {x : Tree}
    (within : Within x (.sequence (joined d (ts.map pairUp)))) :
    x = .sequence (joined d (ts.map pairUp)) ∨ (∃ l r u, x = .pair l r u) ∨
      ∃ t ∈ ts, Within x t := by
  rcases within_sequence_joined.mp within with same | ⟨c, member, within⟩
  · exact .inl same
  · obtain ⟨t, isIn, rfl⟩ := List.mem_map.mp member
    rcases within_pairUp within with within | ⟨l, r, u, -, same, -⟩
    · exact .inr (.inr ⟨t, isIn, within⟩)
    · exact .inr (.inl ⟨l, r, u, same⟩)

theorem name_within_divided {d : Relation} {ts : List Tree} (levels : ∀ t ∈ ts, t.LevelShape)
    {n : Text} (within : Within (.leaf n) (.sequence (joined d (ts.map pairUp)))) : n.IsName := by
  rcases within_divided within with same | ⟨l, r, u, same⟩ | ⟨t, isIn, within⟩
  · simp at same
  · simp at same
  · exact levels t isIn _ within

theorem pair_within_divided {d : Relation} {ts : List Tree} (levels : ∀ t ∈ ts, t.LevelShape)
    {l u : Tree} {r : Relation}
    (within : Within (.pair l r u) (.sequence (joined d (ts.map pairUp)))) :
    l.isLeaf = true ∧ u.isLeaf = true ∧ .pair l r u ∈ ts.map pairUp ∧
      ∀ c ∈ ts.map pairUp, Within (.pair l r u) c → c = .pair l r u := by
  have only : ∀ c ∈ ts.map pairUp, Within (.pair l r u) c →
      c = .pair l r u ∧ l.isLeaf = true ∧ u.isLeaf = true := by
    intro c member within
    obtain ⟨t, isIn, rfl⟩ := List.mem_map.mp member
    exact (levels t isIn).pair_within_pairUp within
  rcases within_sequence_joined.mp within with same | ⟨c, member, within⟩
  · simp at same
  · obtain ⟨rfl, left, right⟩ := only c member within
    exact ⟨left, right, member, fun c isIn within => (only c isIn within).1⟩

theorem shape_divided {text : Text} {d : Relation} {ts : List Tree}
    (divided : .symbol (.divider d) ∈ tokenize text) (several : 2 ≤ ts.length)
    (levels : ∀ t ∈ ts, t.LevelShape) : Shape text (.sequence (joined d (ts.map pairUp))) := by
  refine ⟨?_, ?_, ?_, ?_, ?_, ?_⟩
  · intro n within
    exact solid_of_isName (name_within_divided levels within)
  · intro _ n within
    exact (name_within_divided levels within).spaced
  · intro r us within
    rcases within_divided within with same | ⟨l, q, u, same⟩ | ⟨t, isIn, within⟩
    · simp at same
    · simp at same
    · exact levels t isIn _ within
  · intro es within
    rcases within_divided within with same | ⟨l, q, u, same⟩ | ⟨t, isIn, within⟩
    · obtain rfl := Tree.sequence.inj same
      exact alternates_of_several (by simpa using several)
    · simp at same
    · obtain ⟨⟨r, us, rfl, several, -⟩, -⟩ := levels t isIn _ within
      exact alternates_of_several several
  · intro l r u within
    obtain ⟨left, right, member, only⟩ := pair_within_divided levels within
    refine ⟨left, right, ⟨d, divided⟩, _, rfl, ?_⟩
    rw [treesOf_joined]
    exact ⟨member, only⟩
  · intro es within
    rcases within_divided within with same | ⟨l, q, u, same⟩ | ⟨t, isIn, within⟩
    · exact .inl ⟨⟨d, divided⟩, same.symm⟩
    · simp at same
    · obtain ⟨⟨r, us, rfl, -, composite⟩, mixed⟩ := levels t isIn _ within
      rw [treesOf_joined]
      exact .inr ⟨composite, mixed⟩

theorem shape_leaf {text : Text} (nonempty : tokenize text ≠ [])
    (names : ∀ s, .symbol s ∉ tokenize text) : Shape text (.leaf text) := by
  refine ⟨?_, ?_, ?_, ?_, ?_, ?_⟩
  · intro n within
    obtain rfl := Tree.leaf.inj (within_leaf.mp within)
    constructor
    · refine Text.exists_solid_of_words_ne_nil ?_
      intro empty
      rw [tokenize, empty] at nonempty
      exact nonempty rfl
    · rintro s rfl
      refine names s ?_
      rw [tokenize, Text.words_of_isWord (Segment.isWord_text s), Segment.ofWords_symbol]
      exact List.mem_cons_self
  · rintro ⟨s, symbol⟩
    exact absurd symbol (names s)
  · intro r ts within
    simpa using within_leaf.mp within
  · intro es within
    simpa using within_leaf.mp within
  · intro l r u within
    simpa using within_leaf.mp within
  · intro es within
    simpa using within_leaf.mp within

/-- The shape of every parsed tree. -/
theorem parse_shape {text : Text} {t : Tree} (read : parse text = .ok t) : Shape text t := by
  by_cases symbols : ∃ s, Segment.symbol s ∈ tokenize text
  · obtain ⟨s, symbol⟩ := symbols
    rcases Expression.parse_cases symbol read with ⟨-, reads⟩ | ⟨d, ps, divides, rfl⟩
    · exact reads.shape.shape
    · have divided : Segment.symbol (.divider d) ∈ tokenize text := by
        rw [divides.joined, Segment.mem_joined]
        exact .inr ⟨by simpa using divides.several, rfl⟩
      have levels : ∀ t ∈ ps.map Prod.snd, t.LevelShape := by
        intro t member
        obtain ⟨p, isIn, rfl⟩ := List.mem_map.mp member
        exact (divides.reads p isIn).shape
      have shape := shape_divided divided (by simpa using divides.several) levels
      rwa [List.map_map] at shape
  · have names : ∀ s, Segment.symbol s ∉ tokenize text := fun s symbol => symbols ⟨s, symbol⟩
    obtain ⟨nonempty, rfl⟩ := (Expression.parse_eq_ok_iff_of_names names).mp read
    exact shape_leaf nonempty names

theorem parse_shape_divided :
    parse "A | B || C".toList = .ok (.sequence [.tree (.pair (.leaf "A".toList) .blend
      (.leaf "B".toList)), .symbol .blend, .tree (.leaf "C".toList)]) ∧
    Shape "A | B || C".toList (.sequence [.tree (.pair (.leaf "A".toList) .blend
      (.leaf "B".toList)), .symbol .blend, .tree (.leaf "C".toList)]) := by
  have read : parse "A | B || C".toList = .ok (.sequence [.tree (.pair (.leaf "A".toList) .blend
      (.leaf "B".toList)), .symbol .blend, .tree (.leaf "C".toList)]) := by cbv
  exact ⟨read, parse_shape read⟩

end Tree

end GenreRelations
