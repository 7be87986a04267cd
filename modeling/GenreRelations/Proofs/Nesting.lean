import GenreRelations.Proofs.Chained
import GenreRelations.Proofs.Depth

/-!
How deep wire forms nest. The arrays of a parsed tree nest one level less deep than the tree, for a
name inside another array is a plain string. Opening parentheses bound the depth of the tree, so few
of them keep the arrays within what the reader takes: `Tree.parse_nesting`.
-/

namespace GenreRelations.Tree

open Segment (tokenize)

theorem depth_le_of_undivided {text : Text} {t : Tree}
    (undivided : ∀ s ∈ tokenize text, s.isDivider = false) (read : parse text = .ok t) :
    t.depth ≤ text.count '(' + 2 := by
  rw [← Segment.openings_tokenize]
  rcases Expression.parse_forms read with ⟨-, -, rfl⟩ | reads | ⟨d, ps, divides, rfl⟩
  · exact Nat.le_add_left 1 _
  · exact reads.depth_le
  · have divided : .symbol (.divider d) ∈ tokenize text := by
      rw [divides.joined, Segment.mem_joined]
      exact .inr ⟨by simpa using divides.several, rfl⟩
    have plain := undivided _ divided
    simp [Segment.isDivider] at plain

/-- A lone name stands in an array of its own; other trees nest one level less than their depth. -/
theorem nesting_toJson {t : Tree} (uniform : t.Uniform) :
    t.toJson.nesting = max 1 (t.depth - 1) := by
  rcases t.leaf_or_composite with ⟨n, rfl⟩ | composite
  · rfl
  · have deeper := nesting_nested uniform
    have array : 1 ≤ t.nested.nesting := by
      rw [nested_eq_array composite, Json.nesting]
      exact Nat.le_add_right 1 _
    rw [toJson_eq_nested composite]
    omega

theorem ofWire_wire_of_uniform {t : Tree} (uniform : t.Uniform)
    (shallow : t.toJson.nesting ≤ 127) : ofWire t.wire = .ok t.chained := by
  rw [← toJson_chained uniform] at shallow
  rw [wire, ← toJson_chained uniform]
  exact ofWire_wire_of_settled (settled_chained uniform) shallow

/-- A parsed tree is at most two levels deeper than the text has opening parentheses, three if there
are dividers. So the wire form of a text with no more than 125 of them is read back, with chains in
the place of pairs and sequences. -/
theorem parse_nesting {text : Text} {t : Tree} (read : parse text = .ok t) :
    ((∀ s ∈ tokenize text, s.isDivider = false) → t.depth ≤ text.count '(' + 2) ∧
    t.depth ≤ text.count '(' + 3 ∧
    t.toJson.nesting = max 1 (t.depth - 1) ∧
    (text.count '(' ≤ 125 → t.toJson.nesting ≤ 127 ∧ ofWire t.wire = .ok t.chained) := by
  have uniform := uniform_of_parse read
  have depth := depth_le_of_parse read
  have nesting := nesting_toJson uniform
  refine ⟨fun undivided => depth_le_of_undivided undivided read, depth, nesting, fun few => ?_⟩
  have shallow : t.toJson.nesting ≤ 127 := by omega
  exact ⟨shallow, ofWire_wire_of_uniform uniform shallow⟩

theorem parse_nesting_group :
    parse "(A > B) | C".toList = .ok (.sequence [.tree (.chain .derive
      [.leaf "A".toList, .leaf "B".toList]), .symbol .blend, .tree (.leaf "C".toList)]) ∧
    (∀ s ∈ tokenize "(A > B) | C".toList, s.isDivider = false) ∧
    depth (.sequence [.tree (.chain .derive [.leaf "A".toList, .leaf "B".toList]), .symbol .blend,
      .tree (.leaf "C".toList)]) ≤ 1 + 2 ∧
    ofWire "[[\"A\",\">\",\"B\"],\"|\",\"C\"]".toList = .ok (.chain .blend
      [.chain .derive [.leaf "A".toList, .leaf "B".toList], .leaf "C".toList]) := by
  have run : Group.IsRun (tokenize "(A > B)".toList) := by decide
  have spans : Group.spans 0 (tokenize "(A > B) | C".toList) = .ok [⟨0, 3⟩] :=
    @Group.IsRun.spans _ [.symbol (.operator .blend), .name ['C']] run 0 []
      (by simp [Group.spans, Group.opens])
  have undivided : ∀ s ∈ tokenize "(A > B) | C".toList, s.isDivider = false := by decide
  have read : parse "(A > B) | C".toList = .ok (.sequence [.tree (.chain .derive
      [.leaf "A".toList, .leaf "B".toList]), .symbol .blend, .tree (.leaf "C".toList)]) :=
    Expression.parse_of_spans [⟨0, 3⟩] [.chain .derive [.leaf "A".toList, .leaf "B".toList]]
      undivided (by rfl) (by decide) spans (by cbv) (by rfl)
  obtain ⟨shallow, -, -, back⟩ := parse_nesting read
  exact ⟨read, undivided, shallow undivided, (back (by decide)).2⟩

end GenreRelations.Tree
