import GenreRelations.Proofs.Cataloging
import GenreRelations.Proofs.Nesting
import GenreRelations.Proofs.Sorted
import GenreRelations.Proofs.Turns

/-!
The fields of catalog entries. An entry stores one tree in four forms, and `Catalog.entries_agree`
says that each form can be told from the list of tokens: the names and the relations as sets, and
the nested arrays as far as they are read back.
-/

namespace GenreRelations

open Segment (tokenize)

namespace Tree

theorem within_of_mem_leaves {t : Tree} {n : Text} (member : n ∈ t.leaves) : Within (.leaf n) t := by
  induction t using induction_on_children with
  | step t ih =>
    rcases t.leaf_or_composite with ⟨m, rfl⟩ | composite
    · obtain rfl := List.mem_singleton.mp member
      exact .refl _
    · rw [leaves_eq_flatMap composite, List.mem_flatMap] at member
      obtain ⟨c, child, isIn⟩ := member
      exact .child child (ih c child isIn)

/-- The names of a parsed tree are not blank, and no symbols. -/
theorem solid_of_mem_leaves {text : Text} {t : Tree} (read : parse text = .ok t) {n : Text}
    (member : n ∈ t.leaves) : (∃ c ∈ n, Text.isBlank c = false) ∧ ∀ s : Symbol, n ≠ s.text := by
  have within := within_of_mem_leaves member
  rcases Expression.parse_forms read with ⟨names, nonempty, rfl⟩ | reads | ⟨d, ps, divides, rfl⟩
  · exact (shape_leaf nonempty names).names n within
  · exact solid_of_isName (reads.shape _ within)
  · refine solid_of_isName (name_within_divided (d := d) divides.levels ?_)
    rwa [List.map_map]

/-- What the wire form of a parsed tree is read back as shows the same tokens and sets. -/
theorem exists_ofWire_of_parse {text : Text} {t : Tree} (read : parse text = .ok t)
    (few : text.count '(' ≤ 125) :
    ∃ u, ofWire t.wire = .ok u ∧ u.flat = t.flat ∧ u.unordered = t.unordered := by
  have uniform := uniform_of_parse read
  have depth := depth_le_of_parse read
  have shallow : t.toJson.nesting ≤ 127 := nesting_toJson_le uniform (by omega)
  -- pairs and sequences come back as chains, which no stored form shows
  refine ⟨t.chained, ofWire_wire_of_uniform uniform shallow, ?_, unordered_chained uniform⟩
  rw [flat_eq_tokens, flat_eq_tokens, tokens_chained uniform]

end Tree

namespace Catalog

/-- The stored forms of the tree of an entry agree. -/
structure Entry.Agrees (e : Entry) : Prop where
  odd : e.flat.length % 2 = 1
  names_at_even : ∀ (i : Nat) (n : Text), i % 2 = 0 → e.flat[i]? = some n →
    (∃ c ∈ n, Text.isBlank c = false) ∧ ∀ s : Symbol, n ≠ s.text
  operators_at_odd : ∀ (i : Nat) (s : Text), i % 2 = 1 → e.flat[i]? = some s →
    ∃ r : Relation, s = r.operator
  names_increase : e.names.Pairwise (· < ·)
  mem_names : ∀ n, n ∈ e.names ↔ ∃ i : Nat, i % 2 = 0 ∧ e.flat[i]? = some n
  relations_increase : e.relations.Pairwise fun r q => r.rank < q.rank
  mem_relations : ∀ r, r ∈ e.relations ↔ ∃ i : Nat, i % 2 = 1 ∧ e.flat[i]? = some r.operator
  /-- Parentheses bound how deep the arrays are nested, which the reader limits. -/
  read_back : e.subgenre.count '(' ≤ 125 → ∃ t, Tree.ofWire e.nested = .ok t ∧ t.flat = e.flat ∧
    t.unordered = ⟨e.names, e.relations⟩

theorem agrees_of_parse {text : Text} {t : Tree} (read : Tree.parse text = .ok t) (line : Nat) :
    (Entry.ofTree line text t).Agrees := by
  obtain ⟨rs, turns, relations⟩ := (Tree.uniform_of_parse read).turns
  rw [← Tree.flat_eq_tokens] at turns
  refine ⟨turns.odd, ?_, ?_, Text.pairwise_sorted _, ?_, Relation.pairwise_distinct _, ?_, ?_⟩
  · intro i n even stands
    exact Tree.solid_of_mem_leaves read (turns.mem_names.mpr ⟨i, even, stands⟩)
  · intro i s odd stands
    exact turns.exists_operator odd stands
  · intro n
    exact Text.mem_sorted.trans turns.mem_names
  · intro r
    exact Relation.mem_distinct.trans ((relations r).symm.trans turns.mem_relations)
  · exact Tree.exists_ofWire_of_parse read

/-- The stored fields of every entry of a report agree with each other. -/
theorem entries_agree (p : Policy) (rs : List Record) : ∀ e ∈ (report p rs).entries, e.Agrees := by
  intro e member
  obtain ⟨r, t, read, rfl⟩ := exists_record_of_mem_entries member
  exact agrees_of_parse read r.line

theorem entries_agree_qualified :
    ⟨1, "Trap (EDM) | Drill || Crunk".toList,
      "[[\"Trap (EDM)\",\"|\",\"Drill\"],\"|\",\"Crunk\"]".toList,
      ["Trap (EDM)".toList, ['|'], "Drill".toList, ['|'], "Crunk".toList],
      ["Crunk".toList, "Drill".toList, "Trap (EDM)".toList], [.blend]⟩ ∈
        (report {} [⟨1, some "Trap".toList, "Trap | Drill || Crunk".toList⟩]).entries ∧
    ∃ t, Tree.ofWire "[[\"Trap (EDM)\",\"|\",\"Drill\"],\"|\",\"Crunk\"]".toList = .ok t ∧
      t.flat = ["Trap (EDM)".toList, ['|'], "Drill".toList, ['|'], "Crunk".toList] ∧
      t.unordered = ⟨["Crunk".toList, "Drill".toList, "Trap (EDM)".toList], [.blend]⟩ := by
  have read : Tree.parse "Trap (EDM) | Drill || Crunk".toList = .ok (.sequence
      [.tree (.pair (.leaf "Trap (EDM)".toList) .blend (.leaf "Drill".toList)), .symbol .blend,
        .tree (.leaf "Crunk".toList)]) := by cbv
  have outcomes := @outcomes_cons_of_ok true
    ⟨1, some "Trap".toList, "Trap | Drill || Crunk".toList⟩ _ read []
  have member : Entry.ofTree 1 "Trap (EDM) | Drill || Crunk".toList (.sequence
      [.tree (.pair (.leaf "Trap (EDM)".toList) .blend (.leaf "Drill".toList)), .symbol .blend,
        .tree (.leaf "Crunk".toList)]) ∈
      (report {} [⟨1, some "Trap".toList, "Trap | Drill || Crunk".toList⟩]).entries := by
    rw [report, outcomes]
    exact List.mem_cons_self
  have agrees := entries_agree _ _ _ member
  rw [Entry.ofTree, Tree.flat_eq_tokens] at member agrees
  exact ⟨member, agrees.read_back (by decide)⟩

end Catalog

end GenreRelations
