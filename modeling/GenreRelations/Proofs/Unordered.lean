import GenreRelations.Proofs.Entries

/-!
The unordered view of a tree of any shape. Its names are the leaves and its relations those that
join something somewhere in the tree, and `Tree.unordered_covers` says that together they are just
the tokens that a walk over the tree yields.
-/

namespace GenreRelations

namespace Tree

/-- The relation stands in the tree itself, and not only in one below it. A chain of fewer than two
operands joins nothing. -/
inductive Joins (r : Relation) : Tree → Prop
  | pair (l t : Tree) : Joins r (.pair l r t)
  | chain {ts : List Tree} (several : 2 ≤ ts.length) : Joins r (.chain r ts)
  | sequence {es : List Element} (stands : .symbol r ∈ es) : Joins r (.sequence es)

theorem joins_iff {r : Relation} {t : Tree} : Joins r t ↔ .symbol r ∈ t.elements := by
  constructor
  · rintro (⟨l, t⟩ | several | stands)
    · simp [elements]
    · exact symbol_mem_joined.mpr ⟨several, rfl⟩
    · exact stands
  · intro stands
    cases t with
    | leaf n => simp [elements] at stands
    | pair l q t =>
      obtain rfl : r = q := by simpa [elements] using stands
      exact .pair l t
    | chain q ts =>
      obtain ⟨several, rfl⟩ := symbol_mem_joined.mp stands
      exact .chain several
    | sequence es => exact .sequence stands

/-! ### Names and relations in the tree -/

theorem mem_leaves_iff {t : Tree} {n : Text} : n ∈ t.leaves ↔ Within (.leaf n) t := by
  refine ⟨within_of_mem_leaves, fun within => ?_⟩
  induction within with
  | refl => exact List.mem_singleton.mpr rfl
  | @child c t child _ ih =>
    have composite : t.isLeaf = false := by
      cases t with
      | leaf m => simp [children] at child
      | _ => rfl
    rw [leaves_eq_flatMap composite, List.mem_flatMap]
    exact ⟨c, child, ih⟩

theorem mem_relations_iff_joins {t : Tree} {r : Relation} :
    r ∈ t.relations ↔ ∃ u, Within u t ∧ Joins r u := by
  induction t using induction_on_children with
  | step t ih =>
    rw [mem_relations, ← joins_iff]
    constructor
    · rintro (⟨c, child, isIn⟩ | joins)
      · obtain ⟨u, within, joins⟩ := (ih c child).mp isIn
        exact ⟨u, .child child within, joins⟩
      · exact ⟨t, .refl t, joins⟩
    · rintro ⟨u, within, joins⟩
      rcases within_iff.mp within with rfl | ⟨c, child, within⟩
      · exact .inr joins
      · exact .inl ⟨c, child, (ih c child).mpr ⟨u, within, joins⟩⟩

/-! ### Tokens -/

theorem mem_elementsTokens {es : List Element} {x : Text} : x ∈ elementsTokens es ↔
    (∃ c ∈ treesOf es, x ∈ c.tokens) ∨ ∃ r : Relation, .symbol r ∈ es ∧ r.operator = x := by
  induction es with
  | nil => simp [elementsTokens, treesOf]
  | cons e es ih =>
    cases e with
    | tree t => simp [elementsTokens, treesOf, ih, or_assoc]
    | symbol q => simp [elementsTokens, treesOf, ih, or_left_comm, or_and_right, exists_or, eq_comm]

/-- A token is a name at a leaf or the operator of a relation that joins something. -/
theorem mem_tokens_iff {t : Tree} {x : Text} :
    x ∈ t.tokens ↔ x ∈ t.leaves ∨ ∃ r ∈ t.relations, r.operator = x := by
  induction t using induction_on_children with
  | step t ih =>
    rcases t.leaf_or_composite with ⟨n, rfl⟩ | composite
    · simp [tokens, leaves, relations]
    · rw [tokens_eq_elementsTokens composite, mem_elementsTokens, ← children_eq_treesOf,
        leaves_eq_flatMap composite, List.mem_flatMap]
      constructor
      · rintro (⟨c, child, isIn⟩ | ⟨r, stands, written⟩)
        · rcases (ih c child).mp isIn with name | ⟨r, isIn, written⟩
          · exact .inl ⟨c, child, name⟩
          · exact .inr ⟨r, mem_relations.mpr (.inl ⟨c, child, isIn⟩), written⟩
        · exact .inr ⟨r, mem_relations.mpr (.inr stands), written⟩
      · rintro (⟨c, child, name⟩ | ⟨r, isIn, written⟩)
        · exact .inl ⟨c, child, (ih c child).mpr (.inl name)⟩
        · rcases mem_relations.mp isIn with ⟨c, child, isIn⟩ | stands
          · exact .inl ⟨c, child, (ih c child).mpr (.inr ⟨r, isIn, written⟩)⟩
          · exact .inr ⟨r, stands, written⟩

/-- The tokens of a tree of any shape are the names of its unordered view and the operators of the
relations in it. The names are those of the leaves. A relation is in the view exactly if somewhere
in the tree it joins a pair or a chain of two operands or more, or stands in a sequence. -/
theorem unordered_covers (t : Tree) :
    (∀ x, x ∈ t.flat ↔
      x ∈ t.unordered.names ∨ ∃ r ∈ t.unordered.relations, r.operator = x) ∧
    (∀ n, n ∈ t.unordered.names ↔ Within (.leaf n) t) ∧
    (∀ r, r ∈ t.unordered.relations ↔ ∃ u, Within u t ∧ Joins r u) := by
  have names : ∀ n, n ∈ t.unordered.names ↔ n ∈ t.leaves := fun n => Text.mem_sorted
  have relations : ∀ r, r ∈ t.unordered.relations ↔ r ∈ t.relations := fun r =>
    Relation.mem_distinct
  refine ⟨fun x => ?_, fun n => (names n).trans mem_leaves_iff,
    fun r => (relations r).trans mem_relations_iff_joins⟩
  rw [flat_eq_tokens, mem_tokens_iff, names]
  simp only [relations]

example : (chain .blend [.leaf ['A'], .sequence [.symbol .fuse], .chain .derive [.leaf ['B']]]
    ).unordered = ⟨[['A'], ['B']], [.blend, .fuse]⟩ := by decide

end Tree

end GenreRelations
