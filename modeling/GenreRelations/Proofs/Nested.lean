import GenreRelations.Proofs.Faults

/-!
Trees of any shape as wire forms. A tree is written as its tokens, in order, in arrays; so the text
is read back just if the arrays do not nest too deep and none of them is empty or a lone operator,
and then the tokens are kept: `Tree.ofWire_wire_keeps`.
-/

namespace GenreRelations

open Expression (joined)

namespace Tree

/-! ### Values of trees -/

theorem isNested_nested (t : Tree) : t.nested.IsNested := by
  induction t using induction_on_children with
  | step t ih =>
    rcases t.leaf_or_composite with ⟨n, rfl⟩ | composite
    · exact .string n
    · rw [nested_eq_array composite]
      refine .array fun v member => ?_
      rcases mem_nestedElements.mp member with ⟨c, child, rfl⟩ | ⟨r, -, rfl⟩
      · rw [← children_eq_treesOf] at child
        exact ih c child
      · exact .string _

theorem isNested_toJson (t : Tree) : t.toJson.IsNested := by
  rcases t.leaf_or_composite with ⟨n, rfl⟩ | composite
  · refine .array fun v member => ?_
    obtain rfl := List.mem_singleton.mp member
    exact .string n
  · rw [toJson_eq_nested composite]
    exact isNested_nested t

theorem strings_nestedElements {es : List Element}
    (each : ∀ t ∈ treesOf es, t.nested.strings = t.tokens) :
    Json.itemsStrings (nestedElements es) = elementsTokens es := by
  induction es with
  | nil => rfl
  | cons e es ih =>
    cases e with
    | tree t =>
      rw [nestedElements, Json.itemsStrings, elementsTokens, each t List.mem_cons_self,
        ih fun u member => each u (List.mem_cons_of_mem _ member)]
    | symbol r =>
      rw [nestedElements, Json.itemsStrings, elementsTokens, ih each]
      rfl

theorem strings_nested (t : Tree) : t.nested.strings = t.tokens := by
  induction t using induction_on_children with
  | step t ih =>
    rcases t.leaf_or_composite with ⟨n, rfl⟩ | composite
    · rfl
    · rw [nested_eq_array composite, Json.strings, tokens_eq_elementsTokens composite]
      exact strings_nestedElements fun c child => ih c ((children_eq_treesOf t).symm ▸ child)

theorem strings_toJson (t : Tree) : t.toJson.strings = t.tokens := by
  rcases t.leaf_or_composite with ⟨n, rfl⟩ | composite
  · rfl
  · rw [toJson_eq_nested composite, strings_nested]

/-! ### Trees that are read back -/

theorem stands_nested_iff {t : Tree} : (∀ v, Json.Within v t.nested → v.Stands) ↔
    ∀ u, Within u t → u.isLeaf = false → u.nested.Stands := by
  induction t using induction_on_children with
  | step t ih =>
    rw [Json.forall_within_iff]
    rcases t.leaf_or_composite with ⟨n, rfl⟩ | composite
    · refine iff_of_true ⟨trivial, by simp [nested, Json.items]⟩ ?_
      intro u within
      obtain rfl := within_leaf.mp within
      simp [isLeaf]
    · constructor
      · rintro ⟨root, below⟩ u within inner
        rcases within_iff.mp within with rfl | ⟨c, child, within⟩
        · exact root
        · refine (ih c child).mp (below c.nested ?_) u within inner
          rw [nested_eq_array composite]
          rw [children_eq_treesOf] at child
          exact mem_nestedElements.mpr (.inl ⟨c, child, rfl⟩)
      · intro stand
        refine ⟨stand t (.refl t) composite, fun v member => ?_⟩
        rw [nested_eq_array composite] at member
        rcases mem_nestedElements.mp member with ⟨c, child, rfl⟩ | ⟨r, -, rfl⟩
        · rw [← children_eq_treesOf] at child
          exact (ih c child).mpr fun u within => stand u (.child child within)
        · rw [Json.forall_within_iff]
          exact ⟨trivial, by simp [Json.items]⟩

theorem stands_nested_root_iff {t : Tree} (composite : t.isLeaf = false) :
    t.nested.Stands ↔ ((∀ r, t ≠ .chain r []) ∧ t ≠ .sequence []) ∧
      ∀ r : Relation, t.toJson ≠ .array [.string r.operator] := by
  rw [toJson_eq_nested composite, nested_eq_array composite, Json.Stands]
  refine and_congr ?_ (by simp)
  cases t with
  | leaf n => simp [isLeaf] at composite
  | pair l r t => simp [elements, nestedElements]
  | chain r ts =>
    cases ts with
    | nil => simp [elements, nestedElements, joined]
    | cons t ts => simp [elements, nestedElements_joined_cons]
  | sequence es =>
    cases es with
    | nil => simp [elements, nestedElements]
    | cons e es => cases e <;> simp [elements, nestedElements]

theorem isWireForm_toJson_iff {t : Tree} : t.toJson.IsWireForm ↔
    ((∀ r, ¬ Within (.chain r []) t) ∧ ¬ Within (.sequence []) t) ∧
      ∀ u, Within u t → (u = t ∨ u.isLeaf = false) →
        ∀ r : Relation, u.toJson ≠ .array [.string r.operator] := by
  rcases t.leaf_or_composite with ⟨n, rfl⟩ | composite
  · rw [← Json.documentFaults_eq_nil_iff]
    simp [within_leaf, toJson, Json.documentFaults, Json.faults, Json.itemsFaults,
      Json.ownFaults_eq_nil_iff]
  · have form : t.toJson.IsWireForm ↔ ∀ u, Within u t → u.isLeaf = false → u.nested.Stands := by
      rw [← stands_nested_iff, toJson_eq_nested composite, nested_eq_array composite]
      exact ⟨fun form => form.stands, fun stands => ⟨⟨_, rfl⟩, stands⟩⟩
    rw [form]
    constructor
    · intro stand
      have root := fun u within inner => (stands_nested_root_iff inner).mp (stand u within inner)
      refine ⟨⟨fun r within => ?_, fun within => ?_⟩, ?_⟩
      · exact (root _ within rfl).1.1 r rfl
      · exact (root _ within rfl).1.2 rfl
      rintro u within (rfl | inner)
      · exact (root u within composite).2
      · exact (root u within inner).2
    · rintro ⟨⟨chains, sequences⟩, lone⟩ u within inner
      refine (stands_nested_root_iff inner).mpr ⟨⟨?_, ?_⟩, lone u within (.inr inner)⟩
      · rintro r rfl
        exact chains r within
      · rintro rfl
        exact sequences within

end Tree

namespace Json

theorem mem_itemsFaults {vs : List Json} {e : WireError} :
    e ∈ itemsFaults vs ↔ ∃ v ∈ vs, e ∈ v.faults := by
  induction vs with
  | nil => simp [itemsFaults]
  | cons v vs ih => simp [itemsFaults, ih]

theorem mem_ownFaults {vs : List Json} {e : WireError} (fault : e ∈ ownFaults vs) :
    e = .emptyArray ∨ ∃ r, e = .misplacedSymbol r := by
  unfold ownFaults at fault
  split at fault
  · exact .inl (List.mem_singleton.mp fault)
  · rw [Option.mem_toList, Option.map_eq_some_iff] at fault
    obtain ⟨r, -, rfl⟩ := fault
    exact .inr ⟨r, rfl⟩
  · simp at fault

theorem IsNested.mem_faults {v : Json} (nested : v.IsNested) {e : WireError}
    (fault : e ∈ v.faults) : e = .emptyArray ∨ ∃ r, e = .misplacedSymbol r := by
  induction nested with
  | string s => simp [faults] at fault
  | @array vs _ ih =>
    rw [faults, List.mem_append, mem_itemsFaults] at fault
    rcases fault with ⟨v, member, fault⟩ | own
    · exact ih v member fault
    · exact mem_ownFaults own

end Json

namespace Tree

theorem ofWire_wire (t : Tree) :
    ofWire t.wire = if t.toJson.nesting ≤ 127 then ofJson t.toJson else .error .notJson := by
  have document := Json.read?_compact (isNested_toJson t)
  by_cases shallow : t.toJson.nesting ≤ 127
  · rw [if_pos shallow]
    exact ofWire_of_read? (document.trans (if_pos shallow))
  · rw [if_neg shallow, wire, ofWire, document.trans (if_neg shallow)]

theorem error_of_ofJson_toJson {t : Tree} {e : WireError} (failed : ofJson t.toJson = .error e) :
    e = .emptyArray ∨ ∃ r, e = .misplacedSymbol r := by
  rw [← fault?_eq_some_iff, fault?_ofJson] at failed
  have fault := List.mem_of_mem_head? failed
  obtain ⟨vs, array⟩ : ∃ vs, t.toJson = .array vs := by
    rcases t.leaf_or_composite with ⟨n, rfl⟩ | composite
    · exact ⟨_, rfl⟩
    · exact ⟨_, (toJson_eq_nested composite).trans (nested_eq_array composite)⟩
  have nested := isNested_toJson t
  rw [array] at fault nested
  exact nested.mem_faults fault

/-- The wire form of a tree is read back just if it does not nest too deep and has no empty array
and no lone operator, and then the tokens are the same. -/
theorem ofWire_wire_keeps (t : Tree) :
    ((∃ u, ofWire t.wire = .ok u) ↔
      t.toJson.nesting ≤ 127 ∧ ((∀ r, ¬ Within (.chain r []) t) ∧ ¬ Within (.sequence []) t) ∧
        ∀ u, Within u t → (u = t ∨ u.isLeaf = false) →
          ∀ r : Relation, u.toJson ≠ .array [.string r.operator]) ∧
    (∀ u, ofWire t.wire = .ok u → u.flat = t.flat) ∧
    (t.toJson.nesting ≤ 127 → ∀ e, ofWire t.wire = .error e →
      e = .emptyArray ∨ ∃ r, e = .misplacedSymbol r) := by
  rw [ofWire_wire, ← isWireForm_toJson_iff]
  by_cases shallow : t.toJson.nesting ≤ 127
  · rw [if_pos shallow, exists_ofJson_iff]
    refine ⟨(and_iff_right shallow).symm, fun u read => ?_, fun _ e failed => ?_⟩
    · rw [flat_of_ofJson read, strings_toJson, flat_eq_tokens]
    · exact error_of_ofJson_toJson failed
  · rw [if_neg shallow]
    refine ⟨iff_of_false (by simp) fun both => shallow both.1, by simp, fun within => ?_⟩
    exact absurd within shallow

theorem ofWire_wire_keeps_operator_name :
    (∃ u, ofWire "[\">\",\"|\",[\"A\"]]".toList = .ok u ∧
      u.flat = [">".toList, "|".toList, "A".toList]) ∧
    ∃ e, ofWire "[[\"|\"],\"|\",[]]".toList = .error e ∧
      (e = .emptyArray ∨ ∃ r, e = .misplacedSymbol r) := by
  constructor
  · have keeps :=
      ofWire_wire_keeps (.chain .blend [.leaf ">".toList, .chain .fuse [.leaf "A".toList]])
    have form := isWireForm_toJson_iff.mp (Json.documentFaults_eq_nil_iff.mp (show (toJson (.chain
      .blend [.leaf ">".toList, .chain .fuse [.leaf "A".toList]])).documentFaults = [] from rfl))
    obtain ⟨u, read⟩ := keeps.1.mpr ⟨by decide, form⟩
    exact ⟨u, read, (keeps.2.1 u read).trans (flat_eq_tokens _)⟩
  · have keeps := ofWire_wire_keeps
      (.chain .blend [.chain .fuse [.leaf "|".toList], .chain .fuse []])
    have failed : ofWire "[[\"|\"],\"|\",[]]".toList = .error (.misplacedSymbol .blend) :=
      (ofWire_wire (.chain .blend [.chain .fuse [.leaf "|".toList], .chain .fuse []])).trans rfl
    exact ⟨_, failed, keeps.2.2 (by decide) _ failed⟩

end Tree

end GenreRelations
