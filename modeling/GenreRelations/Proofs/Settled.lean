import GenreRelations.Proofs.Nested

/-!
Trees that come out of wire forms. They are settled: no name is an operator, no composite tree is
smaller than two elements, and a sequence is one that no chain could stand for. Reading yields
exactly the settled trees, and each of them is read back from its own wire form:
`Tree.ofWire_settles`.
-/

namespace GenreRelations

namespace Tree

/-- What the root of a tree is like that reading yields. -/
def SettledRoot : Tree → Prop
  | leaf n => ∀ r : Relation, n ≠ r.operator
  | pair _ _ _ => False
  | chain _ ts => 2 ≤ ts.length
  | sequence es => 2 ≤ es.length ∧ ∀ r, ¬ Element.Alternate r es

def Settled (t : Tree) : Prop := ∀ u, Within u t → u.SettledRoot

theorem Settled.root {t : Tree} (settled : t.Settled) : t.SettledRoot := settled t (.refl t)

theorem Settled.child {c t : Tree} (settled : t.Settled) (child : c ∈ t.children) : c.Settled :=
  fun u within => settled u (.child child within)

theorem Settled.of_children {t : Tree} (root : t.SettledRoot)
    (below : ∀ c ∈ t.children, c.Settled) : t.Settled := by
  intro u within
  rcases within_iff.mp within with rfl | ⟨c, child, within⟩
  · exact root
  · exact below c child u within

/-! ### What is read is settled -/

theorem settled_ofElements {es : List Element} {t : Tree} (made : ofElements es = .ok t)
    (below : ∀ c ∈ treesOf es, c.Settled) : t.Settled := by
  rcases ofElements_eq_ok made with rfl | ⟨several, rfl⟩
  · exact below t List.mem_cons_self
  · rcases compose_cases several with ⟨r, ts, rfl, long, chain⟩ | ⟨mixed, sequence⟩
    · rw [chain]
      rw [treesOf_joined] at below
      exact .of_children long below
    · rw [sequence]
      exact .of_children ⟨several, mixed⟩ below

theorem nesting_nested_le (t : Tree) : t.nested.nesting ≤ t.toJson.nesting := by
  rcases t.leaf_or_composite with ⟨n, rfl⟩ | composite
  · exact Nat.zero_le _
  · exact Nat.le_of_eq (congrArg Json.nesting (toJson_eq_nested composite).symm)

theorem nesting_ofElements {es : List Element} {t : Tree} (made : ofElements es = .ok t) :
    t.toJson.nesting ≤ 1 + Json.itemsNesting (nestedElements es) := by
  rcases ofElements_eq_ok made with rfl | ⟨several, rfl⟩
  -- an array of one item collapses, which nests less deep unless the item is a name
  · rcases t.leaf_or_composite with ⟨n, rfl⟩ | composite
    · exact Nat.le_refl _
    · rw [toJson_eq_nested composite, nestedElements, Json.itemsNesting]
      omega
  · obtain ⟨elements, composite⟩ := elements_compose several
    refine Nat.le_of_eq ?_
    rw [toJson_eq_nested composite, nested_eq_array composite, elements, Json.nesting]

theorem elementsOfJson_settles {vs : List Json}
    (each : ∀ v ∈ vs, ∀ t, elementOfJson v = .ok (.tree t) →
      t.Settled ∧ t.nested.nesting ≤ v.nesting)
    {es : List Element} (read : elementsOfJson vs = .ok es) :
    (∀ c ∈ treesOf es, c.Settled) ∧
      Json.itemsNesting (nestedElements es) ≤ Json.itemsNesting vs := by
  induction vs generalizing es with
  | nil =>
    obtain rfl := Except.ok.inj read
    exact ⟨by simp [treesOf], Nat.le_refl _⟩
  | cons v vs ih =>
    obtain ⟨e, fs, rfl, first, rest⟩ := elementsOfJson_cons_eq_ok.mp read
    obtain ⟨settled, shallow⟩ := ih (fun w member => each w (List.mem_cons_of_mem _ member)) rest
    rw [Json.itemsNesting]
    cases e with
    | tree t =>
      obtain ⟨here, low⟩ := each v List.mem_cons_self t first
      rw [nestedElements, Json.itemsNesting]
      refine ⟨?_, by omega⟩
      intro c member
      rcases List.mem_cons.mp member with rfl | member
      · exact here
      · exact settled c member
    | symbol r =>
      rw [nestedElements, Json.itemsNesting, Json.nesting]
      · exact ⟨settled, by omega⟩
      · simp
      · simp

theorem ofJson_array_settles {vs : List Json}
    (each : ∀ v ∈ vs, ∀ t, elementOfJson v = .ok (.tree t) →
      t.Settled ∧ t.nested.nesting ≤ v.nesting)
    {t : Tree} (read : ofJson (.array vs) = .ok t) :
    t.Settled ∧ t.toJson.nesting ≤ (Json.array vs).nesting := by
  obtain ⟨es, items, made⟩ := ofJson_array_eq_ok.mp read
  obtain ⟨settled, shallow⟩ := elementsOfJson_settles each items
  have low := nesting_ofElements made
  rw [Json.nesting]
  exact ⟨settled_ofElements made settled, by omega⟩

theorem elementOfJson_settles {v : Json} {t : Tree} (read : elementOfJson v = .ok (.tree t)) :
    t.Settled ∧ t.nested.nesting ≤ v.nesting := by
  induction v using Json.induction_on_items generalizing t with
  | step v ih =>
    cases v with
    | string s =>
      unfold elementOfJson at read
      split at read
      · simp at read
      · rename_i found
        obtain rfl := Element.tree.inj (Except.ok.inj read)
        have name := Relation.ofOperator?_eq_none_iff.mp found
        exact ⟨.of_children name (by simp [children]), Nat.le_refl _⟩
    | array vs =>
      obtain ⟨u, same, made⟩ := elementOfJson_array_eq_ok.mp read
      obtain rfl := Element.tree.inj same
      obtain ⟨settled, low⟩ := ofJson_array_settles (fun w member u => ih w member) made
      exact ⟨settled, Nat.le_trans (nesting_nested_le t) low⟩
    | _ => simp [elementOfJson] at read

theorem ofJson_settles {v : Json} {t : Tree} (read : ofJson v = .ok t) :
    t.Settled ∧ t.toJson.nesting ≤ v.nesting := by
  cases v with
  | array vs => exact ofJson_array_settles (fun w _ u => elementOfJson_settles) read
  | _ => simp [ofJson] at read

/-! ### What is settled is read back -/

theorem elementsOfJson_nestedElements {es : List Element}
    (each : ∀ t ∈ treesOf es, elementOfJson t.nested = .ok (.tree t)) :
    elementsOfJson (nestedElements es) = .ok es := by
  induction es with
  | nil => rfl
  | cons e es ih =>
    cases e with
    | tree t =>
      have rest := ih fun u member => each u (List.mem_cons_of_mem _ member)
      exact elementsOfJson_cons_eq_ok.mpr ⟨_, _, rfl, each t List.mem_cons_self, rest⟩
    | symbol r =>
      have symbol : elementOfJson (.string r.operator) = .ok (.symbol r) := by
        rw [elementOfJson, Relation.ofOperator?_operator]
      exact elementsOfJson_cons_eq_ok.mpr ⟨_, _, rfl, symbol, ih each⟩

theorem ofElements_elements {t : Tree} (root : t.SettledRoot) (composite : t.isLeaf = false) :
    ofElements t.elements = .ok t := by
  cases t with
  | leaf n => simp [isLeaf] at composite
  | pair l r t => exact absurd root id
  | chain r ts =>
    have several : 2 ≤ ts.length := root
    rw [elements, ofElements_eq_compose, compose_joined several]
    rw [length_joined]
    omega
  | sequence es => rw [elements, ofElements_eq_compose root.1, compose_of_not_alternate root.2]

theorem ofJson_nested {t : Tree} (root : t.SettledRoot) (composite : t.isLeaf = false)
    (each : ∀ c ∈ t.children, elementOfJson c.nested = .ok (.tree c)) :
    ofJson t.nested = .ok t := by
  rw [nested_eq_array composite]
  rw [children_eq_treesOf] at each
  exact ofJson_array_eq_ok.mpr
    ⟨t.elements, elementsOfJson_nestedElements each, ofElements_elements root composite⟩

theorem elementOfJson_nested {t : Tree} (settled : t.Settled) :
    elementOfJson t.nested = .ok (.tree t) := by
  induction t using induction_on_children with
  | step t ih =>
    rcases t.leaf_or_composite with ⟨n, rfl⟩ | composite
    · rw [nested, elementOfJson, Relation.ofOperator?_eq_none_iff.mpr settled.root]
    · have read := ofJson_nested settled.root composite fun c child =>
        ih c child (settled.child child)
      rw [nested_eq_array composite] at read ⊢
      exact elementOfJson_array_eq_ok.mpr ⟨t, rfl, read⟩

theorem ofJson_toJson {t : Tree} (settled : t.Settled) : ofJson t.toJson = .ok t := by
  rcases t.leaf_or_composite with ⟨n, rfl⟩ | composite
  · have items : elementsOfJson [.string n] = .ok [.tree (leaf n)] :=
      elementsOfJson_cons_eq_ok.mpr ⟨_, _, rfl, elementOfJson_nested settled, rfl⟩
    exact ofJson_array_eq_ok.mpr ⟨_, items, rfl⟩
  · rw [toJson_eq_nested composite]
    exact ofJson_nested settled.root composite fun c child =>
      elementOfJson_nested (settled.child child)

/-! ### Documents -/

theorem ofWire_wire_of_settled {t : Tree} (settled : t.Settled) (shallow : t.toJson.nesting ≤ 127) :
    ofWire t.wire = .ok t := by
  rw [ofWire_wire, if_pos shallow, ofJson_toJson settled]

theorem settled_of_ofWire {s : Text} {t : Tree} (read : ofWire s = .ok t) :
    t.Settled ∧ t.toJson.nesting ≤ 127 := by
  unfold ofWire at read
  split at read
  · simp at read
  · rename_i v document
    obtain ⟨settled, low⟩ := ofJson_settles read
    exact ⟨settled, Nat.le_trans low (Json.nesting_le_of_read? document)⟩

/-- What is read from a wire form is read back from its own, and exactly the settled trees are. -/
theorem ofWire_settles :
    (∀ (s : Text) (t : Tree), ofWire s = .ok t → ofWire t.wire = .ok t) ∧
    ∀ t : Tree, (∃ s, ofWire s = .ok t) ↔ t.toJson.nesting ≤ 127 ∧ t.Settled := by
  constructor
  · intro s t read
    obtain ⟨settled, shallow⟩ := settled_of_ofWire read
    exact ofWire_wire_of_settled settled shallow
  · intro t
    constructor
    · rintro ⟨s, read⟩
      exact (settled_of_ofWire read).symm
    · rintro ⟨shallow, settled⟩
      exact ⟨t.wire, ofWire_wire_of_settled settled shallow⟩

theorem ofWire_settles_collapsed :
    ofWire "[[\"A\"],\"|\",[[\"B\"]]]".toList =
      .ok (.chain .blend [.leaf "A".toList, .leaf "B".toList]) ∧
    ofWire "[\"A\",\"|\",\"B\"]".toList =
      .ok (.chain .blend [.leaf "A".toList, .leaf "B".toList]) ∧
    Settled (.chain .blend [.leaf "A".toList, .leaf "B".toList]) := by
  have form : (Json.array [.array [.string "A".toList], .string "|".toList,
      .array [.array [.string "B".toList]]]).IsWireForm := Json.documentFaults_eq_nil_iff.mp rfl
  have read : ofWire "[[\"A\"],\"|\",[[\"B\"]]]".toList =
      .ok (.chain .blend [.leaf "A".toList, .leaf "B".toList]) := ofWire_compact form (by decide)
  exact ⟨read, ofWire_settles.1 _ _ read, ((ofWire_settles.2 _).mp ⟨_, read⟩).2⟩

end Tree

end GenreRelations
