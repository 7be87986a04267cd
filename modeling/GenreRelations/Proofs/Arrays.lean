import GenreRelations.Proofs.Trees
import GenreRelations.Tree.Walk

/-!
One array of a wire form. Its elements make a chain if they alternate and a sequence otherwise, a
single tree stands for itself, and a composite tree is written as the array of its elements.
-/

namespace GenreRelations

open Expression (joined)

namespace Relation

theorem ofOperator?_operator (r : Relation) : ofOperator? r.operator = some r := by
  cases r <;> decide

theorem operator_of_ofOperator? {s : Text} {r : Relation} (found : ofOperator? s = some r) :
    r.operator = s := by
  simpa using List.find?_some found

theorem ofOperator?_eq_none_iff {s : Text} :
    ofOperator? s = none ↔ ∀ r : Relation, s ≠ r.operator := by
  constructor
  · rintro absent r rfl
    simp [ofOperator?_operator] at absent
  · intro different
    cases found : ofOperator? s with
    | none => rfl
    | some r => exact absurd (operator_of_ofOperator? found).symm (different r)

theorem ofOperator?_eq_some_iff {s : Text} {r : Relation} :
    ofOperator? s = some r ↔ s = r.operator := by
  constructor
  · intro found
    exact (operator_of_ofOperator? found).symm
  · rintro rfl
    exact ofOperator?_operator r

theorem readOperator_eq_ok_iff {s : Text} {r : Relation} :
    readOperator s = .ok r ↔ s = r.operator := by
  rw [← ofOperator?_eq_some_iff, readOperator]
  cases ofOperator? s <;> simp

/-- Reading fails on texts that are no operators, dividers among them, and the message shows the
text. -/
theorem readOperator_eq_error_iff {s message : Text} : readOperator s = .error message ↔
    (∀ r : Relation, s ≠ r.operator) ∧ message = notOperatorMessage s := by
  rw [← ofOperator?_eq_none_iff, readOperator]
  cases ofOperator? s with
  | some r => simp
  | none => simp [eq_comm]

/-- Items of arrays that are strings are read so, without the message. -/
theorem toOption_readOperator (s : Text) : (readOperator s).toOption = ofOperator? s := by
  rw [readOperator]
  cases ofOperator? s <;> rfl

end Relation

namespace Tree

/-! ### Reading -/

theorem alternate_iff_continues {r : Relation} {t : Tree} {es : List Element} :
    Element.Alternate r (.tree t :: es) ↔ continues r es = true := by
  fun_induction continues r es generalizing t with
  | case1 => exact iff_of_true (.tree t) rfl
  | case2 q u es ih =>
    rw [Bool.and_eq_true, decide_eq_true_iff, ← @ih u]
    constructor
    · rintro ⟨⟩
      rename_i rest
      exact ⟨rfl, rest⟩
    · rintro ⟨rfl, rest⟩
      exact .cons t rest
  | case3 es empty turns =>
    refine iff_of_false ?_ (by simp)
    rintro (- | @⟨_, fs, rest⟩)
    · exact empty rfl
    · cases rest with
      | tree u => exact turns r u [] rfl
      | cons u rest => exact turns r u _ rfl

theorem chainRelation?_eq_some_iff {es : List Element} {r : Relation} :
    chainRelation? es = some r ↔ 2 ≤ es.length ∧ Element.Alternate r es := by
  match es with
  | [] => simp [chainRelation?]
  | .symbol q :: es =>
    refine iff_of_false (by simp [chainRelation?]) ?_
    rintro ⟨-, ⟨⟩⟩
  | [.tree t] => simp [chainRelation?]
  | .tree t :: .tree u :: es =>
    refine iff_of_false (by simp [chainRelation?]) ?_
    rintro ⟨-, ⟨⟩⟩
  | .tree t :: .symbol q :: es =>
    rw [chainRelation?, alternate_iff_continues]
    constructor
    · intro found
      split at found
      · rename_i turns
        obtain rfl := Option.some.inj found
        exact ⟨by simp, turns⟩
      · simp at found
    · rintro ⟨-, turns⟩
      -- the first symbol already is of the relation
      obtain ⟨rest⟩ := alternate_iff_continues (t := t).mpr turns
      rw [if_pos turns]

/-- The tree of two elements or more. -/
def compose (es : List Element) : Tree :=
  match chainRelation? es with
  | some r => .chain r (treesOf es)
  | none => .sequence es

theorem compose_joined {r : Relation} {ts : List Tree} (several : 2 ≤ ts.length) :
    compose (joined r ts) = .chain r ts := by
  have chain : chainRelation? (joined r ts) = some r := by
    have nonempty : ts ≠ [] := List.ne_nil_of_length_pos (by omega)
    refine chainRelation?_eq_some_iff.mpr ⟨?_, Element.alternate_joined r nonempty⟩
    rw [length_joined]
    omega
  rw [compose, chain, treesOf_joined]

theorem compose_of_not_alternate {es : List Element} (mixed : ∀ r, ¬ Element.Alternate r es) :
    compose es = .sequence es := by
  cases found : chainRelation? es with
  | none => rw [compose, found]
  | some r => exact absurd (chainRelation?_eq_some_iff.mp found).2 (mixed r)

theorem compose_cases {es : List Element} (several : 2 ≤ es.length) :
    (∃ r ts, es = joined r ts ∧ 2 ≤ ts.length ∧ compose es = .chain r ts) ∨
      (∀ r, ¬ Element.Alternate r es) ∧ compose es = .sequence es := by
  by_cases turns : ∃ r, Element.Alternate r es
  · obtain ⟨r, alternate⟩ := turns
    obtain ⟨ts, rfl⟩ := alternate.exists_trees
    rw [length_joined] at several
    exact .inl ⟨r, ts, rfl, by omega, compose_joined (by omega)⟩
  · have mixed : ∀ r, ¬ Element.Alternate r es := not_exists.mp turns
    exact .inr ⟨mixed, compose_of_not_alternate mixed⟩

theorem elements_compose {es : List Element} (several : 2 ≤ es.length) :
    (compose es).elements = es ∧ (compose es).isLeaf = false := by
  rcases compose_cases several with ⟨r, ts, rfl, -, chain⟩ | ⟨-, sequence⟩
  · rw [chain]
    exact ⟨rfl, rfl⟩
  · rw [sequence]
    exact ⟨rfl, rfl⟩

theorem ofElements_eq_compose {es : List Element} (several : 2 ≤ es.length) :
    ofElements es = .ok (compose es) := by
  rw [ofElements, compose]
  · cases chainRelation? es <;> rfl
  · rintro rfl
    simp at several
  · rintro t rfl
    simp at several
  · rintro r rfl
    simp at several

theorem ofElements_cases (es : List Element) :
    (es = [] ∧ ofElements es = .error .emptyArray) ∨
      (∃ r, es = [.symbol r] ∧ ofElements es = .error (.misplacedSymbol r)) ∨
      (∃ t, es = [.tree t] ∧ ofElements es = .ok t) ∨
      2 ≤ es.length ∧ ofElements es = .ok (compose es) := by
  match es with
  | [] => exact .inl ⟨rfl, rfl⟩
  | [.symbol r] => exact .inr (.inl ⟨r, rfl, rfl⟩)
  | [.tree t] => exact .inr (.inr (.inl ⟨t, rfl, rfl⟩))
  | e :: f :: es => exact .inr (.inr (.inr ⟨by simp, ofElements_eq_compose (by simp)⟩))

theorem ofElements_eq_ok {es : List Element} {t : Tree} (made : ofElements es = .ok t) :
    es = [.tree t] ∨ 2 ≤ es.length ∧ t = compose es := by
  rcases ofElements_cases es with ⟨-, failed⟩ | ⟨r, -, failed⟩ | ⟨u, rfl, single⟩ | ⟨several, whole⟩
  · simp [failed] at made
  · simp [failed] at made
  · obtain rfl := Except.ok.inj (single.symm.trans made)
    exact .inl rfl
  · exact .inr ⟨several, Except.ok.inj (made.symm.trans whole)⟩

theorem tokens_ofElements {es : List Element} {t : Tree} (made : ofElements es = .ok t) :
    t.tokens = elementsTokens es := by
  rcases ofElements_eq_ok made with rfl | ⟨several, rfl⟩
  · simp [elementsTokens]
  · obtain ⟨elements, composite⟩ := elements_compose several
    rw [tokens_eq_elementsTokens composite, elements]

/-! ### Writing -/

theorem nestedElements_joined_cons (r : Relation) (t : Tree) (ts : List Tree) :
    nestedElements (joined r (t :: ts)) = t.nested :: nestedOperands r ts := by
  induction ts generalizing t with
  | nil => rfl
  | cons u ts ih =>
    rw [joined, nestedElements, nestedElements, ih]
    rfl

theorem nestedElements_joined (r : Relation) (ts : List Tree) :
    nestedElements (joined r ts) = (ts.map nested).intersperse (.string r.operator) := by
  induction ts with
  | nil => rfl
  | cons t ts ih =>
    cases ts with
    | nil => rfl
    | cons u ts =>
      rw [joined, nestedElements, nestedElements, ih]
      rfl

theorem nested_eq_array {t : Tree} (composite : t.isLeaf = false) :
    t.nested = .array (nestedElements t.elements) := by
  cases t with
  | leaf n => simp [isLeaf] at composite
  | pair l r t => rfl
  | chain r ts =>
    cases ts with
    | nil => rfl
    | cons t ts => rw [nested, elements, nestedElements_joined_cons]
  | sequence es => rfl

theorem toJson_eq_nested {t : Tree} (composite : t.isLeaf = false) : t.toJson = t.nested := by
  cases t with
  | leaf n => simp [isLeaf] at composite
  | _ => rfl

theorem mem_nestedElements {es : List Element} {v : Json} :
    v ∈ nestedElements es ↔
      (∃ t ∈ treesOf es, v = t.nested) ∨ ∃ r, .symbol r ∈ es ∧ v = .string r.operator := by
  induction es with
  | nil => simp [nestedElements, treesOf]
  | cons e es ih =>
    cases e with
    | tree t => simp [nestedElements, treesOf, ih, or_assoc]
    | symbol r =>
      simp only [nestedElements, treesOf, List.mem_cons, Element.symbol.injEq, ih]
      constructor
      · rintro (rfl | below | ⟨q, member, same⟩)
        · exact .inr ⟨r, .inl rfl, rfl⟩
        · exact .inl below
        · exact .inr ⟨q, .inr member, same⟩
      · rintro (below | ⟨q, rfl | member, same⟩)
        · exact .inr (.inl below)
        · exact .inl same
        · exact .inr (.inr ⟨q, member, same⟩)

end Tree

end GenreRelations
