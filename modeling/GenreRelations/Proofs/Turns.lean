import GenreRelations.Proofs.Chained

/-!
Names and operators take turns in the tokens of a tree: the names at even places are its leaves,
and the operators at odd places write its relations.
-/

namespace GenreRelations

open Expression (joined)

/-- The tokens are the names with the operators of the relations between them. -/
inductive Turns : List Text → List Relation → List Text → Prop
  | name (n : Text) : Turns [n] [] [n]
  | cons (n : Text) (r : Relation) {ns : List Text} {rs : List Relation} {ms : List Text}
      (rest : Turns ns rs ms) : Turns (n :: ns) (r :: rs) (n :: r.operator :: ms)

namespace Turns

variable {ns ks ms ls : List Text} {rs qs : List Relation}

theorem append (r : Relation) (front : Turns ns rs ms) (back : Turns ks qs ls) :
    Turns (ns ++ ks) (rs ++ r :: qs) (ms ++ r.operator :: ls) := by
  induction front with
  | name n => exact .cons n r back
  | cons n q _ ih => exact .cons n q ih

theorem odd (turns : Turns ns rs ms) : ms.length % 2 = 1 := by
  induction turns with
  | name => rfl
  | cons _ _ _ ih =>
    rw [List.length_cons, List.length_cons]
    omega

theorem at_even (turns : Turns ns rs ms) (i : Nat) : ms[2 * i]? = ns[i]? := by
  induction turns generalizing i with
  | name n => cases i <;> rfl
  | cons n r _ ih =>
    cases i with
    | zero => rfl
    | succ i => exact ih i

theorem at_odd (turns : Turns ns rs ms) (i : Nat) :
    ms[2 * i + 1]? = rs[i]?.map Relation.operator := by
  induction turns generalizing i with
  | name n => cases i <;> rfl
  | cons n r _ ih =>
    cases i with
    | zero => rfl
    | succ i => exact ih i

theorem mem_names (turns : Turns ns rs ms) {n : Text} :
    n ∈ ns ↔ ∃ i, i % 2 = 0 ∧ ms[i]? = some n := by
  rw [List.mem_iff_getElem?]
  constructor
  · rintro ⟨i, stands⟩
    exact ⟨2 * i, by omega, by rw [turns.at_even, stands]⟩
  · rintro ⟨i, even, stands⟩
    obtain ⟨j, rfl⟩ : ∃ j, i = 2 * j := ⟨i / 2, by omega⟩
    exact ⟨j, turns.at_even j ▸ stands⟩

theorem mem_relations (turns : Turns ns rs ms) {r : Relation} :
    r ∈ rs ↔ ∃ i, i % 2 = 1 ∧ ms[i]? = some r.operator := by
  rw [List.mem_iff_getElem?]
  constructor
  · rintro ⟨i, stands⟩
    exact ⟨2 * i + 1, by omega, by rw [turns.at_odd, stands, Option.map_some]⟩
  · rintro ⟨i, odd, stands⟩
    obtain ⟨j, rfl⟩ : ∃ j, i = 2 * j + 1 := ⟨i / 2, by omega⟩
    rw [turns.at_odd, Option.map_eq_some_iff] at stands
    obtain ⟨q, here, same⟩ := stands
    obtain rfl : q = r := by
      revert same
      cases q <;> cases r <;> decide
    exact ⟨j, here⟩

theorem exists_operator (turns : Turns ns rs ms) {i : Nat} (odd : i % 2 = 1) {m : Text}
    (stands : ms[i]? = some m) : ∃ r : Relation, m = r.operator := by
  obtain ⟨j, rfl⟩ : ∃ j, i = 2 * j + 1 := ⟨i / 2, by omega⟩
  rw [turns.at_odd, Option.map_eq_some_iff] at stands
  obtain ⟨r, -, same⟩ := stands
  exact ⟨r, same.symm⟩

end Turns

namespace Tree

theorem mem_relations_iff_elements {t : Tree} {q : Relation} :
    q ∈ t.relations ↔ q ∈ elementsRelations t.elements := by
  rw [mem_relations, mem_elementsRelations, children_eq_treesOf]

theorem turns_joined (r : Relation) {ts : List Tree} (nonempty : ts ≠ [])
    (each : ∀ t ∈ ts, ∃ rs, Turns t.leaves rs t.tokens ∧ ∀ q, q ∈ rs ↔ q ∈ t.relations) :
    ∃ rs, Turns (ts.flatMap leaves) rs (elementsTokens (joined r ts)) ∧
      ∀ q, q ∈ rs ↔ q ∈ elementsRelations (joined r ts) := by
  induction ts with
  | nil => exact absurd rfl nonempty
  | cons t ts ih =>
    obtain ⟨rs, first, mem_first⟩ := each t List.mem_cons_self
    cases ts with
    | nil =>
      simp only [joined, elementsTokens, elementsRelations, List.append_nil, List.flatMap_cons,
        List.flatMap_nil]
      exact ⟨rs, first, mem_first⟩
    | cons u ts =>
      obtain ⟨qs, later, mem_later⟩ := ih (by simp) fun c member =>
        each c (List.mem_cons_of_mem _ member)
      refine ⟨rs ++ r :: qs, first.append r later, fun q => ?_⟩
      rw [joined, elementsRelations, elementsRelations, List.mem_append, List.mem_append,
        List.mem_cons, List.mem_cons, mem_first, mem_later]

/-- The names of a tree take turns with its relations. -/
theorem Uniform.turns {t : Tree} (uniform : t.Uniform) :
    ∃ rs, Turns t.leaves rs t.tokens ∧ ∀ q, q ∈ rs ↔ q ∈ t.relations := by
  induction uniform with
  | @leaf n => exact ⟨[], .name n, fun q => by simp [relations]⟩
  | @composite t r ts elements several _ ih =>
    have composite := isLeaf_of_elements elements several
    have nonempty : ts ≠ [] := List.ne_nil_of_length_pos (by omega)
    obtain ⟨rs, turns, members⟩ := turns_joined r nonempty ih
    rw [tokens_eq_elementsTokens composite, leaves_eq_flatMap composite,
      children_of_elements elements, elements]
    refine ⟨rs, turns, fun q => ?_⟩
    rw [members, mem_relations_iff_elements, elements]

end Tree

end GenreRelations
