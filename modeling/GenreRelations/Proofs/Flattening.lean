import GenreRelations.Proofs.Dividers
import GenreRelations.Proofs.Trees
import GenreRelations.Tree.Walk

/-!
What parsing keeps. Every segment becomes one token, in the same place: a symbol its operator, and
a name the name without some parentheses and blanks at its ends. As many opening parentheses are
lost as closing ones.
-/

namespace GenreRelations

open Expression (joined pairUp)
open Segment (Alternating IsLevel tokenize)

/-- The segments become the tokens, and names lose so many opening and closing parentheses. -/
inductive Kept : List Segment → List Text → Nat → Nat → Prop
  | nil : Kept [] [] 0 0
  | symbol (s : Symbol) {ss : List Segment} {ms : List Text} {a b : Nat} (rest : Kept ss ms a b) :
      Kept (.symbol s :: ss) (s.relation.operator :: ms) a b
  | name {p m q : Text} (opening : ∀ c ∈ p, c = '(' ∨ Text.isBlank c = true)
      (closing : ∀ c ∈ q, c = ')' ∨ Text.isBlank c = true) {ss : List Segment} {ms : List Text}
      {a b : Nat} (rest : Kept ss ms a b) :
      Kept (.name (p ++ m ++ q) :: ss) (m :: ms) (p.count '(' + a) (q.count ')' + b)

namespace Kept

variable {ss ts : List Segment} {ms ns : List Text} {a b c d : Nat}

theorem whole (n : Text) : Kept [.name n] [n] 0 0 := by
  have kept := Kept.name (p := []) (m := n) (q := []) (by simp) (by simp) .nil
  simpa using kept

theorem length_eq (kept : Kept ss ms a b) : ms.length = ss.length := by
  induction kept with
  | nil => rfl
  | symbol s _ ih => rw [List.length_cons, List.length_cons, ih]
  | name _ _ _ ih => rw [List.length_cons, List.length_cons, ih]

theorem symbol_at (kept : Kept ss ms a b) {i : Nat} {s : Symbol}
    (stands : ss[i]? = some (.symbol s)) : ms[i]? = some s.relation.operator := by
  induction kept generalizing i with
  | nil => simp at stands
  | symbol t _ ih =>
    cases i with
    | zero =>
      obtain rfl := by simpa using stands
      rfl
    | succ i => exact ih (by simpa using stands)
  | name _ _ _ ih =>
    cases i with
    | zero => simp at stands
    | succ i => exact ih (by simpa using stands)

theorem name_at (kept : Kept ss ms a b) {i : Nat} {n : Text} (stands : ss[i]? = some (.name n)) :
    ∃ p m q, ms[i]? = some m ∧ n = p ++ m ++ q ∧ (∀ c ∈ p, c = '(' ∨ Text.isBlank c = true) ∧
      ∀ c ∈ q, c = ')' ∨ Text.isBlank c = true := by
  induction kept generalizing i with
  | nil => simp at stands
  | symbol s _ ih =>
    cases i with
    | zero => simp at stands
    | succ i => exact ih (by simpa using stands)
  | @name p m q opening closing _ _ _ _ _ ih =>
    cases i with
    | zero =>
      obtain rfl := by simpa using stands
      exact ⟨p, m, q, rfl, by simp, opening, closing⟩
    | succ i => exact ih (by simpa using stands)

theorem append (front : Kept ss ms a b) (back : Kept ts ns c d) :
    Kept (ss ++ ts) (ms ++ ns) (a + c) (b + d) := by
  induction front with
  | nil => simpa using back
  | symbol s _ ih => exact .symbol s ih
  | name opening closing _ ih =>
    rw [Nat.add_assoc, Nat.add_assoc]
    exact .name opening closing ih

theorem exists_append (kept : Kept (ss ++ ts) ms a b) :
    ∃ ks ls a₁ b₁ a₂ b₂, ms = ks ++ ls ∧ a = a₁ + a₂ ∧ b = b₁ + b₂ ∧
      Kept ss ks a₁ b₁ ∧ Kept ts ls a₂ b₂ := by
  induction ss generalizing ms a b with
  | nil => exact ⟨[], ms, 0, 0, a, b, rfl, by omega, by omega, .nil, kept⟩
  | cons x ss ih =>
    rw [List.cons_append] at kept
    cases kept with
    | symbol s rest =>
      obtain ⟨ks, ls, a₁, b₁, a₂, b₂, rfl, rfl, rfl, front, back⟩ := ih rest
      exact ⟨_ :: ks, ls, a₁, b₁, a₂, b₂, rfl, rfl, rfl, .symbol s front, back⟩
    | name opening closing rest =>
      obtain ⟨ks, ls, a₁, b₁, a₂, b₂, rfl, rfl, rfl, front, back⟩ := ih rest
      refine ⟨_ :: ks, ls, _, _, a₂, b₂, rfl, ?_, ?_, .name opening closing front, back⟩
      · omega
      · omega

/-! ### Parentheses -/

/-- A name may lose one parenthesis more in front. -/
theorem opened {n m : Text} (outer : n = m ∨ n = ' ' :: m) (kept : Kept (.name m :: ss) ms a b) :
    Kept (.name ('(' :: n) :: ss) ms (a + 1) b := by
  cases kept with
  | @name p k q opening closing _ _ x y rest =>
    obtain ⟨p', written, count, characters⟩ : ∃ p' : Text, '(' :: n = p' ++ k ++ q ∧
        p'.count '(' = p.count '(' + 1 ∧ ∀ c ∈ p', c = '(' ∨ Text.isBlank c = true := by
      rcases outer with rfl | rfl
      · exact ⟨'(' :: p, rfl, by simp, by simpa using opening⟩
      · refine ⟨'(' :: ' ' :: p, rfl, by simp, ?_⟩
        intro c member
        rcases List.mem_cons.mp member with rfl | member
        · exact .inl rfl
        · rcases List.mem_cons.mp member with rfl | member
          · exact .inr Text.isBlank_space
          · exact opening c member
    rw [written, show p.count '(' + x + 1 = p'.count '(' + x by omega]
    exact .name characters closing rest

/-- A name may lose one parenthesis more at its end. -/
theorem closed {n m : Text} (outer : n = m ∨ n = m ++ [' ']) (kept : Kept [.name m] ms a b) :
    Kept [.name (n ++ [')'])] ms a (b + 1) := by
  cases kept with
  | @name p k q opening closing _ _ x y rest =>
    obtain ⟨q', written, count, characters⟩ : ∃ q' : Text, n ++ [')'] = p ++ k ++ q' ∧
        q'.count ')' = q.count ')' + 1 ∧ ∀ c ∈ q', c = ')' ∨ Text.isBlank c = true := by
      rcases outer with rfl | rfl
      · refine ⟨q ++ [')'], by simp, by simp, ?_⟩
        intro c member
        rcases List.mem_append.mp member with member | member
        · exact closing c member
        · exact .inl (List.mem_singleton.mp member)
      · refine ⟨q ++ [' ', ')'], by simp, by simp, ?_⟩
        intro c member
        rcases List.mem_append.mp member with member | member
        · exact closing c member
        · rcases List.mem_pair.mp member with rfl | rfl
          · exact .inr Text.isBlank_space
          · exact .inl rfl
    rw [written, show q.count ')' + y + 1 = q'.count ')' + y by omega]
    exact .name opening characters rest

/-- A group loses one parenthesis on each side more than its inside. -/
theorem enclosed {g inner : List Segment} (encloses : Group.Encloses g inner)
    (kept : Kept inner ms a b) : Kept g ms (a + 1) (b + 1) := by
  obtain @⟨n, x, m, y, middle, opening, closing⟩ := encloses
  -- the first name loses the opening parenthesis, and the last one the closing parenthesis
  rw [← List.cons_append] at kept ⊢
  obtain ⟨ks, ls, a₁, b₁, a₂, b₂, rfl, rfl, rfl, front, back⟩ := exists_append kept
  rw [show a₁ + a₂ + 1 = a₁ + 1 + a₂ by omega, show b₁ + b₂ + 1 = b₁ + (b₂ + 1) by omega]
  exact (front.opened opening).append (back.closed closing)

/-! ### Levels -/

theorem joined {α : Type} {f : α → List Segment} {g : α → List Text} (s : Symbol) {xs : List α}
    (each : ∀ x ∈ xs, ∃ k, Kept (f x) (g x) k k) :
    ∃ k, Kept (Segment.joined s (xs.map f)) ([s.relation.operator].intercalate (xs.map g)) k k := by
  induction xs with
  | nil => exact ⟨0, .nil⟩
  | cons x xs ih =>
    obtain ⟨k, first⟩ := each x List.mem_cons_self
    cases xs with
    | nil =>
      refine ⟨k, ?_⟩
      simpa [Segment.joined_singleton, List.intercalate] using first
    | cons y ys =>
      obtain ⟨l, rest⟩ := ih fun z member => each z (List.mem_cons_of_mem _ member)
      refine ⟨k + l, ?_⟩
      have kept := first.append (rest.symbol s)
      simpa [Segment.joined_cons_cons, List.intercalate] using kept

end Kept

theorem Reads.kept {ss : List Segment} {t : Tree} (reads : Reads ss t) :
    ∃ k, Kept ss t.tokens k k := by
  induction reads with
  | @name n _ => exact ⟨0, .whole n⟩
  | @chain r ns _ _ =>
    have kept : ∃ k, Kept (Segment.joined (.operator r) (ns.map fun n => [.name n]))
        ([r.operator].intercalate (ns.map fun n => [n])) k k :=
      Kept.joined (.operator r) fun n _ => ⟨0, .whole n⟩
    have tokens : Tree.tokens (.chain r (ns.map .leaf)) =
        [r.operator].intercalate (ns.map fun n => [n]) := by
      rw [Tree.tokens_chain, List.map_map]
      rfl
    rw [tokens]
    exact kept
  | enclosed _ group _ ih =>
    obtain ⟨k, kept⟩ := ih
    exact ⟨k + 1, kept.enclosed group.encloses⟩
  | @sequence r os operands _ _ _ ih =>
    have each : ∀ o ∈ os, ∃ k, Kept o.segments o.tree.tokens k k := by
      rintro (n | ⟨g, t⟩) member
      · exact ⟨0, .whole n⟩
      · have group : Group.IsGroup g := operands _ member
        obtain ⟨k, kept⟩ := ih g t member
        exact ⟨k + 1, kept.enclosed group.encloses⟩
    have kept := Kept.joined (.operator r) each
    rw [Tree.tokens, Tree.elementsTokens_joined, List.map_map]
    exact kept

/-! ### Parsed expressions -/

theorem Tree.tokens_pairUp (t : Tree) : (pairUp t).tokens = t.tokens := by
  unfold pairUp
  split
  · simp [tokens, operandsTokens]
  · rfl

theorem Tree.kept_of_parse {text : Text} {t : Tree} {s : Symbol}
    (symbol : .symbol s ∈ tokenize text) (read : parse text = .ok t) :
    ∃ k, Kept (tokenize text) t.flat k k := by
  rw [flat_eq_tokens]
  rcases Expression.parse_cases symbol read with ⟨-, reads⟩ | ⟨d, ps, divides, rfl⟩
  · exact reads.kept
  · have each : ∀ p ∈ ps, ∃ k, Kept p.1 (pairUp p.2).tokens k k := by
      intro p member
      obtain ⟨k, kept⟩ := (divides.reads p member).kept
      exact ⟨k, (tokens_pairUp p.2).symm ▸ kept⟩
    have kept := Kept.joined (.divider d) each
    rw [divides.joined, tokens, elementsTokens_joined, List.map_map]
    exact kept

theorem Segment.tokenize_ne_nil {text : Text} (solid : ∃ c ∈ text, Text.isBlank c = false) :
    tokenize text ≠ [] := by
  intro empty
  obtain ⟨c, member, solid⟩ := solid
  simp [tokenize_eq_nil_iff.mp empty c member] at solid

/-- Parsing loses, invents and reorders nothing: every segment becomes one token in its place, and
as many opening parentheses are lost at the names as closing ones. -/
theorem Tree.parse_keeps (text : Text) :
    (∀ t s, .symbol s ∈ tokenize text → parse text = .ok t →
      t.flat.length = (tokenize text).length ∧
      (∀ (i : Nat) (q : Symbol), (tokenize text)[i]? = some (.symbol q) →
        t.flat[i]? = some q.relation.operator) ∧
      (∀ (i : Nat) (n : Text), (tokenize text)[i]? = some (.name n) → ∃ p m q, t.flat[i]? = some m ∧
        n = p ++ m ++ q ∧ (∀ c ∈ p, c = '(' ∨ Text.isBlank c = true) ∧
          ∀ c ∈ q, c = ')' ∨ Text.isBlank c = true) ∧
      ∃ k, Kept (tokenize text) t.flat k k) ∧
    ((∃ c ∈ text, Text.isBlank c = false) → (∀ s, .symbol s ∉ tokenize text) →
      ∃ t, parse text = .ok t ∧ t.flat = [text]) := by
  constructor
  · intro t s symbol read
    obtain ⟨k, kept⟩ := kept_of_parse symbol read
    exact ⟨kept.length_eq, fun _ _ => kept.symbol_at, fun _ _ => kept.name_at, k, kept⟩
  · intro solid names
    refine ⟨.leaf text, ?_, ?_⟩
    · exact (Expression.parse_eq_ok_iff_of_names names).mpr ⟨Segment.tokenize_ne_nil solid, rfl⟩
    · rw [flat_eq_tokens, tokens]

theorem Tree.parse_keeps_groups :
    parse "( (A | B) ) > C".toList = .ok (.sequence [.tree (.chain .blend
      [.leaf "(A".toList, .leaf "B)".toList]), .symbol .derive, .tree (.leaf "C".toList)]) ∧
    (∃ k, Kept (tokenize "( (A | B) ) > C".toList) (flat (.sequence [.tree (.chain .blend
      [.leaf "(A".toList, .leaf "B)".toList]), .symbol .derive, .tree (.leaf "C".toList)])) k k) ∧
    ∃ t, parse " Drum & Bass ".toList = .ok t ∧ t.flat = [" Drum & Bass ".toList] := by
  have run : Group.IsRun (tokenize "( (A | B) )".toList) :=
    ⟨⟨.name "( (A".toList, [.symbol (.operator .blend)], .name "B) )".toList, by decide, rfl, rfl⟩,
      ⟨by decide, by decide, trivial⟩, by decide⟩
  have spans : Group.spans 0 (tokenize "( (A | B) ) > C".toList) = .ok [⟨0, 3⟩] :=
    @Group.IsRun.spans _ [.symbol (.operator .derive), .name "C".toList] run 0 []
      (by simp [Group.spans, Group.opens])
  have read : parse "( (A | B) ) > C".toList = .ok (.sequence [.tree (.chain .blend
      [.leaf "(A".toList, .leaf "B)".toList]), .symbol .derive, .tree (.leaf "C".toList)]) :=
    Expression.parse_of_spans [⟨0, 3⟩]
      [.chain .blend [.leaf "(A".toList, .leaf "B)".toList]] (by decide) (by rfl)
      (by decide) spans (by cbv) (by rfl)
  refine ⟨read, ?_, ?_⟩
  · exact ((parse_keeps _).1 _ (.operator .blend) (by decide) read).2.2.2
  · exact (parse_keeps _).2 ⟨'D', by decide, by decide⟩
      (fun s => by rcases s with r | r <;> cases r <;> decide)

end GenreRelations
