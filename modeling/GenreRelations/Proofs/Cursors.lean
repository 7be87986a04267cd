import GenreRelations.Tree.Walk

/-!
Walks as cursors. However deep in the tree a walk is suspended, all that it has before it is a
suffix of the tokens of the tree, so it stands for a place in them. `WalkSession.ask_cursors` is
what one request does to the places, and `WalkSession.answers_eq_cursors` says that a session
answers as places in the list of tokens do.
-/

namespace GenreRelations

open WalkSession (Request Answer)

/-- Places in a list of tokens, numbered from zero in the order in which they were made. -/
structure Cursors where
  tokens : List Text
  places : List Nat

namespace Cursors

/-- One place, before the first token. -/
def start (tokens : List Text) : Cursors := ⟨tokens, [0]⟩

/-- The other places stay where they are. -/
def moveTo (c : Cursors) (i place : Nat) : Cursors := { c with places := c.places.set i place }

/-- Asks about place `i`; there is no answer if it does not exist. -/
def ask (c : Cursors) (i : Nat) (q : Request) : Option (Answer × Cursors) :=
  c.places[i]?.map fun place =>
    match q with
    | .next =>
      match c.tokens[place]? with
      | none => (.token none, c)
      | some token => (.token (some token), c.moveTo i (place + 1))
    | .fork => (.forked c.places.length, { c with places := c.places ++ [place] })
    | .restart => (.restarted, c.moveTo i 0)
    | .rest => (.tokens (c.tokens.drop place), c.moveTo i c.tokens.length)
    | .count => (.count (c.tokens.length - place), c)

theorem moveTo_self {c : Cursors} {i place : Nat} (stands : c.places[i]? = some place) :
    c.moveTo i place = c := by
  obtain ⟨tokens, places⟩ := c
  obtain ⟨inside, rfl⟩ := List.getElem?_eq_some_iff.mp stands
  rw [moveTo, List.set_getElem_self]

/-- The answers to a list of requests, each with the number of the place that it is about. -/
def answers (c : Cursors) : List (Nat × Request) → Option (List Answer)
  | [] => some []
  | (i, q) :: qs => do
    let (a, c') ← c.ask i q
    return a :: (← c'.answers qs)

end Cursors

namespace WalkSession

variable {s s' : WalkSession} {i j : Nat} {q : Request} {a : Answer}

/-- Every walk has before it what the tree has behind some place. -/
def Within (s : WalkSession) : Prop := ∀ w ∈ s.walks, w.tokens <:+ s.tree.tokens

/-- The number of tokens that the walk has behind it. -/
def placeOf (s : WalkSession) (w : Walk) : Nat := s.tree.tokens.length - w.tokens.length

/-- The places at which the walks stand. -/
def cursors (s : WalkSession) : Cursors := ⟨s.tree.tokens, s.walks.map s.placeOf⟩

/-- Every request is to a walk that exists by then, if there are `n` walks at first. -/
def Exist (n : Nat) : List (Nat × Request) → Prop
  | [] => True
  | (i, q) :: qs => i < n ∧ Exist (if q = .fork then n + 1 else n) qs

/-! ### Places -/

theorem drop_placeOf {w : Walk} (suffix : w.tokens <:+ s.tree.tokens) :
    s.tree.tokens.drop (s.placeOf w) = w.tokens := by
  obtain ⟨front, parts⟩ := suffix
  have length : s.placeOf w = front.length := by
    rw [placeOf, ← parts, List.length_append]
    omega
  rw [length, ← parts, List.drop_left]

theorem placeOf_of_next {w v : Walk} {token : Text} (suffix : w.tokens <:+ s.tree.tokens)
    (next : w.next = some (token, v)) : s.placeOf v = s.placeOf w + 1 := by
  have length := suffix.length_le
  rw [Walk.tokens_eq_cons_of_next next, List.length_cons] at length
  rw [placeOf, placeOf, Walk.tokens_eq_cons_of_next next, List.length_cons]
  omega

theorem placeOf_start : s.placeOf (Walk.start s.tree) = 0 := by
  simp [placeOf, Walk.start, Walk.tokens]

theorem placeOf_end : s.placeOf [] = s.tree.tokens.length := rfl

theorem getElem?_placeOf {w : Walk} (suffix : w.tokens <:+ s.tree.tokens) :
    s.tree.tokens[s.placeOf w]? = w.next.map Prod.fst := by
  have here : s.tree.tokens[s.placeOf w]? = w.tokens.head? := by
    rw [← drop_placeOf suffix, List.head?_drop]
  rw [here]
  cases next : w.next with
  | none => rw [Walk.tokens_eq_nil_of_next next]; rfl
  | some step =>
    obtain ⟨token, v⟩ := step
    rw [Walk.tokens_eq_cons_of_next next]
    rfl

/-! ### One request -/

theorem cursors_set (i : Nat) (w : Walk) :
    cursors { s with walks := s.walks.set i w } = s.cursors.moveTo i (s.placeOf w) := by
  rw [cursors, cursors, Cursors.moveTo, List.map_set]
  rfl

theorem cursors_append (w : Walk) :
    cursors { s with walks := s.walks ++ [w] } =
      { s.cursors with places := s.cursors.places ++ [s.placeOf w] } := by
  simp only [cursors, List.map_append, List.map_cons, List.map_nil]
  rfl

/-- A request moves the places as it moves the walks. -/
theorem ask_cursors (within : s.Within) (i : Nat) (q : Request) :
    s.cursors.ask i q = (s.ask i q).map fun step => (step.1, step.2.cursors) := by
  have place : s.cursors.places[i]? = s.walks[i]?.map s.placeOf := List.getElem?_map
  rw [ask, Cursors.ask, place]
  cases stands : s.walks[i]? with
  | none => rfl
  | some w =>
    have suffix := within w (List.mem_of_getElem? stands)
    have length : s.cursors.places.length = s.walks.length := List.length_map _
    simp only [Option.map_some, Option.some.injEq]
    cases q with
    | next =>
      have token := getElem?_placeOf suffix
      simp only
      cases next : w.next with
      | none =>
        -- the walk drops what is left to visit, but has no token before it as it is
        have stays : s.placeOf [] = s.placeOf w := by
          rw [placeOf, placeOf, Walk.tokens_eq_nil_of_next next]
          rfl
        have unmoved : s.cursors.moveTo i (s.placeOf w) = s.cursors :=
          Cursors.moveTo_self (by rw [place, stands, Option.map_some])
        have absent : s.cursors.tokens[s.placeOf w]? = none := by rw [next] at token; exact token
        rw [absent, cursors_set, stays, unmoved]
      | some step =>
        obtain ⟨t, v⟩ := step
        have present : s.cursors.tokens[s.placeOf w]? = some t := by rw [next] at token; exact token
        rw [present, cursors_set, placeOf_of_next suffix next]
    | fork => rw [length, cursors_append]
    | restart => rw [cursors_set, placeOf_start]
    | rest =>
      simp only
      rw [cursors_set, placeOf_end, Walk.remaining_eq_tokens, ← drop_placeOf suffix]
      rfl
    | count =>
      simp only
      rw [Walk.remaining_eq_tokens, ← drop_placeOf suffix, List.length_drop]
      rfl

/-- What a request does: a fork adds a walk, and any other request replaces the one it is to. -/
theorem walks_of_ask (asked : s.ask i q = some (a, s')) :
    s'.tree = s.tree ∧ ∃ w, s.walks[i]? = some w ∧
      ((q = .fork ∧ s'.walks = s.walks ++ [w]) ∨
        (q ≠ .fork ∧ ∃ v : Walk, (v.tokens <:+ w.tokens ∨ v = Walk.start s.tree) ∧
          s'.walks = s.walks.set i v)) := by
  obtain ⟨w, stands, step⟩ := Option.map_eq_some_iff.mp asked
  cases q with
  | next =>
    simp only at step
    cases next : w.next with
    | none =>
      rw [next] at step
      obtain ⟨-, rfl⟩ := Prod.mk.inj step
      exact ⟨rfl, w, stands, .inr ⟨by simp, [], .inl List.nil_suffix, rfl⟩⟩
    | some moved =>
      obtain ⟨t, v⟩ := moved
      rw [next] at step
      obtain ⟨-, rfl⟩ := Prod.mk.inj step
      have later : v.tokens <:+ w.tokens := Walk.tokens_eq_cons_of_next next ▸ List.suffix_cons _ _
      exact ⟨rfl, w, stands, .inr ⟨by simp, v, .inl later, rfl⟩⟩
  | fork =>
    obtain ⟨-, rfl⟩ := Prod.mk.inj step
    exact ⟨rfl, w, stands, .inl ⟨rfl, rfl⟩⟩
  | restart =>
    obtain ⟨-, rfl⟩ := Prod.mk.inj step
    exact ⟨rfl, w, stands, .inr ⟨by simp, Walk.start s.tree, .inr rfl, rfl⟩⟩
  | rest =>
    obtain ⟨-, rfl⟩ := Prod.mk.inj step
    exact ⟨rfl, w, stands, .inr ⟨by simp, [], .inl List.nil_suffix, rfl⟩⟩
  | count =>
    obtain ⟨-, rfl⟩ := Prod.mk.inj step
    obtain ⟨inside, here⟩ := List.getElem?_eq_some_iff.mp stands
    refine ⟨rfl, w, stands, .inr ⟨by simp, w, .inl (List.suffix_refl _), ?_⟩⟩
    rw [← here, List.set_getElem_self]

theorem Within.ask (within : s.Within) (asked : s.ask i q = some (a, s')) : s'.Within := by
  obtain ⟨tree, w, stands, ⟨-, walks⟩ | ⟨-, v, moved, walks⟩⟩ := walks_of_ask asked
  all_goals
    have suffix := within w (List.mem_of_getElem? stands)
    intro u member
    rw [tree]
    rw [walks] at member
  · rcases List.mem_append.mp member with member | member
    · exact within u member
    · exact List.mem_singleton.mp member ▸ suffix
  · rcases List.mem_or_eq_of_mem_set member with member | rfl
    · exact within u member
    · rcases moved with later | rfl
      · exact later.trans suffix
      · simp [Walk.start, Walk.tokens]

theorem length_of_ask (asked : s.ask i q = some (a, s')) :
    s'.walks.length = if q = .fork then s.walks.length + 1 else s.walks.length := by
  obtain ⟨-, w, -, ⟨rfl, walks⟩ | ⟨other, v, -, walks⟩⟩ := walks_of_ask asked
  · rw [walks, List.length_append, if_pos rfl, List.length_singleton]
  · rw [walks, List.length_set, if_neg other]

/-- The other walks stay where they are. -/
theorem getElem?_of_ask (asked : s.ask i q = some (a, s')) (other : j ≠ i)
    (exist : j < s.walks.length) : s'.walks[j]? = s.walks[j]? := by
  obtain ⟨-, w, -, ⟨-, walks⟩ | ⟨-, v, -, walks⟩⟩ := walks_of_ask asked
  · rw [walks, List.getElem?_append_left exist]
  · rw [walks, List.getElem?_set_ne other.symm]

theorem exists_ask_iff : (∃ step, s.ask i q = some step) ↔ i < s.walks.length := by
  rw [ask]
  cases stands : s.walks[i]? with
  | none =>
    have beyond := List.getElem?_eq_none_iff.mp stands
    simpa using beyond
  | some w =>
    obtain ⟨inside, -⟩ := List.getElem?_eq_some_iff.mp stands
    exact ⟨fun _ => inside, fun _ => ⟨_, rfl⟩⟩

/-! ### Many requests -/

theorem within_start (t : Tree) : (start t).Within := by
  intro w member
  obtain rfl : w = Walk.start t := by simpa [start] using member
  simp [Walk.start, Walk.tokens, start]

theorem cursors_start (t : Tree) : (start t).cursors = Cursors.start t.tokens := by
  simp [cursors, start, Cursors.start, placeOf, Walk.start, Walk.tokens]

theorem answers_cursors (within : s.Within) (qs : List (Nat × Request)) :
    s.answers qs = s.cursors.answers qs := by
  induction qs generalizing s with
  | nil => rfl
  | cons r qs ih =>
    obtain ⟨i, q⟩ := r
    have same := ask_cursors within i q
    rw [answers, Cursors.answers, same]
    cases asked : s.ask i q with
    | none => rfl
    | some step =>
      obtain ⟨a, s'⟩ := step
      have later := ih (within.ask asked)
      simp only [Option.map_some, Option.bind_eq_bind, Option.bind_some, later]

theorem exists_answers_iff (qs : List (Nat × Request)) :
    (∃ as, s.answers qs = some as) ↔ Exist s.walks.length qs := by
  induction qs generalizing s with
  | nil => exact ⟨fun _ => trivial, fun _ => ⟨[], rfl⟩⟩
  | cons r qs ih =>
    obtain ⟨i, q⟩ := r
    rw [answers, Exist, ← exists_ask_iff (q := q)]
    cases asked : s.ask i q with
    | none => simp
    | some step =>
      obtain ⟨a, s'⟩ := step
      have later := @ih s'
      rw [length_of_ask asked] at later
      rw [← later]
      cases answered : s'.answers qs <;> simp [answered]

/-- Walks over one tree answer as places in the list of its tokens do. Every request to a walk that
exists is answered, and none moves another walk. -/
theorem answers_eq_cursors (t : Tree) (qs : List (Nat × Request)) :
    (start t).answers qs = (Cursors.start t.tokens).answers qs ∧
    ((∃ as, (start t).answers qs = some as) ↔ Exist 1 qs) ∧
    ∀ (s s' : WalkSession) (i : Nat) (q : Request) (a : Answer), s.ask i q = some (a, s') →
      ∀ j, j ≠ i → j < s.walks.length → s'.walks[j]? = s.walks[j]? := by
  refine ⟨?_, exists_answers_iff qs, fun s s' i q a asked j => getElem?_of_ask asked⟩
  rw [answers_cursors (within_start t), cursors_start]

theorem answers_eq_cursors_forked :
    (start (.sequence [.tree (.chain .blend [.leaf ['A'], .pair (.leaf ['B']) .derive (.leaf ['C'])]),
      .tree (.chain .fuse []), .symbol .fuse])).answers
        [(0, .next), (0, .fork), (0, .rest), (0, .next), (1, .next), (1, .count), (0, .restart),
          (0, .next), (1, .next)] =
      some [.token (some ['A']), .forked 1, .tokens [['|'], ['B'], ['>'], ['C'], ['~']], .token none,
        .token (some ['|']), .count 4, .restarted, .token (some ['A']), .token (some ['B'])] ∧
    (WalkSession.mk (.leaf ['A']) [[], Walk.start (.leaf ['A'])]).ask 0 .restart = some (.restarted,
      ⟨.leaf ['A'], [Walk.start (.leaf ['A']), Walk.start (.leaf ['A'])]⟩) ∧
    [Walk.start (.leaf ['A']), Walk.start (.leaf ['A'])][1]? =
      [[], Walk.start (.leaf ['A'])][1]? := by
  have asked : (WalkSession.mk (.leaf ['A']) [[], Walk.start (.leaf ['A'])]).ask 0 .restart =
      some (.restarted, ⟨.leaf ['A'], [Walk.start (.leaf ['A']), Walk.start (.leaf ['A'])]⟩) := rfl
  refine ⟨?_, asked, ?_⟩
  · exact (answers_eq_cursors _ _).1.trans (by decide)
  · exact (answers_eq_cursors (.leaf ['A']) []).2.2 _ _ _ _ _ asked 1 (by decide) (by decide)

end WalkSession

end GenreRelations
