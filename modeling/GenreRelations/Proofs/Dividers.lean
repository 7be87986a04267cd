import GenreRelations.Proofs.Parsing

/-!
Expressions with dividers. Such an expression is levels with one divider between neighbours, and
each of them is read by itself: `Expression.parse_cases` says how every expression with a symbol is
read.
-/

namespace GenreRelations

open Segment (Alternating IsLevel tokenize)

namespace Segment

/-- Segments in which every divider is the same are lists without dividers, joined by it. -/
theorem exists_levels {d : Relation} {ss : List Segment}
    (only : ∀ r, .symbol (.divider r) ∈ ss → r = d) :
    ∃ sss : List (List Segment), ss = joined (.divider d) sss ∧ sss ≠ [] ∧
      ∀ part ∈ sss, ∀ s ∈ part, s.isDivider = false := by
  induction ss with
  | nil => exact ⟨[[]], by simp [joined_singleton], by simp, by simp⟩
  | cons s ss ih =>
    obtain ⟨sss, rfl, nonempty, undivided⟩ := ih fun r member => only r (by simp [member])
    obtain ⟨part, rest, rfl⟩ := List.exists_cons_of_ne_nil nonempty
    by_cases divides : s.isDivider = true
    · obtain ⟨r, rfl⟩ : ∃ r, s = .symbol (.divider r) := by
        unfold isDivider at divides
        split at divides
        · exact ⟨_, rfl⟩
        · simp at divides
      obtain rfl := only r List.mem_cons_self
      refine ⟨[] :: part :: rest, ?_, by simp, ?_⟩
      · rw [joined_cons_cons]
        rfl
      · intro p member
        rcases List.mem_cons.mp member with rfl | member
        · simp
        · exact undivided p member
    · have plain : s.isDivider = false := by simpa using divides
      refine ⟨(s :: part) :: rest, ?_, by simp, ?_⟩
      · cases rest with
        | nil => rw [joined_singleton, joined_singleton]
        | cons q rest => rw [joined_cons_cons, joined_cons_cons, List.cons_append]
      · intro p member
        rcases List.mem_cons.mp member with rfl | member
        · intro t isIn
          rcases List.mem_cons.mp isIn with rfl | isIn
          · exact plain
          · exact undivided part List.mem_cons_self t isIn
        · exact undivided p (List.mem_cons_of_mem _ member)

theorem splitOnP_joined {d : Relation} {sss : List (List Segment)} (nonempty : sss ≠ [])
    (undivided : ∀ part ∈ sss, ∀ s ∈ part, s.isDivider = false) :
    (joined (.divider d) sss).splitOnP isDivider = sss := by
  induction sss with
  | nil => exact absurd rfl nonempty
  | cons part sss ih =>
    have first := undivided part List.mem_cons_self
    cases sss with
    | nil => rw [joined_singleton, List.splitOnP_eq_singleton first]
    | cons next rest =>
      have later := ih (by simp) fun p member => undivided p (List.mem_cons_of_mem _ member)
      rw [joined_cons_cons, List.splitOnP_append_cons_of_forall_mem first _ rfl, later]

end Segment

namespace Expression

theorem mem_filterMap_divider? {ss : List Segment} {r : Relation} :
    r ∈ ss.filterMap divider? ↔ .symbol (.divider r) ∈ ss := by
  simp only [List.mem_filterMap, divider?_eq_some_iff, exists_eq_right]

theorem dividerOf_eq_ok_some_iff {text : Text} {ss : List Segment} {d : Relation} :
    dividerOf text ss = .ok (some d) ↔ ∀ r, .symbol (.divider r) ∈ ss ↔ r = d := by
  simp only [← mem_filterMap_divider?]
  unfold dividerOf
  cases ss.filterMap divider? with
  | nil => simp
  | cons r rest =>
    cases other : rest.find? (· ≠ r) with
    | none =>
      have agree : ∀ q ∈ rest, q = r := by simpa [List.find?_eq_none] using other
      simp only [other, Except.ok.injEq, Option.some.injEq]
      constructor
      · rintro rfl q
        refine ⟨fun member => ?_, fun same => same ▸ List.mem_cons_self⟩
        rcases List.mem_cons.mp member with rfl | member
        · rfl
        · exact agree q member
      · intro kind
        exact (kind r).mp List.mem_cons_self
    | some q =>
      have differs : q ≠ r := by simpa using List.find?_some other
      have member : q ∈ rest := List.mem_of_find?_eq_some other
      simp only [other, reduceCtorEq, false_iff]
      intro kind
      have second : q = d := (kind q).mp (List.mem_cons_of_mem _ member)
      have first : r = d := (kind r).mp List.mem_cons_self
      exact differs (second.trans first.symm)

/-- How a level of an expression is read. -/
theorem reads_of_parseLevel_eq_ok {text : Text} {ss : List Segment} {t : Tree}
    (level : IsLevel ss) (read : Tree.parseLevel text ss = .ok t) : Reads ss t := by
  refine reads_of_parseLevel level ?_ read
  intro g u _ group inner
  obtain ⟨s, symbol⟩ := group.inside.alternating.exists_symbol (several_of_isGroup group)
  exact reads_of_parse group.inside.undivided symbol inner

/-- The levels between dividers with their trees. -/
structure Divides (ss : List Segment) (d : Relation) (ps : List (List Segment × Tree)) : Prop where
  joined : ss = Segment.joined (.divider d) (ps.map Prod.fst)
  several : 2 ≤ ps.length
  reads : ∀ p ∈ ps, Reads p.1 p.2

theorem exists_divides {text : Text} {d : Relation} {sss : List (List Segment)} {ts : List Tree}
    (alternating : ∀ ss ∈ sss, Alternating ss)
    (undivided : ∀ ss ∈ sss, ∀ s ∈ ss, s.isDivider = false) (several : 2 ≤ sss.length)
    (trees : sss.mapM (Tree.parseLevel text) = .ok ts) :
    ∃ ps, Divides (Segment.joined (.divider d) sss) d ps ∧ ts = ps.map Prod.snd := by
  have each := mapM_eq_ok_iff.mp trees
  have length : sss.length = ts.length := each.length_eq
  refine ⟨sss.zip ts, ⟨?_, ?_, ?_⟩, ?_⟩
  · rw [List.map_fst_zip (Nat.le_of_eq length)]
  · rw [List.length_zip, ← length, Nat.min_self]
    exact several
  · intro p member
    have isIn : p.1 ∈ sss := (List.of_mem_zip member).1
    have read := (List.forall₂_iff_zip.mp each).2 member
    exact reads_of_parseLevel_eq_ok ⟨alternating _ isIn, undivided _ isIn⟩ read
  · rw [List.map_snd_zip (Nat.le_of_eq length.symm)]

/-- What is parsed with a symbol is one level, or levels with one divider between neighbours. -/
theorem parse_cases {text : Text} {t : Tree} {s : Symbol} (symbol : .symbol s ∈ tokenize text)
    (read : Tree.parse text = .ok t) :
    ((∀ x ∈ tokenize text, x.isDivider = false) ∧ Reads (tokenize text) t) ∨
      ∃ d ps, Divides (tokenize text) d ps ∧
        t = .sequence (joined d (ps.map fun p => pairUp p.2)) := by
  have alternating := alternating_of_parse symbol read
  have parsed := read
  rw [parse_of_symbol symbol,
    (checkPositions_eq_ok_iff (Segment.proper_tokenize text)).mpr alternating] at read
  cases divider : dividerOf text (tokenize text) with
  | error e => simp [divider, bind, Except.bind] at read
  | ok found =>
    cases found with
    | none =>
      have undivided := dividerOf_eq_ok_none_iff.mp divider
      exact .inl ⟨undivided, reads_of_parse undivided symbol parsed⟩
    | some d =>
      have kind := dividerOf_eq_ok_some_iff.mp divider
      have present : .symbol (.divider d) ∈ tokenize text := (kind d).mpr rfl
      obtain ⟨sss, parts, nonempty, undivided⟩ := Segment.exists_levels fun r => (kind r).mp
      -- a single level would be without the divider
      have several : 2 ≤ sss.length := by
        rw [parts] at present
        rcases Segment.mem_joined.mp present with ⟨ss, member, isIn⟩ | ⟨several, -⟩
        · have plain := undivided ss member _ isIn
          simp [Segment.isDivider] at plain
        · exact several
      rw [divider, parts] at read
      simp only [bind, Except.bind, Segment.splitOnP_joined nonempty undivided] at read
      rw [parts, Segment.alternating_joined] at alternating
      cases trees : sss.mapM (Tree.parseLevel text) with
      | error e => simp [trees] at read
      | ok ts =>
        rw [trees] at read
        obtain rfl := Except.ok.inj read
        obtain ⟨ps, divides, rfl⟩ := exists_divides (d := d) alternating.2 undivided several trees
        refine .inr ⟨d, ps, parts ▸ divides, ?_⟩
        rw [List.map_map]
        rfl

/-- What is parsed is one name as it stands, one level, or levels between dividers. -/
theorem parse_forms {text : Text} {t : Tree} (read : Tree.parse text = .ok t) :
    ((∀ s, .symbol s ∉ tokenize text) ∧ tokenize text ≠ [] ∧ t = .leaf text) ∨
      Reads (tokenize text) t ∨
      ∃ d ps, Divides (tokenize text) d ps ∧
        t = .sequence (joined d (ps.map fun p => pairUp p.2)) := by
  by_cases symbols : ∃ s, .symbol s ∈ tokenize text
  · obtain ⟨s, symbol⟩ := symbols
    exact .inr ((parse_cases symbol read).imp_left And.right)
  · have names : ∀ s, .symbol s ∉ tokenize text := fun s symbol => symbols ⟨s, symbol⟩
    exact .inl ⟨names, (parse_eq_ok_iff_of_names names).mp read⟩

end Expression

end GenreRelations
