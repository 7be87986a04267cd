import GenreRelations.Level

/-!
The store of a level as a plain list of slots. `Level.Holds l xs` says that the keys of the level
lead to the slots `xs`, once each, and that nothing else is stored. Pushing appends to that list,
and `Level.Holds.splice` says that splicing replaces a part of it. `Level.run_refines` is what this
comes to for any number of splices, whatever the storage.
-/

namespace GenreRelations

namespace Arena

variable {α : Type}

theorem find?_fresh (a : Arena α) : a.find? a.fresh = none := by
  have unused : a.entries.find? (fun e => e.1 == a.fresh) = none := by
    apply List.find?_eq_none.mpr
    intro e member
    have older := a.below e member
    simpa using Nat.ne_of_lt older
  simp [find?, unused]

theorem find?_insert_self (a : Arena α) (x : α) : (a.insert x).2.find? a.fresh = some x := by
  simp [insert, find?]

theorem find?_insert_of_ne (a : Arena α) (x : α) {k : Nat} (h : k ≠ a.fresh) :
    (a.insert x).2.find? k = a.find? k := by
  have other : (a.fresh == k) = false := by simpa using h.symm
  simp [insert, find?, other]

theorem find?_remove_self (a : Arena α) (k : Nat) : (a.remove k).2.find? k = none := by
  have gone : (a.entries.filter fun e => e.1 != k).find? (fun e => e.1 == k) = none := by
    apply List.find?_eq_none.mpr
    intro e member
    simpa using (List.mem_filter.mp member).2
  simp [remove, find?, gone]

theorem find?_remove_of_ne (a : Arena α) {j k : Nat} (h : k ≠ j) :
    (a.remove j).2.find? k = a.find? k := by
  have kept : (fun e : Nat × α => decide ((e.1 != j) = true ∧ (e.1 == k) = true)) =
      fun e => e.1 == k := by
    funext e
    by_cases same : e.1 = k
    · simp [same, h]
    · simp [same]
  simp only [remove, find?, List.find?_filter, kept]

theorem lawful : (storage : Storage α).Lawful where
  find?_empty _ := rfl
  find?_new a _ := find?_fresh a
  find?_insert_self := find?_insert_self
  find?_insert_of_ne a x _ h := find?_insert_of_ne a x h
  value_remove _ _ := rfl
  find?_remove_self := find?_remove_self
  find?_remove_of_ne a _ _ h := find?_remove_of_ne a h

end Arena

/-! ### Several keys -/

namespace Storage.Lawful

variable {α : Type} {A : Storage α} (lawful : A.Lawful)

include lawful

theorem find?_removeAll (a : A.Store) {ks : List A.Key} {k : A.Key} (h : k ∉ ks) :
    A.find? (A.removeAll a ks) k = A.find? a k := by
  induction ks generalizing a with
  | nil => rfl
  | cons j ks ih =>
    obtain ⟨first, rest⟩ := not_or.mp (mt List.mem_cons.mpr h)
    exact (ih _ rest).trans (lawful.find?_remove_of_ne a j k first)

theorem find?_removeAll_of_mem (a : A.Store) {ks : List A.Key} {k : A.Key} (h : k ∈ ks) :
    A.find? (A.removeAll a ks) k = none := by
  induction ks generalizing a with
  | nil => simp at h
  | cons j ks ih =>
    by_cases later : k ∈ ks
    · exact ih _ later
    · obtain rfl := (List.mem_cons.mp h).resolve_right later
      exact (lawful.find?_removeAll _ later).trans (lawful.find?_remove_self a k)

/-- Taking out keys one after the other gives every value, as none of the keys comes twice. -/
theorem drain_eq {a : A.Store} {ks : List A.Key} {xs : List α} (distinct : ks.Nodup)
    (stored : ks.map (A.find? a) = xs.map some) : A.drain a ks = xs := by
  induction ks generalizing a xs with
  | nil =>
    obtain rfl : xs = [] := by simpa using stored
    rfl
  | cons k ks ih =>
    obtain ⟨outside, distinct⟩ := List.nodup_cons.mp distinct
    cases xs with
    | nil => simp at stored
    | cons x xs =>
      obtain ⟨first, rest⟩ := List.cons.inj stored
      have kept : ks.map (A.find? (A.remove a k).2) = xs.map some := by
        rw [← rest]
        apply List.map_congr_left
        intro j member
        exact lawful.find?_remove_of_ne a k j fun same => outside (same ▸ member)
      rw [Storage.drain_cons, lawful.value_remove, first, ih distinct kept]
      rfl

end Storage.Lawful

namespace Level

variable {A : Storage Slot}

/-- The keys of the level lead to the slots `xs`, and no other slot is stored. -/
structure Holds (l : Level A) (xs : List Slot) : Prop where
  stored : l.order.map (A.find? l.store) = xs.map some
  distinct : l.order.Nodup
  listed : ∀ k, A.find? l.store k ≠ none → k ∈ l.order

theorem Holds.length_order {l : Level A} {xs : List Slot} (holds : l.Holds xs) :
    l.order.length = xs.length := by
  simpa using congrArg List.length holds.stored

theorem Holds.mem_order_iff {l : Level A} {xs : List Slot} (holds : l.Holds xs) (k : A.Key) :
    k ∈ l.order ↔ (A.find? l.store k).isSome = true := by
  constructor
  · intro member
    have found : A.find? l.store k ∈ xs.map some := holds.stored ▸ List.mem_map_of_mem member
    obtain ⟨x, -, same⟩ := List.mem_map.mp found
    rw [← same]
    rfl
  · intro live
    exact holds.listed k (Option.isSome_iff_ne_none.mp live)

section

variable (lawful : A.Lawful)

include lawful

theorem Holds.slots {l : Level A} {xs : List Slot} (holds : l.Holds xs) : l.slots = xs :=
  lawful.drain_eq holds.distinct holds.stored

theorem holds_empty : (empty : Level A).Holds [] :=
  ⟨rfl, List.nodup_nil, fun k live => absurd (lawful.find?_empty k) live⟩

/-- A new slot takes the place of the slots under the keys `ks`. -/
theorem Holds.replace {a : A.Store} {ls ks rs : List A.Key} {xs ys zs : List Slot}
    (holds : Holds ⟨a, ls ++ ks ++ rs⟩ (xs ++ ys ++ zs)) (left : ls.length = xs.length)
    (right : rs.length = zs.length) (s : Slot) :
    Holds ⟨(A.insert (A.removeAll a ks) s).2, ls ++ (A.insert (A.removeAll a ks) s).1 :: rs⟩
      (xs ++ s :: zs) := by
  have inUse := fun k member => (holds.mem_order_iff k).mp member
  obtain ⟨stored, distinct, listed⟩ := holds
  simp only [List.map_append, List.append_assoc] at stored
  obtain ⟨first, stored⟩ := List.append_inj stored (by simpa using left)
  obtain ⟨-, last⟩ := List.append_inj' stored (by simpa using right)
  have kept : ∀ k ∈ ls ++ rs, k ∉ ks := by
    intro k member removed
    rw [List.append_assoc, List.nodup_append, List.nodup_append] at distinct
    obtain ⟨-, ⟨-, -, rightApart⟩, leftApart⟩ := distinct
    rcases List.mem_append.mp member with member | member
    · exact leftApart k member k (List.mem_append_left _ removed) rfl
    · exact rightApart k removed k member rfl
  have remaining : ∀ k ∈ ls ++ rs, A.find? (A.removeAll a ks) k = A.find? a k :=
    fun k member => lawful.find?_removeAll a (kept k member)
  have old : ∀ k ∈ ls ++ rs, k ∈ ls ++ ks ++ rs := by
    intro k member
    rcases List.mem_append.mp member with member | member <;> simp [member]
  -- the new key leads to nothing in what remains, so that it is none of the keys that stay
  have outside : (A.insert (A.removeAll a ks) s).1 ∉ ls ++ rs := by
    intro member
    have live := inUse _ (old _ member)
    simp only [← remaining _ member, lawful.find?_new] at live
    simp at live
  have found : ∀ k ∈ ls ++ rs, A.find? (A.insert (A.removeAll a ks) s).2 k = A.find? a k := by
    intro k member
    have other : k ≠ (A.insert (A.removeAll a ks) s).1 := fun same => outside (same ▸ member)
    rw [lawful.find?_insert_of_ne _ _ _ other, remaining k member]
  refine ⟨?_, ?_, ?_⟩
  · have leftFound := List.map_congr_left fun k member => found k (List.mem_append_left rs member)
    have rightFound := List.map_congr_left fun k member => found k (List.mem_append_right ls member)
    simp only [List.map_append, List.map_cons, leftFound, rightFound, first, last,
      lawful.find?_insert_self]
  · have rest : (ls ++ rs).Nodup :=
      distinct.sublist (List.Sublist.append (List.sublist_append_left ls ks) (List.Sublist.refl rs))
    exact List.perm_middle.nodup_iff.mpr (List.nodup_cons.mpr ⟨outside, rest⟩)
  · intro k live
    by_cases new : k = (A.insert (A.removeAll a ks) s).1
    · simp [new]
    · simp only [lawful.find?_insert_of_ne _ _ _ new] at live
      have stays : k ∉ ks := fun removed => live (lawful.find?_removeAll_of_mem a removed)
      rw [lawful.find?_removeAll a stays] at live
      have member := listed k live
      simp only [List.mem_append, List.mem_cons, new, stays, false_or, or_false] at member ⊢
      exact member

theorem Holds.push {l : Level A} {xs : List Slot} (holds : l.Holds xs) (s : Slot) :
    (l.push s).Holds (xs ++ [s]) := by
  have whole : Holds ⟨l.store, l.order ++ [] ++ []⟩ (xs ++ [] ++ []) := by simpa using holds
  exact whole.replace lawful holds.length_order rfl s

theorem holds_ofSegments (ss : List Segment) : (ofSegments ss A).Holds (ss.map .segment) := by
  have grown : ∀ (l : Level A) (xs : List Slot), l.Holds xs →
      (ss.foldl (fun l s => l.push (.segment s)) l).Holds (xs ++ ss.map .segment) := by
    induction ss with
    | nil =>
      intro l xs holds
      simpa using holds
    | cons s ss ih =>
      intro l xs holds
      have more := ih _ _ (holds.push lawful (.segment s))
      simpa using more
  exact grown empty [] (holds_empty lawful)

/-- Splicing puts the group in the place of the slots of the span. -/
theorem Holds.splice {l : Level A} {xs : List Slot} (holds : l.Holds xs) {span : Span}
    (admits : l.Admits span) (t : Tree) :
    (l.splice span t).Holds (xs.take span.start ++ .group t :: xs.drop span.stop) := by
  obtain ⟨ordered, within⟩ := admits
  have parts : ∀ {α : Type} (ys : List α),
      ys.take span.start ++ span.slice ys ++ ys.drop span.stop = ys := by
    intro α ys
    have later : ys.drop span.stop = (ys.drop span.start).drop (span.stop - span.start) := by
      rw [List.drop_drop, Nat.add_sub_cancel' ordered]
    rw [Span.slice, List.append_assoc, later, List.take_append_drop, List.take_append_drop]
  have length := holds.length_order
  have whole : Holds ⟨l.store, l.order.take span.start ++ span.slice l.order ++
      l.order.drop span.stop⟩ (xs.take span.start ++ span.slice xs ++ xs.drop span.stop) := by
    rw [parts, parts]
    exact holds
  exact whole.replace lawful (by simp [length]) (by simp [length]) (.group t)

end

/-! ### Any number of splices -/

/-- The level after a splice; a span that goes beyond the level changes nothing. -/
def step (l : Level A) (p : Span × Tree) : Level A := (l.splice? p.1 p.2).getD l

def run (l : Level A) (steps : List (Span × Tree)) : Level A := steps.foldl step l

end Level

/-- A list of slots with a group in the place of those of a span, if the span lies within it. -/
def Slot.replaced (xs : List Slot) (p : Span × Tree) : List Slot :=
  if p.1.start ≤ p.1.stop ∧ p.1.stop ≤ xs.length then
    xs.take p.1.start ++ .group p.2 :: xs.drop p.1.stop
  else xs

namespace Level

variable {A : Storage Slot}

theorem step_of_admits {l : Level A} {span : Span} (admits : l.Admits span) (t : Tree) :
    l.splice? span t = some (l.step (span, t)) ∧ l.step (span, t) = l.splice span t := by
  unfold step splice?
  rw [if_pos admits]
  exact ⟨rfl, rfl⟩

theorem step_of_not_admits {l : Level A} {span : Span} (beyond : ¬ l.Admits span) (t : Tree) :
    l.splice? span t = none ∧ l.step (span, t) = l := by
  unfold step splice?
  rw [if_neg beyond]
  exact ⟨rfl, rfl⟩

theorem Holds.admits_iff {l : Level A} {xs : List Slot} (holds : l.Holds xs) (span : Span) :
    l.Admits span ↔ span.start ≤ span.stop ∧ span.stop ≤ xs.length := by
  rw [Admits, holds.length_order]

theorem Holds.step (lawful : A.Lawful) {l : Level A} {xs : List Slot} (holds : l.Holds xs)
    (p : Span × Tree) : (l.step p).Holds (Slot.replaced xs p) := by
  obtain ⟨span, t⟩ := p
  unfold Slot.replaced
  by_cases admits : l.Admits span
  · rw [if_pos ((holds.admits_iff span).mp admits), (step_of_admits admits t).2]
    exact holds.splice lawful admits t
  · rw [if_neg (mt (holds.admits_iff span).mpr admits), (step_of_not_admits admits t).2]
    exact holds

theorem Holds.run (lawful : A.Lawful) {l : Level A} {xs : List Slot} (holds : l.Holds xs)
    (steps : List (Span × Tree)) : (l.run steps).Holds (steps.foldl Slot.replaced xs) := by
  induction steps generalizing l xs with
  | nil => exact holds
  | cons p steps ih => exact ih (holds.step lawful p)

/-- A level is as good as the plain list of its slots, however often it is spliced: its keys are
those in use, once each, a span within it is replaced by the group, any other changes nothing. -/
theorem run_refines {A : Storage Slot} (lawful : A.Lawful) (text : Text)
    (steps : List (Span × Tree)) :
    let l := (ofSegments (Segment.tokenize text) A).run steps
    l.slots = steps.foldl Slot.replaced ((Segment.tokenize text).map .segment) ∧
    l.order.Nodup ∧
    (∀ k, k ∈ l.order ↔ (A.find? l.store k).isSome = true) ∧
    l.slots.map some = l.order.map (A.find? l.store) ∧
    (∀ span t, span.start ≤ span.stop → span.stop ≤ l.slots.length →
      l.splice? span t = some (l.step (span, t)) ∧
      (l.step (span, t)).slots =
        l.slots.take span.start ++ .group t :: l.slots.drop span.stop ∧
      (l.step (span, t)).slots.length = l.slots.length - (span.stop - span.start) + 1) ∧
    (∀ span t, ¬ (span.start ≤ span.stop ∧ span.stop ≤ l.slots.length) →
      l.splice? span t = none ∧ l.step (span, t) = l) := by
  intro l
  have holds := (holds_ofSegments lawful (Segment.tokenize text)).run lawful steps
  have slots : l.slots = _ := holds.slots lawful
  refine ⟨slots, holds.distinct, holds.mem_order_iff, ?_, ?_, ?_⟩
  · rw [slots]
    exact holds.stored.symm
  · intro span t ordered within
    have admits : l.Admits span := (holds.admits_iff span).mpr ⟨ordered, slots ▸ within⟩
    obtain ⟨accepted, spliced⟩ := step_of_admits admits t
    have after : (l.step (span, t)).slots =
        l.slots.take span.start ++ .group t :: l.slots.drop span.stop := by
      rw [spliced, (holds.splice lawful admits t).slots lawful, slots]
    refine ⟨accepted, after, ?_⟩
    rw [after, List.length_append, List.length_cons, List.length_take, List.length_drop]
    omega
  · intro span t beyond
    exact step_of_not_admits (fun admits => beyond (slots ▸ (holds.admits_iff span).mp admits)) t

theorem run_refines_several :
    let l := (ofSegments (Segment.tokenize "A > (B | C) ~ (D | E)".toList) Arena.storage).run
      [(⟨6, 9⟩, .leaf ['s']), (⟨7, 8⟩, .leaf ['x']), (⟨2, 5⟩, .leaf ['f']), (⟨0, 0⟩, .leaf ['e'])]
    l.slots = [.group (.leaf ['e']), .segment (.name ['A']), .segment (.symbol (.operator .derive)),
      .group (.leaf ['f']), .segment (.symbol (.operator .fuse)), .group (.leaf ['s'])] ∧
    l.order.Nodup ∧ (∀ k, k ∈ l.order ↔ (Arena.find? l.store k).isSome = true) ∧
    (l.step (⟨1, 4⟩, .leaf ['g'])).slots.length = 4 ∧ l.step (⟨5, 7⟩, .leaf ['g']) = l := by
  intro l
  obtain ⟨slots, distinct, live, -, within, beyond⟩ :=
    run_refines Arena.lawful "A > (B | C) ~ (D | E)".toList
      [(⟨6, 9⟩, .leaf ['s']), (⟨7, 8⟩, .leaf ['x']), (⟨2, 5⟩, .leaf ['f']), (⟨0, 0⟩, .leaf ['e'])]
  have six : l.slots.length = 6 := by
    show (Level.slots _).length = 6
    rw [slots]
    rfl
  refine ⟨slots, distinct, live, ?_, ?_⟩
  · have shorter := (within ⟨1, 4⟩ (.leaf ['g']) (by decide) (by rw [six]; decide)).2.2
    rw [shorter, six]
    rfl
  · exact (beyond ⟨5, 7⟩ (.leaf ['g']) (by rw [six]; decide)).2

end Level

end GenreRelations
