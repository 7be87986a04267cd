import GenreRelations.Segment
import GenreRelations.Tree.Basic

/-!
One nesting level of an expression while its groups are put in place. The slots are kept in a store
under keys, and the order of the keys is the order of the slots. A level works with every storage
whose new keys are none of those in use; the one at hand never gives out a key twice.
-/

namespace GenreRelations

/-- What stands at one place of a level: a segment as it was read, or a group read to its end. -/
inductive Slot where
  | segment (segment : Segment)
  | group (tree : Tree)

/-- The places from `start` up to, but not including, `stop`. -/
structure Span where
  start : Nat
  stop : Nat
  deriving DecidableEq, Repr

/-- The members of a list at the places of a span. -/
def Span.slice {α : Type} (span : Span) (xs : List α) : List α :=
  (xs.drop span.start).take (span.stop - span.start)

/-! ### Storage -/

/-- A way to keep values: a value that is put into a store gets a key, and stays under it until it
is taken out. What the keys are, and how a store uses its room again, is left open. -/
structure Storage (α : Type) where
  Store : Type
  Key : Type
  empty : Store
  insert : Store → α → Key × Store
  /-- Takes out the value under a key, if there is one. -/
  remove : Store → Key → Option α × Store
  find? : Store → Key → Option α

namespace Storage

variable {α : Type}

/-- What a storage has to keep to: a new key is none of those in use, and a value that is put in or
taken out leaves the others where they are. -/
structure Lawful (A : Storage α) : Prop where
  find?_empty : ∀ k, A.find? A.empty k = none
  find?_new : ∀ a x, A.find? a (A.insert a x).1 = none
  find?_insert_self : ∀ a x, A.find? (A.insert a x).2 (A.insert a x).1 = some x
  find?_insert_of_ne : ∀ a x k, k ≠ (A.insert a x).1 → A.find? (A.insert a x).2 k = A.find? a k
  value_remove : ∀ a k, (A.remove a k).1 = A.find? a k
  find?_remove_self : ∀ a k, A.find? (A.remove a k).2 k = none
  find?_remove_of_ne : ∀ a j k, k ≠ j → A.find? (A.remove a j).2 k = A.find? a k

variable (A : Storage α)

/-- The store without the values under the keys. -/
def removeAll (a : A.Store) (ks : List A.Key) : A.Store := ks.foldl (fun a k => (A.remove a k).2) a

/-- The values under the keys, each taken out at its turn. -/
def drain (a : A.Store) : List A.Key → List α
  | [] => []
  | k :: ks =>
    let (taken, rest) := A.remove a k
    taken.toList ++ drain rest ks

theorem drain_cons (a : A.Store) (k : A.Key) (ks : List A.Key) :
    A.drain a (k :: ks) = (A.remove a k).1.toList ++ A.drain (A.remove a k).2 ks := rfl

end Storage

/-- Values under numbers, of which each is given out once. -/
structure Arena (α : Type) where
  entries : List (Nat × α)
  /-- The next key. -/
  fresh : Nat
  below : ∀ e ∈ entries, e.1 < fresh

namespace Arena

variable {α : Type}

def empty : Arena α := ⟨[], 0, by simp⟩

theorem lt_of_mem_cons {a : Arena α} {x : α} (e : Nat × α) (h : e ∈ (a.fresh, x) :: a.entries) :
    e.1 < a.fresh + 1 := by
  rcases List.mem_cons.mp h with rfl | older
  · exact Nat.lt_succ_self _
  · exact Nat.lt_succ_of_lt (a.below e older)

def insert (a : Arena α) (x : α) : Nat × Arena α :=
  (a.fresh, ⟨(a.fresh, x) :: a.entries, a.fresh + 1, lt_of_mem_cons⟩)

def find? (a : Arena α) (k : Nat) : Option α :=
  (a.entries.find? fun e => e.1 == k).map (·.2)

def remove (a : Arena α) (k : Nat) : Option α × Arena α :=
  (a.find? k, ⟨a.entries.filter fun e => e.1 != k, a.fresh,
    fun e h => a.below e (List.mem_filter.mp h).1⟩)

def storage : Storage α := ⟨Arena α, Nat, empty, insert, remove, find?⟩

end Arena

/-! ### Levels -/

/-- A level: the stored slots, and their keys from left to right. -/
structure Level (A : Storage Slot := Arena.storage) where
  store : A.Store
  order : List A.Key

namespace Level

variable {A : Storage Slot}

def empty : Level A := ⟨A.empty, []⟩

/-- Puts a slot at the end. -/
def push (l : Level A) (s : Slot) : Level A :=
  let (k, store) := A.insert l.store s
  ⟨store, l.order ++ [k]⟩

/-- The level of the segments, each in a slot of its own. -/
def ofSegments (ss : List Segment) (A : Storage Slot := Arena.storage) : Level A :=
  ss.foldl (fun l s => l.push (.segment s)) .empty

/-- Puts a group in the place of the slots of a span; an empty span makes room for it. -/
def splice (l : Level A) (span : Span) (group : Tree) : Level A :=
  let (k, store) := A.insert (A.removeAll l.store (span.slice l.order)) (.group group)
  ⟨store, l.order.take span.start ++ k :: l.order.drop span.stop⟩

/-- The slots from left to right. -/
def slots (l : Level A) : List Slot := A.drain l.store l.order

/-- The span lies within the level. -/
def Admits (l : Level A) (span : Span) : Prop :=
  span.start ≤ span.stop ∧ span.stop ≤ l.order.length

instance (l : Level A) (span : Span) : Decidable (l.Admits span) :=
  inferInstanceAs (Decidable (_ ∧ _))

/-- Puts a group in place if its span lies within the level. -/
def splice? (l : Level A) (span : Span) (group : Tree) : Option (Level A) :=
  if l.Admits span then some (l.splice span group) else none

end Level

end GenreRelations
