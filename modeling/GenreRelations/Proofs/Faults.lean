import GenreRelations.Proofs.Arrays
import GenreRelations.Proofs.Documents

/-!
Which documents are wire forms. A document is an array in which, at every level, only strings and
arrays stand, and no array is empty or a lone operator. Of any other document the first fault is
reported, from left to right and items before the array that holds them: `Tree.ofWire_first_fault`.
-/

namespace GenreRelations

namespace Json

/-! ### Values below a value -/

def items : Json → List Json
  | array vs => vs
  | _ => []

theorem sizeOf_lt_of_mem_items {w v : Json} (member : w ∈ v.items) : sizeOf w < sizeOf v := by
  cases v with
  | array vs =>
    have := List.sizeOf_lt_of_mem (show w ∈ vs from member)
    simp only [array.sizeOf_spec]
    omega
  | _ => simp [items] at member

/-- What carries over from the items of an array to the array holds of all values. -/
@[elab_as_elim]
theorem induction_on_items {motive : Json → Prop} (v : Json)
    (step : ∀ v, (∀ w ∈ v.items, motive w) → motive v) : motive v :=
  step v fun w _ => induction_on_items w step
  termination_by sizeOf v
  decreasing_by exact sizeOf_lt_of_mem_items ‹_›

/-- The first value is the second or stands somewhere in its arrays. -/
inductive Within : Json → Json → Prop
  | refl (v : Json) : Within v v
  | item {u w v : Json} (member : w ∈ v.items) (within : Within u w) : Within u v

theorem forall_within_iff {P : Json → Prop} {v : Json} :
    (∀ u, Within u v → P u) ↔ P v ∧ ∀ w ∈ v.items, ∀ u, Within u w → P u := by
  constructor
  · intro all
    exact ⟨all v (.refl v), fun w member u within => all u (.item member within)⟩
  · rintro ⟨root, below⟩ u (- | ⟨member, within⟩)
    · exact root
    · exact below _ member u within

/-! ### Wire forms -/

/-- A string, or an array that is neither empty nor a lone operator. -/
def Stands : Json → Prop
  | string _ => True
  | array vs => vs ≠ [] ∧ ∀ r : Relation, vs ≠ [.string r.operator]
  | _ => False

/-- The documents that write trees. -/
structure IsWireForm (v : Json) : Prop where
  isArray : ∃ vs, v = .array vs
  stands : ∀ u, Within u v → u.Stands

theorem isNested_of_stands {v : Json} (stands : ∀ u, Within u v → u.Stands) : v.IsNested := by
  induction v using induction_on_items with
  | step v ih =>
    obtain ⟨root, below⟩ := forall_within_iff.mp stands
    cases v with
    | string s => exact .string s
    | array vs => exact .array fun w member => ih w member (below w member)
    | _ => exact absurd root id

mutual

/-- The strings in a value, in document order. -/
def strings : Json → List Text
  | string s => [s]
  | array vs => itemsStrings vs
  | _ => []

def itemsStrings : List Json → List Text
  | [] => []
  | v :: vs => v.strings ++ itemsStrings vs

end

/-! ### Faults -/

/-- What is wrong with an array apart from its items. -/
def ownFaults : List Json → List WireError
  | [] => [.emptyArray]
  | [.string s] => ((Relation.ofOperator? s).map WireError.misplacedSymbol).toList
  | _ => []

mutual

/-- All faults of an item of an array: those of its own items in their order, and then its own. -/
def faults : Json → List WireError
  | string _ => []
  | array vs => itemsFaults vs ++ ownFaults vs
  | v => [.unexpectedValue v]

def itemsFaults : List Json → List WireError
  | [] => []
  | v :: vs => v.faults ++ itemsFaults vs

end

/-- All faults of a document, which has to be an array. -/
def documentFaults : Json → List WireError
  | array vs => (array vs).faults
  | v => [.unexpectedValue v]

theorem ownFaults_eq_nil_iff {vs : List Json} :
    ownFaults vs = [] ↔ vs ≠ [] ∧ ∀ r : Relation, vs ≠ [.string r.operator] := by
  unfold ownFaults
  split
  · simp
  · rename_i s
    simp [Relation.ofOperator?_eq_none_iff]
  · rename_i empty single
    refine iff_of_true rfl ⟨empty, ?_⟩
    rintro r rfl
    exact single _ rfl

theorem itemsFaults_eq_nil_iff {vs : List Json} :
    itemsFaults vs = [] ↔ ∀ v ∈ vs, v.faults = [] := by
  induction vs with
  | nil => simp [itemsFaults]
  | cons v vs ih => simp [itemsFaults, ih]

theorem faults_eq_nil_iff {v : Json} : v.faults = [] ↔ ∀ u, Within u v → u.Stands := by
  induction v using induction_on_items with
  | step v ih =>
    rw [forall_within_iff]
    cases v with
    | string s => simp [faults, Stands, items]
    | array vs =>
      rw [faults, List.append_eq_nil_iff, itemsFaults_eq_nil_iff, ownFaults_eq_nil_iff, and_comm]
      exact and_congr Iff.rfl (forall₂_congr ih)
    | _ => exact iff_of_false (by simp [faults]) fun stands => stands.1

theorem documentFaults_eq_nil_iff {v : Json} : v.documentFaults = [] ↔ v.IsWireForm := by
  cases v with
  | array vs =>
    rw [documentFaults, faults_eq_nil_iff]
    exact ⟨fun stands => ⟨⟨vs, rfl⟩, stands⟩, fun form => form.stands⟩
  | _ =>
    refine iff_of_false (by simp [documentFaults]) ?_
    rintro ⟨⟨vs, same⟩, -⟩
    simp at same

end Json

namespace Tree

open Json

/-- The fault that a reading ends with, if it fails. -/
def fault? {α : Type} : Except WireError α → Option WireError
  | .error e => some e
  | .ok _ => none

theorem fault?_eq_some_iff {α : Type} {x : Except WireError α} {e : WireError} :
    fault? x = some e ↔ x = .error e := by
  cases x with
  | error f => simp [fault?]
  | ok a => simp [fault?]

theorem fault?_eq_none_iff {α : Type} {x : Except WireError α} :
    fault? x = none ↔ ∃ a, x = .ok a := by
  cases x with
  | error f => simp [fault?]
  | ok a => simp [fault?]

theorem fault?_map {α β : Type} (f : α → β) (x : Except WireError α) :
    fault? (f <$> x) = fault? x := by
  cases x <;> rfl

/-- The first fault of two readings, the second of which needs the result of the first. -/
theorem fault?_bind {α β : Type} {x : Except WireError α} {f : α → Except WireError β}
    {es fs : List WireError} (first : fault? x = es.head?)
    (second : ∀ a, x = .ok a → fault? (f a) = fs.head?) : fault? (x >>= f) = (es ++ fs).head? := by
  rw [List.head?_append]
  cases x with
  | error e =>
    rw [← first]
    rfl
  | ok a =>
    rw [← first, ← second a rfl]
    rfl

theorem elementOfJson_array (vs : List Json) :
    elementOfJson (.array vs) = Element.tree <$> ofJson (.array vs) := by
  rw [elementOfJson, ofJson, map_eq_pure_bind, bind_assoc]

theorem ofJson_array_eq_ok {vs : List Json} {t : Tree} :
    ofJson (.array vs) = .ok t ↔ ∃ es, elementsOfJson vs = .ok es ∧ ofElements es = .ok t := by
  rw [ofJson]
  cases elementsOfJson vs with
  | error f => simp [bind, Except.bind]
  | ok es => simp [bind, Except.bind]

theorem elementOfJson_array_eq_ok {vs : List Json} {e : Element} :
    elementOfJson (.array vs) = .ok e ↔ ∃ t, e = .tree t ∧ ofJson (.array vs) = .ok t := by
  rw [elementOfJson_array]
  cases ofJson (.array vs) with
  | error f => simp [Functor.map, Except.map]
  | ok t => simp [Functor.map, Except.map, eq_comm]

theorem elementsOfJson_cons_eq_ok {v : Json} {vs : List Json} {es : List Element} :
    elementsOfJson (v :: vs) = .ok es ↔
      ∃ e fs, es = e :: fs ∧ elementOfJson v = .ok e ∧ elementsOfJson vs = .ok fs := by
  rw [elementsOfJson]
  cases elementOfJson v with
  | error e => simp [bind, Except.bind]
  | ok e =>
    cases elementsOfJson vs with
    | error f => simp [bind, Except.bind]
    | ok fs => simp [bind, Except.bind, pure, Except.pure, eq_comm]

theorem fault?_elementsOfJson {vs : List Json}
    (each : ∀ v ∈ vs, fault? (elementOfJson v) = v.faults.head?) :
    fault? (elementsOfJson vs) = (itemsFaults vs).head? := by
  induction vs with
  | nil => rfl
  | cons v vs ih =>
    rw [elementsOfJson, itemsFaults]
    refine fault?_bind (each v List.mem_cons_self) fun e _ => ?_
    rw [bind_pure_comp, fault?_map]
    exact ih fun w member => each w (List.mem_cons_of_mem _ member)

theorem fault?_ofElements {vs : List Json} {es : List Element} (read : elementsOfJson vs = .ok es) :
    fault? (ofElements es) = (ownFaults vs).head? := by
  match vs with
  | [] =>
    obtain rfl := Except.ok.inj read
    rfl
  | [v] =>
    obtain ⟨e, fs, rfl, first, rest⟩ := elementsOfJson_cons_eq_ok.mp read
    obtain rfl := Except.ok.inj rest
    cases v with
    | string s =>
      unfold elementOfJson at first
      show fault? (ofElements [e]) = ((Relation.ofOperator? s).map _).toList.head?
      split at first
      · rename_i r found
        obtain rfl := Except.ok.inj first
        rw [found]
        rfl
      · rename_i found
        obtain rfl := Except.ok.inj first
        rw [found]
        rfl
    | array us =>
      obtain ⟨t, rfl, -⟩ := elementOfJson_array_eq_ok.mp first
      rfl
    | _ => simp [elementOfJson] at first
  | v :: w :: vs =>
    obtain ⟨e, fs, rfl, -, rest⟩ := elementsOfJson_cons_eq_ok.mp read
    obtain ⟨f, gs, rfl, -, -⟩ := elementsOfJson_cons_eq_ok.mp rest
    have sound : ownFaults (v :: w :: vs) = [] := by cases v <;> rfl
    -- two items or more have no fault of their own
    rw [ofElements_eq_compose (by simp), sound]
    rfl

/-- Reading an item reports its first fault. -/
theorem fault?_elementOfJson (v : Json) : fault? (elementOfJson v) = v.faults.head? := by
  induction v using induction_on_items with
  | step v ih =>
    cases v with
    | string s =>
      unfold elementOfJson
      split <;> rfl
    | array vs =>
      rw [elementOfJson_array, fault?_map, ofJson, faults]
      exact fault?_bind (fault?_elementsOfJson ih) fun es read => fault?_ofElements read
    | _ => rfl

theorem fault?_ofJson (v : Json) : fault? (ofJson v) = v.documentFaults.head? := by
  cases v with
  | array vs =>
    rw [documentFaults, ← fault?_elementOfJson, elementOfJson_array, fault?_map]
  | _ => rfl

theorem exists_ofJson_iff {v : Json} : (∃ t, ofJson v = .ok t) ↔ v.IsWireForm := by
  rw [← fault?_eq_none_iff, fault?_ofJson, List.head?_eq_none_iff, documentFaults_eq_nil_iff]

/-! ### Tokens -/

theorem tokens_elementsOfJson {vs : List Json}
    (each : ∀ v ∈ vs, ∀ e, elementOfJson v = .ok e → elementsTokens [e] = v.strings)
    {es : List Element} (read : elementsOfJson vs = .ok es) :
    elementsTokens es = itemsStrings vs := by
  induction vs generalizing es with
  | nil =>
    obtain rfl := Except.ok.inj read
    rfl
  | cons v vs ih =>
    obtain ⟨e, fs, rfl, first, rest⟩ := elementsOfJson_cons_eq_ok.mp read
    have later := ih (fun w member => each w (List.mem_cons_of_mem _ member)) rest
    rw [itemsStrings, ← each v List.mem_cons_self e first, ← later]
    cases e <;> simp [elementsTokens]

theorem tokens_elementOfJson {v : Json} {e : Element} (read : elementOfJson v = .ok e) :
    elementsTokens [e] = v.strings := by
  induction v using induction_on_items generalizing e with
  | step v ih =>
    cases v with
    | string s =>
      unfold elementOfJson at read
      split at read
      · rename_i r found
        obtain rfl := Except.ok.inj read
        rw [← Relation.operator_of_ofOperator? found]
        rfl
      · obtain rfl := Except.ok.inj read
        rfl
    | array vs =>
      obtain ⟨t, rfl, made⟩ := elementOfJson_array_eq_ok.mp read
      obtain ⟨es, items, made⟩ := ofJson_array_eq_ok.mp made
      rw [elementsTokens, elementsTokens, List.append_nil, tokens_ofElements made, strings]
      exact tokens_elementsOfJson (fun w member e => ih w member) items
    | _ => simp [elementOfJson] at read

theorem flat_of_ofJson {v : Json} {t : Tree} (read : ofJson v = .ok t) : t.flat = v.strings := by
  rw [flat_eq_tokens]
  cases v with
  | array vs =>
    have item : elementOfJson (.array vs) = .ok (.tree t) := by
      rw [elementOfJson_array, read]
      rfl
    simpa [elementsTokens] using tokens_elementOfJson item
  | _ => simp [ofJson] at read

/-! ### Documents -/

theorem ofWire_of_read? {s : Text} {v : Json} (document : Json.read? s = some v) :
    ofWire s = ofJson v := by
  rw [ofWire, document]

theorem ofWire_compact {v : Json} (form : v.IsWireForm) (shallow : v.nesting ≤ 127) :
    ofWire v.compact = ofJson v := by
  refine ofWire_of_read? ?_
  rw [read?_compact (isNested_of_stands form.stands)]
  exact if_pos shallow

/-- Reading accepts the wire forms, keeps their strings in order, and reports the first fault of
every other document. -/
theorem ofWire_first_fault :
    (∀ (s : Text) (v : Json), Json.read? s = some v →
      ((∃ t, ofWire s = .ok t) ↔ v.IsWireForm) ∧
      (∀ t, ofWire s = .ok t → t.flat = v.strings) ∧
      ∀ e, ofWire s = .error e ↔ v.documentFaults.head? = some e) ∧
    ∀ v : Json, v.IsWireForm → v.nesting ≤ 127 → ∃ t, ofWire v.compact = .ok t := by
  constructor
  · intro s v document
    rw [ofWire_of_read? document]
    refine ⟨exists_ofJson_iff, fun t read => flat_of_ofJson read, fun e => ?_⟩
    rw [← fault?_ofJson, fault?_eq_some_iff]
  · intro v form shallow
    rw [ofWire_compact form shallow]
    exact exists_ofJson_iff.mpr form

theorem ofWire_first_fault_null :
    Json.read? "[\"A\",[[],null]]".toList =
      some (.array [.string ['A'], .array [.array [], .null]]) ∧
    ofWire "[\"A\",[[],null]]".toList = .error .emptyArray ∧
    ∃ t, ofWire "[[[\"A\"]],\"|\",\"B\"]".toList = .ok t := by
  have document : Json.read? "[\"A\",[[],null]]".toList =
      some (.array [.string ['A'], .array [.array [], .null]]) := by
    have text : "[\"A\",[[],null]]".toList = ['[', '"', 'A', '"', ',', '[', '[', ']', ',',
        'n', 'u', 'l', 'l', ']', ']'] := by decide
    have tokens : Token.all? "[\"A\",[[],null]]".toList =
        some [.openArray, .string ['A'], .comma, .openArray, .openArray, .closeArray, .comma,
          .scalar .null, .closeArray, .closeArray] := by
      rw [text]
      refine Token.all?_cons rfl rfl ?_
      refine Token.all?_cons rfl (Token.first?_stringText ['A'] _) ?_
      iterate 8 refine Token.all?_cons rfl rfl ?_
      rw [Token.all?]
    rw [Json.read?, tokens]
    rfl
  have form : (Json.array [.array [.array [.string ['A']]], .string ['|'],
      .string ['B']]).IsWireForm := documentFaults_eq_nil_iff.mp rfl
  refine ⟨document, ?_, ?_⟩
  · exact ((ofWire_first_fault.1 _ _ document).2.2 _).mpr rfl
  · exact ofWire_first_fault.2 _ form (by decide)

end Tree

end GenreRelations
