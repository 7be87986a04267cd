import GenreRelations.Json.Read

/-!
Documents of strings in arrays. Such a value is read back from its compact text if it nests no
deeper than the reader goes, and not at all otherwise (`Json.read?_compact`); no document of any
kind holds a value that nests deeper (`Json.nesting_le_of_read?`).
-/

namespace GenreRelations.Json

/-! ### Strings -/

namespace Token

theorem hexValue?_digitChar {n : Nat} (small : n < 16) : hexValue? (Nat.digitChar n) = some n := by
  have each : ∀ n < 16, hexValue? (Nat.digitChar n) = some n := by decide
  exact each n small

theorem codeUnit?_hexByte {n : Nat} (small : n < 256) (r : Text) :
    codeUnit? ('0' :: '0' :: (hexByte n ++ r)) = some (n, r) := by
  have zero : hexValue? '0' = some 0 := by decide
  have high : hexValue? (Nat.digitChar (n / 16)) = some (n / 16) :=
    hexValue?_digitChar (by omega)
  have low : hexValue? (Nat.digitChar (n % 16)) = some (n % 16) := hexValue?_digitChar (by omega)
  simp [hexByte, codeUnit?, zero, high, low]
  omega

theorem escape?_hexByte {c : Char} (control : c.toNat < 0x20) (r : Text) :
    escape? ('u' :: '0' :: '0' :: (hexByte c.toNat ++ r)) = some (c, r) := by
  have unit := codeUnit?_hexByte (show c.toNat < 256 by omega) r
  -- control characters lie far below both halves of a pair of escapes
  have high : isHighSurrogate c.toNat = false := by
    simp only [isHighSurrogate, Bool.and_eq_false_iff, decide_eq_false_iff_not]
    omega
  have low : isLowSurrogate c.toNat = false := by
    simp only [isLowSurrogate, Bool.and_eq_false_iff, decide_eq_false_iff_not]
    omega
  simp only [escape?, unicodeEscape?, unit, Option.bind_eq_bind, Option.bind_some, high, low,
    Bool.false_eq_true, if_false, Char.ofNat_toNat]
  rfl

theorem stringBody?_escape {s t : Text} {c : Char} (escape : escape? s = some (c, t)) :
    stringBody? ('\\' :: s) = (stringBody? t).map fun (cs, u) => (c :: cs, u) := by
  rw [stringBody?]
  split
  · simp_all
  · simp_all

theorem stringBody?_escapeChar (c : Char) (r : Text) :
    stringBody? (escapeChar c ++ r) = (stringBody? r).map fun (cs, u) => (c :: cs, u) := by
  unfold escapeChar
  split
  case h_8 c quote backslash _ _ _ _ _ =>
    split
    · rename_i control
      exact stringBody?_escape (escape?_hexByte control r)
    · rename_i printed
      rw [List.singleton_append, stringBody?]
      · rw [if_neg printed]
      · exact quote
      · exact backslash
  all_goals exact stringBody?_escape rfl

theorem stringBody?_flatMap (s r : Text) :
    stringBody? (s.flatMap escapeChar ++ '"' :: r) = some (s, r) := by
  induction s with
  | nil => rw [List.flatMap_nil, List.nil_append, stringBody?]
  | cons c s ih =>
    rw [List.flatMap_cons, List.append_assoc, stringBody?_escapeChar, ih]
    rfl

theorem first?_stringText (s r : Text) : first? (stringText s ++ r) = some (.string s, r) := by
  have body := stringBody?_flatMap s r
  have text : stringText s ++ r = '"' :: (s.flatMap escapeChar ++ '"' :: r) := by simp [stringText]
  rw [text]
  show (stringBody? (s.flatMap escapeChar ++ '"' :: r)).map _ = _
  rw [body]
  rfl

theorem all?_of_first? {c : Char} {s r : Text} {t : Token} (solid : isSpace c = false)
    (first : first? (c :: s) = some (t, r)) : all? (c :: s) = (all? r).map (t :: ·) := by
  rw [all?, solid]
  simp only [Bool.false_eq_true, if_false]
  split
  · simp_all
  · simp_all

theorem all?_cons {c : Char} {s r : Text} {t : Token} {ts : List Token} (solid : isSpace c = false)
    (first : first? (c :: s) = some (t, r)) (rest : all? r = some ts) :
    all? (c :: s) = some (t :: ts) := by
  rw [all?_of_first? solid first, rest]
  rfl

end Token

/-! ### Tokens -/

/-- Strings in arrays, to any depth. -/
inductive IsNested : Json → Prop
  | string (s : Text) : IsNested (.string s)
  | array {vs : List Json} (items : ∀ v ∈ vs, IsNested v) : IsNested (.array vs)

mutual

/-- The tokens that write strings in arrays. -/
def tokens : Json → List Token
  | string s => [.string s]
  | array [] => [.openArray, .closeArray]
  | array (v :: vs) => .openArray :: v.tokens ++ itemsTokens vs
  | v => [.scalar v]

/-- The tokens of the items after the first, each behind a comma, and of the end of the array. -/
def itemsTokens : List Json → List Token
  | [] => [.closeArray]
  | v :: vs => .comma :: v.tokens ++ itemsTokens vs

end

section

open Token

theorem all?_itemsText {vs : List Json}
    (each : ∀ v ∈ vs, ∀ r, all? (v.compact ++ r) = (all? r).map (v.tokens ++ ·)) (r : Text) :
    all? (itemsText vs ++ r) = (all? r).map (itemsTokens vs ++ ·) := by
  induction vs with
  | nil => exact all?_of_first? (by decide) rfl
  | cons v vs ih =>
    have comma : all? (itemsText (v :: vs) ++ r) =
        (all? (v.compact ++ (itemsText vs ++ r))).map (.comma :: ·) := by
      rw [itemsText, List.cons_append, List.cons_append, List.append_assoc]
      exact all?_of_first? (by decide) rfl
    rw [comma, each v List.mem_cons_self, ih fun w member => each w (List.mem_cons_of_mem _ member),
      Option.map_map, Option.map_map, itemsTokens]
    simp [Function.comp_def]

theorem all?_compact {v : Json} (nested : v.IsNested) (r : Text) :
    all? (v.compact ++ r) = (all? r).map (v.tokens ++ ·) := by
  induction nested generalizing r with
  | string s => exact all?_of_first? (by decide) (first?_stringText s r)
  | @array vs _ ih =>
    cases vs with
    | nil =>
      have close : all? (']' :: r) = (all? r).map (.closeArray :: ·) :=
        all?_of_first? (by decide) rfl
      have enter : all? ('[' :: ']' :: r) = (all? (']' :: r)).map (.openArray :: ·) :=
        all?_of_first? (by decide) rfl
      show all? ('[' :: ']' :: r) = _
      rw [enter, close, Option.map_map, tokens]
      rfl
    | cons v vs =>
      have enter : all? ((array (v :: vs)).compact ++ r) =
          (all? (v.compact ++ (itemsText vs ++ r))).map (.openArray :: ·) := by
        rw [compact, List.cons_append, List.cons_append, List.append_assoc]
        exact all?_of_first? (by decide) rfl
      rw [enter, ih v List.mem_cons_self,
        all?_itemsText fun w member r => ih w (List.mem_cons_of_mem _ member) r,
        Option.map_map, Option.map_map, tokens]
      simp [Function.comp_def]

end

/-! ### Reading back -/

namespace Progress

/-- Wherever the value is due, its tokens complete it, unless it nests too deep there. -/
def Completes (v : Json) : Prop :=
  ∀ stack : List Frame, stack.length ≤ deepest → v.tokens.foldlM step (due .value stack) =
    if stack.length + v.nesting ≤ deepest then complete v stack else none

/-- Behind an item of an array, the tokens of the later items complete the array. -/
def CompletesItems (vs : List Json) (stack : List Frame) : Prop :=
  ∀ us : List Json, (itemsTokens vs).foldlM step (due .separator (.array us :: stack)) =
    if stack.length + (array vs).nesting ≤ deepest then
      complete (.array (us.reverse ++ vs)) stack else none

theorem foldlM_items {v : Json} {vs us : List Json} {stack : List Frame}
    (room : stack.length < deepest) (first : Completes v) (rest : CompletesItems vs stack) :
    (v.tokens ++ itemsTokens vs).foldlM step (due .value (.array us :: stack)) =
      if stack.length + (array (v :: vs)).nesting ≤ deepest then
        complete (.array (us.reverse ++ v :: vs)) stack else none := by
  have both : stack.length + (array (v :: vs)).nesting ≤ deepest ↔
      (Frame.array us :: stack).length + v.nesting ≤ deepest ∧
        stack.length + (array vs).nesting ≤ deepest := by
    simp only [nesting, itemsNesting, List.length_cons]
    omega
  rw [List.foldlM_append, first (.array us :: stack) room]
  by_cases fits : (Frame.array us :: stack).length + v.nesting ≤ deepest
  · rw [if_pos fits]
    show (itemsTokens vs).foldlM step (due .separator (.array (v :: us) :: stack)) = _
    rw [rest (v :: us), List.reverse_cons, List.append_assoc, List.singleton_append]
    simp only [both, fits, true_and]
  · rw [if_neg fits, if_neg fun deep => fits (both.mp deep).1]
    rfl

theorem completesItems {vs : List Json} (each : ∀ v ∈ vs, Completes v) {stack : List Frame}
    (room : stack.length < deepest) : CompletesItems vs stack := by
  induction vs with
  | nil =>
    intro us
    rw [nesting, itemsNesting, if_pos (by omega), List.append_nil, itemsTokens]
    show complete (.array us.reverse) stack >>= _ = _
    simp
  | cons v vs ih =>
    intro us
    have rest := ih fun w member => each w (List.mem_cons_of_mem _ member)
    -- the comma makes the next item due
    exact foldlM_items room (each v List.mem_cons_self) rest

theorem foldlM_item {v : Json} (nested : v.IsNested) (stack : List Frame) :
    v.tokens.foldlM step (due .item stack) = v.tokens.foldlM step (due .value stack) := by
  cases nested with
  | string s => rfl
  | @array vs _ => cases vs <;> rfl

theorem completes {v : Json} (nested : v.IsNested) : Completes v := by
  induction nested with
  | string s =>
    intro stack room
    rw [if_pos (by simpa [nesting] using room)]
    show complete (.string s) stack >>= _ = _
    simp
  | @array vs items ih =>
    intro stack room
    by_cases deeper : stack.length < deepest
    · have enter : step (due .value stack) .openArray = some (due .item (.array [] :: stack)) :=
        if_pos deeper
      cases vs with
      | nil =>
        rw [tokens, List.foldlM_cons, enter, nesting, itemsNesting, if_pos (by omega)]
        show complete (.array []) stack >>= _ = _
        simp
      | cons v vs =>
        rw [tokens, List.cons_append, List.foldlM_cons, enter, Option.bind_eq_bind,
          Option.bind_some, List.foldlM_append, foldlM_item (items v List.mem_cons_self),
          ← List.foldlM_append]
        have rest := completesItems (fun w member => ih w (List.mem_cons_of_mem _ member)) deeper
        exact foldlM_items deeper (ih v List.mem_cons_self) rest
    · have full : step (due .value stack) .openArray = none := if_neg deeper
      obtain ⟨ts, written⟩ : ∃ ts, (array vs).tokens = .openArray :: ts := by
        cases vs <;> exact ⟨_, rfl⟩
      rw [written, List.foldlM_cons, full, nesting, if_neg (by omega)]
      rfl

end Progress

/-- Strings in arrays are read back from their compact text just if they do not nest too deep. -/
theorem read?_compact {v : Json} (nested : v.IsNested) :
    read? v.compact = if v.nesting ≤ Progress.deepest then some v else none := by
  have written := all?_compact nested []
  have run := Progress.completes nested [] (Nat.zero_le _)
  rw [List.append_nil, Token.all?, Option.map_some, List.append_nil] at written
  simp only [List.length_nil, Nat.zero_add] at run
  rw [read?, written, Option.bind_eq_bind, Option.bind_some, run]
  by_cases fits : v.nesting ≤ Progress.deepest
  · rw [if_pos fits, if_pos fits]
    rfl
  · rw [if_neg fits, if_neg fits]
    rfl

/-! ### Nesting -/

theorem itemsNesting_append (vs ws : List Json) :
    itemsNesting (vs ++ ws) = max (itemsNesting vs) (itemsNesting ws) := by
  induction vs with
  | nil => simp [itemsNesting]
  | cons v vs ih => rw [List.cons_append, itemsNesting, itemsNesting, ih, Nat.max_assoc]

theorem itemsNesting_reverse (vs : List Json) : itemsNesting vs.reverse = itemsNesting vs := by
  induction vs with
  | nil => rfl
  | cons v vs ih =>
    rw [List.reverse_cons, itemsNesting_append, ih, itemsNesting, itemsNesting, itemsNesting,
      Nat.max_zero, Nat.max_comm]

namespace Token

theorem nesting_first? {s r : Text} {v : Json} (first : first? s = some (.scalar v, r)) :
    v.nesting = 0 := by
  unfold first? at first
  split at first
  case h_7 =>
    obtain ⟨p, -, same⟩ := Option.map_eq_some_iff.mp first
    simp at same
  case h_8 | h_9 | h_10 =>
    obtain ⟨rfl, -⟩ := by simpa using first
    rfl
  case h_11 =>
    split at first
    · obtain ⟨n, -, same⟩ := Option.map_eq_some_iff.mp first
      obtain ⟨rfl, -⟩ := by simpa using same
      rfl
    · simp at first
  all_goals simp at first

theorem nesting_of_mem_all? {s : Text} {ts : List Token} (all : all? s = some ts) {v : Json}
    (member : .scalar v ∈ ts) : v.nesting = 0 := by
  fun_induction all? s generalizing ts with
  | case1 =>
    obtain rfl := Option.some.inj all
    simp at member
  | case2 c r _ ih => exact ih all member
  | case3 => simp at all
  | case4 c r _ t u first ih =>
    obtain ⟨us, rest, rfl⟩ := Option.map_eq_some_iff.mp all
    rcases List.mem_cons.mp member with rfl | member
    · exact nesting_first? first
    · exact ih rest member

end Token

def Frame.nesting : Frame → Nat
  | array vs => itemsNesting vs
  | object ms => membersNesting ms
  | member ms _ => membersNesting ms

namespace Progress

theorem membersNesting_insertMember (k : Text) (v : Json) (ms : List (Text × Json)) :
    membersNesting (insertMember k v ms) ≤ max v.nesting (membersNesting ms) := by
  induction ms with
  | nil => simp [insertMember, membersNesting]
  | cons m ms ih =>
    unfold insertMember
    split
    · simp [membersNesting]
    · split
      · simp only [membersNesting]
        omega
      · simp only [membersNesting]
        omega

/-- What is in an open array or object, together with those around it, does not nest too deep. -/
def StackFits : List Frame → Prop
  | [] => True
  | f :: stack => stack.length + (1 + f.nesting) ≤ deepest ∧ StackFits stack

def Fits : Progress → Prop
  | due _ stack => StackFits stack
  | done v => v.nesting ≤ deepest

variable {stack : List Frame} {p q : Progress} {t : Token}

theorem StackFits.length_le (fits : StackFits stack) : stack.length ≤ deepest := by
  cases stack with
  | nil => exact Nat.zero_le _
  | cons f stack =>
    have inside := fits.1
    rw [List.length_cons]
    omega

theorem complete_fits {v : Json} (fits : StackFits stack)
    (room : stack.length + v.nesting ≤ deepest) (completed : complete v stack = some p) :
    p.Fits := by
  cases stack with
  | nil =>
    obtain rfl := Option.some.inj completed
    simpa [Fits] using room
  | cons f stack =>
    obtain ⟨inside, below⟩ := fits
    rw [List.length_cons] at room
    cases f with
    | array vs =>
      obtain rfl := Option.some.inj completed
      refine ⟨?_, below⟩
      simp only [Frame.nesting, itemsNesting] at inside ⊢
      omega
    | object ms => simp [complete] at completed
    | member ms k =>
      obtain rfl := Option.some.inj completed
      refine ⟨?_, below⟩
      have inserted := membersNesting_insertMember k v ms
      simp only [Frame.nesting] at inside ⊢
      omega

theorem enter_fits {f : Frame} {next : Due} (fits : StackFits stack) (empty : f.nesting = 0)
    (entered : enter f next stack = some p) : p.Fits := by
  unfold enter at entered
  split at entered
  · rename_i room
    obtain rfl := Option.some.inj entered
    exact ⟨by omega, fits⟩
  · simp at entered

theorem takeValue_fits (fits : StackFits stack) (plain : ∀ v, t = .scalar v → v.nesting = 0)
    (taken : takeValue stack t = some p) : p.Fits := by
  have room := fits.length_le
  unfold takeValue at taken
  split at taken
  · exact enter_fits fits rfl taken
  · exact enter_fits fits rfl taken
  · exact complete_fits fits (by simpa [nesting] using room) taken
  · exact complete_fits fits (by simpa [plain _ rfl] using room) taken
  · simp at taken

theorem takeKey_fits (fits : StackFits stack) (taken : takeKey stack t = some p) : p.Fits := by
  unfold takeKey at taken
  split at taken
  · obtain rfl := Option.some.inj taken
    exact fits
  · simp at taken

theorem close_fits (fits : StackFits stack) (closed : close stack t = some p) : p.Fits := by
  unfold close at closed
  split at closed
  · refine complete_fits fits.2 ?_ closed
    rw [nesting, itemsNesting_reverse]
    exact fits.1
  · refine complete_fits fits.2 ?_ closed
    rw [nesting]
    exact fits.1
  · simp at closed

theorem takeSeparator_fits (fits : StackFits stack) (taken : takeSeparator stack t = some p) :
    p.Fits := by
  unfold takeSeparator at taken
  split at taken
  · obtain rfl := Option.some.inj taken
    exact fits
  · obtain rfl := Option.some.inj taken
    exact fits
  · exact close_fits fits taken

theorem step_fits (fits : p.Fits) (plain : ∀ v, t = .scalar v → v.nesting = 0)
    (taken : step p t = some q) : q.Fits := by
  unfold step at taken
  split at taken
  · simp at taken
  · exact takeValue_fits fits plain taken
  · exact close_fits fits taken
  · exact takeValue_fits fits plain taken
  · exact close_fits fits taken
  · exact takeKey_fits fits taken
  · exact takeKey_fits fits taken
  · obtain rfl := Option.some.inj taken
    exact fits
  · simp at taken
  · exact takeSeparator_fits fits taken

theorem foldlM_fits {ts : List Token} (fits : p.Fits)
    (plain : ∀ v, .scalar v ∈ ts → v.nesting = 0) (run : ts.foldlM step p = some q) : q.Fits := by
  induction ts generalizing p with
  | nil =>
    obtain rfl := Option.some.inj run
    exact fits
  | cons t ts ih =>
    rw [List.foldlM_cons] at run
    obtain ⟨next, taken, run⟩ := Option.bind_eq_some_iff.mp run
    have stepped := step_fits fits (fun v same => plain v (same ▸ List.mem_cons_self)) taken
    exact ih stepped (fun v member => plain v (List.mem_cons_of_mem _ member)) run

end Progress

/-- No document holds a value that nests deeper than the reader goes. -/
theorem nesting_le_of_read? {s : Text} {v : Json} (document : read? s = some v) :
    v.nesting ≤ Progress.deepest := by
  unfold read? at document
  obtain ⟨ts, all, read⟩ := Option.bind_eq_some_iff.mp document
  obtain ⟨p, run, finished⟩ := Option.bind_eq_some_iff.mp read
  have start : (Progress.due .value []).Fits := trivial
  have fits := Progress.foldlM_fits start (fun v => Token.nesting_of_mem_all? all) run
  cases p with
  | due next stack => simp [Progress.value?] at finished
  | done w =>
    obtain rfl := Option.some.inj finished
    exact fits

end GenreRelations.Json
