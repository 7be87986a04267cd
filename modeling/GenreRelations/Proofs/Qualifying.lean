import GenreRelations.Catalog.Qualification
import GenreRelations.Proofs.Depth
import GenreRelations.Proofs.FirstName
import GenreRelations.Proofs.Wrapping

/-!
Qualified expressions. What the genre adds stands in parentheses behind the characters that the
expression starts with, so it belongs to the first name, and closes what it opens. The expression
is read as before but for that name: `qualify_keeps`. Which expressions are changed hangs on these
characters alone, whatever follows them in the name: `qualify_eq_self_iff`.
-/

namespace GenreRelations

open Expression (Exchangeable alike_parse)
open Segment (ofWords tokenize)

namespace Text

/-- A text that may stand in parentheses in a name: no word of it is a symbol, and it has as many
opening as closing parentheses. -/
structure IsRemark (g : Text) : Prop where
  plain : ∀ w ∈ g.words, Symbol.ofWord? w = none
  balanced : g.balance = 0

/-- What starts with the text and goes on without a blank has words, and none is a symbol. -/
def Leads (x : Text) : Prop :=
  ∀ w, (∀ c ∈ w, isBlank c = false) →
    words (x ++ w) ≠ [] ∧ ∀ v ∈ words (x ++ w), Symbol.ofWord? v = none

/-! ### First words -/

theorem prefix_unwords_cons (w : Text) (ws : List Text) : w <+: unwords (w :: ws) := by
  cases ws with
  | nil => exact ⟨[], by rw [unwords_singleton, List.append_nil]⟩
  | cons v ws => exact ⟨_, (unwords_cons_cons w v ws).symm⟩

theorem prefix_unwords_words {h : Text} (word : IsWord h) (s : Text) :
    h <+: unwords (words (h ++ s)) := by
  obtain ⟨w, ws, solid, words⟩ := exists_first_word s
  rw [words, words_append_solid word solid]
  exact (List.prefix_append h w).trans (prefix_unwords_cons _ ws)

theorem balance_unwords_words (s : Text) : (unwords s.words).balance = s.balance := by
  rw [balance, balance, count_unwords_words (by decide), count_unwords_words (by decide)]

/-! ### Texts that lead -/

theorem leads_of_mem {h : Text} {c : Char} (solid : ∀ d ∈ h, isBlank d = false) (isIn : c ∈ h)
    (strange : ∀ r ∈ Relation.all, c ≠ r.char) : Leads h := by
  intro w behind
  have word : IsWord h := ⟨List.ne_nil_of_mem isIn, solid⟩
  rw [words_append_solid word behind]
  refine ⟨List.cons_ne_nil _ _, fun v member => ?_⟩
  rw [List.mem_singleton.mp member]
  exact ofWord?_of_mem (List.mem_append_left w isIn) strange

theorem Leads.behind {s x : Text} {b : Char} (leads : Leads x) (blank : isBlank b = true)
    (plain : ∀ v ∈ words s, Symbol.ofWord? v = none) : Leads (s ++ b :: x) := by
  intro w solid
  obtain ⟨nonempty, later⟩ := leads w solid
  rw [List.append_assoc, List.cons_append, words_append_blank blank]
  refine ⟨by simp [nonempty], fun v member => ?_⟩
  rcases List.mem_append.mp member with member | member
  · exact plain v member
  · exact later v member

theorem Leads.opening {x : Text} (leads : Leads x) : Leads ('(' :: x) := by
  intro w solid
  obtain ⟨u, us, before, opened⟩ := words_opening (x ++ w)
  rw [List.cons_append, opened]
  refine ⟨List.cons_ne_nil _ _, fun v member => ?_⟩
  rcases List.mem_cons.mp member with rfl | member
  · exact ofWord?_opening u
  · exact (leads w solid).2 v (before ▸ List.mem_append_right _ member)

theorem leads_closing {g : Text} (plain : ∀ v ∈ words g, Symbol.ofWord? v = none) :
    Leads (g ++ [')']) := by
  have last : ∀ u : Text, (∀ c ∈ u, isBlank c = false) → Leads (u ++ [')']) := by
    intro u solid
    have paren : isBlank ')' = false := by decide
    exact leads_of_mem (by simpa [or_imp, forall_and, paren] using solid)
      List.mem_concat_self (by decide)
  -- only the last word of the text gets the parenthesis, the others stay as they are
  rcases exists_last_blank g with solid | ⟨before, b, u, rfl, blank, solid⟩
  · exact last g solid
  · rw [List.append_assoc, List.cons_append]
    rw [words_append_blank blank] at plain
    exact (last u solid).behind blank fun v member => plain v (List.mem_append_left _ member)

end Text

namespace Segment

theorem exists_ofWords_plain_append (ws : List Text) : ∃ c later, ∀ vs, vs ≠ [] →
    (∀ v ∈ vs, Symbol.ofWord? v = none) →
      ofWords (vs ++ ws) = .name (Text.unwords vs ++ c) :: later := by
  obtain ⟨c, later, start⟩ := exists_ofWords_cons_plain ws
  refine ⟨c, later, fun vs nonempty plain => ?_⟩
  induction vs with
  | nil => exact absurd rfl nonempty
  | cons v vs ih =>
    have first := plain v List.mem_cons_self
    cases vs with
    | nil => rw [Text.unwords_singleton, List.singleton_append, start v first]
    | cons u vs =>
      rw [List.cons_append, ofWords, first,
        ih (List.cons_ne_nil u vs) fun v member => plain v (List.mem_cons_of_mem _ member)]
      simp [Text.unwords_cons_cons]

/-- What leads a text goes into its first name, or is one before its first symbol. -/
theorem exists_first_name (s : Text) : ∃ w c later, ∀ x, x.Leads →
    tokenize (x ++ s) = .name (Text.unwords (Text.words (x ++ w)) ++ c) :: later := by
  obtain ⟨w, ws, solid, words⟩ := Text.exists_first_word s
  obtain ⟨c, later, start⟩ := exists_ofWords_plain_append ws
  refine ⟨w, c, later, fun x leads => ?_⟩
  obtain ⟨nonempty, plain⟩ := leads w solid
  rw [tokenize, words, start _ nonempty plain]

end Segment

namespace Group

theorem opens_of_prefix {h n : Text} (nonempty : h ≠ []) (start : h <+: n)
    (first : opens (.name h) = false) : opens (.name n) = false := by
  obtain ⟨t, rfl⟩ := start
  cases h with
  | nil => exact absurd rfl nonempty
  | cons c h =>
    have other : c ≠ '(' := by
      rintro rfl
      simp [opens] at first
    simp [opens, other]

end Group

namespace Qualification

/-- What an expression starts with if its first name may be qualified. -/
def heads : List Text := [['?'], "Trap".toList]

/-- A word that a remark may stand behind, without opening a group or being a symbol then. -/
structure IsHead (h : Text) : Prop where
  word : h.IsWord
  leads : h.Leads
  opens : Group.opens (.name h) = false

theorem isHead_of_mem {h : Text} (member : h ∈ heads) : IsHead h := by
  have head : ∀ (c : Char) (h : Text), (c :: h).any Text.isBlank = false →
      (∀ r ∈ Relation.all, c ≠ r.char) → c ≠ '(' → IsHead (c :: h) := by
    intro c h noBlank strange other
    have solid : ∀ d ∈ c :: h, Text.isBlank d = false :=
      fun d isIn => Bool.eq_false_iff.mpr (List.any_eq_false.mp noBlank d isIn)
    exact ⟨⟨List.cons_ne_nil c h, solid⟩, Text.leads_of_mem solid List.mem_cons_self strange,
      by simp [Group.opens, other]⟩
  rcases List.mem_cons.mp member with rfl | member
  · exact head '?' [] (by decide) (by decide) (by decide)
  · obtain rfl := List.mem_singleton.mp member
    exact head 'T' "rap".toList (by decide) (by decide) (by decide)

namespace IsHead

variable {h : Text} (head : IsHead h)

include head

theorem plain : ∀ v ∈ h.words, Symbol.ofWord? v = none := by
  have alone := head.leads [] (by simp)
  rw [List.append_nil] at alone
  exact alone.2

theorem exists_name (rest : Text) :
    ∃ n later, tokenize (h ++ rest) = .name n :: later ∧ h <+: n := by
  obtain ⟨w, c, later, named⟩ := Segment.exists_first_name rest
  exact ⟨_, later, named h head.leads,
    (Text.prefix_unwords_words head.word w).trans (List.prefix_append _ c)⟩

/-- A remark behind the head becomes a part of the first name, and leaves nothing open. -/
theorem exists_names {g : Text} (remark : g.IsRemark) (rest : Text) : ∃ n m later,
    tokenize (h ++ rest) = .name n :: later ∧
    tokenize (h ++ ' ' :: '(' :: g ++ ')' :: rest) = .name m :: later ∧ Exchangeable n m := by
  obtain ⟨w, c, later, named⟩ := Segment.exists_first_name rest
  have leads : Text.Leads (h ++ ' ' :: '(' :: (g ++ [')'])) :=
    (Text.leads_closing remark.plain).opening.behind Text.isBlank_space head.plain
  have closed : Text.balance ('(' :: (g ++ [')'])) = 0 := by
    rw [Text.balance_opening, Text.balance_closing, remark.balanced]
    rfl
  have added : h ++ ' ' :: '(' :: g ++ ')' :: rest = h ++ ' ' :: '(' :: (g ++ [')']) ++ rest := by
    simp
  have opens : ∀ s, Group.opens (.name (Text.unwords (Text.words (h ++ s)) ++ c)) = false :=
    fun s => Group.opens_of_prefix head.word.1
      ((Text.prefix_unwords_words head.word s).trans (List.prefix_append _ c)) head.opens
  refine ⟨_, _, later, named h head.leads, added ▸ named _ leads, opens w, ?_, ?_⟩
  · rw [List.append_assoc]
    exact opens _
  · simp only [Text.balance_append, Text.balance_unwords_words, Text.balance_space, closed]
    omega

end IsHead

/-! ### What is added -/

theorem isRemark_fullGenre {g : Text} (remark : g.IsRemark) : (fullGenre g).IsRemark := by
  unfold fullGenre
  split
  · exact ⟨by decide, by decide⟩
  · exact remark

theorem fullGenre_eq_unknown_iff {g : Text} : fullGenre g = ['?'] ↔ g = ['?'] := by
  unfold fullGenre
  split
  · rename_i trap
    rw [trap]
    decide
  · exact Iff.rfl

theorem exists_remark_of_trapStyle? {genre style : Text} (styled : trapStyle? genre = some style) :
    ∃ g : Text, g.IsRemark ∧ style = ' ' :: '(' :: g ++ [')'] := by
  unfold trapStyle? at styled
  split at styled
  · obtain rfl := Option.some.inj styled
    exact ⟨"Hip Hop".toList, ⟨by decide, by decide⟩, by rfl⟩
  · split at styled
    · obtain rfl := Option.some.inj styled
      exact ⟨"EDM".toList, ⟨by decide, by decide⟩, by rfl⟩
    · simp at styled

theorem trapStyle?_fullGenre_eq_none_iff {g : Text} : trapStyle? (fullGenre g) = none ↔
    g ∉ ["Hip Hop".toList, "Trap".toList, "Trap (EDM)".toList] := by
  by_cases trap : g = "Trap".toList
  · subst trap
    decide
  by_cases hipHop : g = "Hip Hop".toList
  · subst hipHop
    decide
  by_cases full : g = "Trap (EDM)".toList
  · subst full
    decide
  rw [fullGenre, if_neg trap, trapStyle?, if_neg hipHop, if_neg full]
  exact iff_of_true rfl (by simp only [List.mem_cons, hipHop, trap, full, List.not_mem_nil,
    or_self, not_false_eq_true])

/-- The expression starts with nothing that the genre, given by its full name, tells apart. -/
def Unambiguous (genre s : Text) : Prop :=
  (['?'] <+: s → genre = ['?']) ∧
  ("Trap".toList <+: s → "Trap (".toList <+: s ∨ trapStyle? genre = none)

theorem unambiguous_unknown_iff {genre rest : Text} :
    Unambiguous genre ('?' :: rest) ↔ genre = ['?'] := by
  have unknown : ['?'] <+: '?' :: rest := List.prefix_append ['?'] rest
  have other : ¬ "Trap".toList <+: '?' :: rest := by
    rintro ⟨t, same⟩
    simp at same
  exact ⟨fun whole => whole.1 unknown, fun same => ⟨fun _ => same, fun trap => absurd trap other⟩⟩

theorem unambiguous_trap_iff {genre rest : Text} :
    Unambiguous genre ("Trap".toList ++ rest) ↔
      " (".toList <+: rest ∨ trapStyle? genre = none := by
  have trap : "Trap".toList <+: "Trap".toList ++ rest := List.prefix_append _ rest
  have other : ¬ ['?'] <+: "Trap".toList ++ rest := by
    rintro ⟨t, same⟩
    simp at same
  have qualified : "Trap (".toList <+: "Trap".toList ++ rest ↔ " (".toList <+: rest :=
    List.prefix_append_right_inj "Trap".toList
  rw [← qualified]
  exact ⟨fun whole => whole.2 trap,
    fun part => ⟨fun unknown => absurd unknown other, fun _ => part⟩⟩

theorem byGenre_cases (genre s : Text) :
    Unambiguous genre s ∧ byGenre genre s = s ∨
    ¬ Unambiguous genre s ∧ ∃ h g rest : Text, h ∈ heads ∧ s = h ++ rest ∧
      (g = genre ∨ g.IsRemark) ∧ byGenre genre s = h ++ ' ' :: '(' :: g ++ ')' :: rest := by
  unfold byGenre
  split
  · rename_i rest
    rw [unambiguous_unknown_iff]
    split
    · rename_i same
      exact .inl ⟨same, rfl⟩
    · rename_i differs
      exact .inr ⟨differs, ['?'], genre, rest, List.mem_cons_self, rfl, .inl rfl, rfl⟩
  · rename_i rest
    change Unambiguous genre ("Trap".toList ++ rest) ∧ _ ∨
      ¬ Unambiguous genre ("Trap".toList ++ rest) ∧ _
    rw [unambiguous_trap_iff, ← List.isPrefixOf_iff_prefix]
    split
    · rename_i qualified
      exact .inl ⟨.inl qualified, rfl⟩
    · rename_i bare
      cases styled : trapStyle? genre with
      | none => exact .inl ⟨.inr rfl, rfl⟩
      | some style =>
        obtain ⟨g, remark, rfl⟩ := exists_remark_of_trapStyle? styled
        exact .inr ⟨not_or.mpr ⟨bare, Option.some_ne_none _⟩, "Trap".toList, g, rest, by decide,
          rfl, .inr remark, by simp⟩
  · rename_i notUnknown notTrap
    refine .inl ⟨⟨?_, ?_⟩, rfl⟩
    · rintro ⟨rest, rfl⟩
      exact absurd rfl (notUnknown rest)
    · rintro ⟨rest, rfl⟩
      exact absurd rfl (notTrap rest)

theorem byGenre_eq_self_iff {genre s : Text} : byGenre genre s = s ↔ Unambiguous genre s := by
  rcases byGenre_cases genre s with
    ⟨unambiguous, same⟩ | ⟨ambiguous, h, g, rest, -, rfl, -, longer⟩
  · exact iff_of_true same unambiguous
  · refine iff_of_false (fun same => ?_) ambiguous
    rw [longer] at same
    have lengths := congrArg List.length same
    simp at lengths
    omega

end Qualification

open Qualification (Unambiguous IsHead fullGenre heads isHead_of_mem)

/-! ### Expressions that are qualified -/

theorem qualify_cases {genre : Option Text} (remark : ∀ g, genre = some g → g.IsRemark)
    (s : Text) : qualify genre s = s ∨ ∃ h g rest : Text, h ∈ heads ∧ g.IsRemark ∧ s = h ++ rest ∧
      qualify genre s = h ++ ' ' :: '(' :: g ++ ')' :: rest := by
  cases genre with
  | none => exact .inl rfl
  | some genre =>
    rcases Qualification.byGenre_cases (fullGenre genre) s with
      ⟨-, same⟩ | ⟨-, h, g, rest, head, parts, added, longer⟩
    · exact .inl same
    · have isRemark : g.IsRemark := by
        rcases added with rfl | fixed
        · exact Qualification.isRemark_fullGenre (remark genre rfl)
        · exact fixed
      exact .inr ⟨h, g, rest, head, isRemark, parts, longer⟩

/-- Expressions keep all segments but the first when they are qualified, and that stays a name. They
are parsed or fail as before: trees have the same shape and the same names behind the first one,
failures are of the same kind. -/
theorem qualify_keeps {genre : Option Text} (remark : ∀ g, genre = some g → g.IsRemark)
    (s : Text) :
    (tokenize (qualify genre s) = tokenize s ∨ ∃ n m rest, tokenize s = .name n :: rest ∧
      tokenize (qualify genre s) = .name m :: rest) ∧
    ((∃ u, Tree.parse (qualify genre s) = .ok u) ↔ ∃ t, Tree.parse s = .ok t) ∧
    (∀ t u, Tree.parse s = .ok t → Tree.parse (qualify genre s) = .ok u →
      t.unnamed = u.unnamed ∧ t.leaves.tail = u.leaves.tail) ∧
    ∀ e f, Tree.parse s = .error e → Tree.parse (qualify genre s) = .error f →
      e.kind = f.kind := by
  rcases qualify_cases remark s with same | ⟨h, g, rest, head, isRemark, rfl, longer⟩
  · rw [same]
    exact ⟨.inl rfl, (Alike.refl (fun t => ⟨rfl, rfl⟩) (Tree.parse s)).outcomes⟩
  · obtain ⟨n, m, later, first, second, names⟩ := (isHead_of_mem head).exists_names isRemark rest
    rw [longer]
    refine ⟨.inr ⟨n, m, later, first, second⟩, ?_⟩
    -- the two names can be exchanged, so both texts are parsed alike
    refine ((alike_parse first second names).mono ?_).outcomes
    rintro t u ⟨shape, a, b, names, left, right⟩
    exact ⟨shape, by rw [left, right]; rfl⟩

theorem qualify_keeps_divided :
    (∀ g : Text, some "Trap".toList = some g → g.IsRemark) ∧
    qualify (some "Trap".toList) "Trap > Drill || Crunk".toList =
      "Trap (EDM) > Drill || Crunk".toList ∧
    Tree.parse "Trap > Drill || Crunk".toList = .ok (.sequence [.tree (.pair
      (.leaf "Trap".toList) .derive (.leaf "Drill".toList)), .symbol .blend,
      .tree (.leaf "Crunk".toList)]) ∧
    ∃ u, Tree.parse "Trap (EDM) > Drill || Crunk".toList = .ok u ∧
      u.leaves.tail = ["Drill".toList, "Crunk".toList] := by
  have remark : ∀ g : Text, some "Trap".toList = some g → g.IsRemark := by
    rintro g ⟨⟩
    exact ⟨by decide, by decide⟩
  have longer : qualify (some "Trap".toList) "Trap > Drill || Crunk".toList =
      "Trap (EDM) > Drill || Crunk".toList := by decide
  have read : Tree.parse "Trap > Drill || Crunk".toList = .ok (.sequence [.tree (.pair
      (.leaf "Trap".toList) .derive (.leaf "Drill".toList)), .symbol .blend,
      .tree (.leaf "Crunk".toList)]) := by cbv
  obtain ⟨-, succeeds, trees, -⟩ := qualify_keeps remark "Trap > Drill || Crunk".toList
  rw [longer] at succeeds trees
  obtain ⟨u, again⟩ := succeeds.mpr ⟨_, read⟩
  exact ⟨remark, longer, read, u, again, (trees _ u read again).2.symm⟩

/-- An expression stays as it is exactly if it does not start with `?`, the genre being known, nor
with `Trap` where the genre has a style of it and no parenthesis follows. So it does whenever its
first name starts with neither of them. -/
theorem qualify_eq_self_iff (genre : Option Text) (s : Text) :
    (qualify genre s = s ↔ ∀ g, genre = some g →
      (['?'] <+: s → g = ['?']) ∧
      ("Trap".toList <+: s → "Trap (".toList <+: s ∨
        g ∉ ["Hip Hop".toList, "Trap".toList, "Trap (EDM)".toList])) ∧
    ((∀ n rest, tokenize s = .name n :: rest → ¬ ['?'] <+: n ∧ ¬ "Trap".toList <+: n) →
      qualify genre s = s) := by
  constructor
  · cases genre with
    | none => simp [qualify]
    | some g =>
      have start := @Qualification.byGenre_eq_self_iff (fullGenre g) s
      rw [Unambiguous, Qualification.fullGenre_eq_unknown_iff,
        Qualification.trapStyle?_fullGenre_eq_none_iff] at start
      simpa [qualify] using start
  · intro other
    cases genre with
    | none => rfl
    | some g =>
      rcases Qualification.byGenre_cases (fullGenre g) s with
        ⟨-, same⟩ | ⟨-, h, -, rest, head, rfl, -⟩
      · exact same
      -- what is changed starts with one of the two, and so does its first name
      · obtain ⟨n, later, first, start⟩ := (isHead_of_mem head).exists_name rest
        obtain ⟨notUnknown, notTrap⟩ := other n later first
        rcases List.mem_cons.mp head with rfl | last
        · exact absurd start notUnknown
        · obtain rfl := List.mem_singleton.mp last
          exact absurd start notTrap

theorem qualify_eq_self_iff_house :
    (∀ n rest, tokenize "House | Trap".toList = .name n :: rest →
      ¬ ['?'] <+: n ∧ ¬ "Trap".toList <+: n) ∧
    qualify (some "Hip Hop".toList) "House | Trap".toList = "House | Trap".toList := by
  have other : ∀ n rest, tokenize "House | Trap".toList = .name n :: rest →
      ¬ ['?'] <+: n ∧ ¬ "Trap".toList <+: n := by
    intro n rest first
    have segments : tokenize "House | Trap".toList = .name "House".toList ::
      [.symbol (.operator .blend), .name "Trap".toList] := by decide
    obtain ⟨rfl, -⟩ := Segment.name.inj (List.cons.inj (segments.symm.trans first)).1
    decide
  exact ⟨other, (qualify_eq_self_iff _ _).2 other⟩

/-- First names that merely start with the characters are changed, too. -/
theorem qualify_longer_name :
    tokenize "Trapsoul | Drill".toList = [.name "Trapsoul".toList, .symbol (.operator .blend),
      .name "Drill".toList] ∧
    qualify (some "Hip Hop".toList) "Trapsoul | Drill".toList =
      "Trap (Hip Hop)soul | Drill".toList ∧
    tokenize "? Bass".toList = [.name "? Bass".toList] ∧
    qualify (some "House".toList) "? Bass".toList = "? (House) Bass".toList ∧
    ¬ ∀ (genre : Option Text) (s : Text),
      (∀ n rest, tokenize s = .name n :: rest → n ≠ ['?'] ∧ n ≠ "Trap".toList) →
        qualify genre s = s := by
  have segments : tokenize "? Bass".toList = [.name "? Bass".toList] := by decide
  have longer : qualify (some "House".toList) "? Bass".toList = "? (House) Bass".toList := by
    decide
  refine ⟨by decide, by decide, segments, longer, fun law => ?_⟩
  have same := law (some "House".toList) "? Bass".toList ?_
  · rw [longer] at same
    revert same
    decide
  · intro n rest first
    obtain rfl := Segment.name.inj (List.cons.inj (segments.symm.trans first)).1
    decide

end GenreRelations
