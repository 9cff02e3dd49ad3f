/-
# The numbers in a text of condition logic

A text of condition logic is taken apart twice, into lists and then into conjunctions. Its numbers
go through both, and what comes out names the conditions in the order in which the text has the
numbers. Here the words are found without any lists, by cutting the text at its parentheses and
commas; the scanner moves words into lists and out of them, but never past one another.

A conjunction that is kept holds a condition at some depth, and nothing is named that is not there.
So filling a block from the entries of a group looks at no position behind the last entry.
-/
import RecordGraph.Proofs.AcceptedLogic
import RecordGraph.Proofs.FilledGroups

namespace RecordGraph.Logic

/-! ## Words of a text -/

/-- The character ends a word. -/
def endsWord (c : Char) : Bool := c = '(' || c = ')' || c = ','

/-- What stands between parentheses and commas, left to right. Blanks are left out, even inside
a word. -/
def textWords (cs : List Char) : List String :=
  (((cs.filter fun c => !Text.isBlank c).splitOnP endsWord).filter (· ≠ [])).map String.ofList

/-- The position of the condition that a word numbers, if it numbers one of `count`. -/
def position? (count : Nat) (w : String) : Option Nat :=
  (Text.numeral? w.toList).bind fun k => if 1 ≤ k ∧ k ≤ count then some (k - 1) else none

/-- Conditions are numbered from one, in decimal digits. -/
theorem position?_eq_some_iff {count i : Nat} {w : String} :
    position? count w = some i ↔ Text.Writes (i + 1) w ∧ i < count := by
  rw [position?, Option.bind_eq_some_iff]
  constructor
  · rintro ⟨k, hnumeral, hk⟩
    split at hk
    · rename_i hrange
      obtain rfl := Option.some.inj hk
      rw [Nat.sub_add_cancel hrange.1]
      exact ⟨Text.numeral?_eq_some_iff.mp hnumeral, by omega⟩
    · cases hk
  · rintro ⟨hwrites, hi⟩
    exact ⟨i + 1, Text.numeral?_eq_some_iff.mpr hwrites, by simp [Nat.succ_le_of_lt hi]⟩

theorem textWords_blank {c : Char} (hc : Text.isBlank c = true) (cs ds : List Char) :
    textWords (cs ++ c :: ds) = textWords (cs ++ ds) := by
  simp [textWords, List.filter_append, hc]

/-- Where a word ends the text can be cut. -/
theorem textWords_cut {c : Char} (hc : endsWord c = true) (cs ds : List Char) :
    textWords (cs ++ c :: ds) = textWords cs ++ textWords ds := by
  have hkept : Text.isBlank c = false := by
    rcases (by simpa [endsWord] using hc : (c = '(' ∨ c = ')') ∨ c = ',') with (rfl | rfl) | rfl
    · decide
    · decide
    · decide
  rw [textWords, List.filter_append, List.filter_cons_of_pos (by simp [hkept]),
    List.splitOnP_append_cons _ _ hc, List.filter_append, List.map_append]
  rfl

theorem textWords_plain {cs : List Char} (h : ∀ c ∈ cs, IsPlain c) :
    textWords cs = if cs.isEmpty then [] else [String.ofList cs] := by
  have hkept : cs.filter (fun c => !Text.isBlank c) = cs :=
    List.filter_eq_self.mpr fun c hc => by simp [(h c hc).2.2.2]
  have huncut : cs.splitOnP endsWord = [cs] :=
    List.splitOnP_eq_singleton fun c hc => by
      simp [endsWord, (h c hc).1, (h c hc).2.1, (h c hc).2.2.1]
  rw [textWords, hkept, huncut]
  cases cs <;> simp

/-! ## Words of nested lists -/

mutual

/-- The words of a token, left to right. -/
def Token.words : Token → List String
  | .word w => [w]
  | .list block => wordsOf block

/-- The words of several tokens, left to right. -/
def wordsOf : List Token → List String
  | [] => []
  | t :: rest => t.words ++ wordsOf rest

end

@[simp] theorem wordsOf_append (ts us : List Token) :
    wordsOf (ts ++ us) = wordsOf ts ++ wordsOf us := by
  induction ts with
  | nil => simp [wordsOf]
  | cons t rest ih => simp [wordsOf, ih]

@[simp] theorem wordsOf_word (w : String) : wordsOf [.word w] = [w] := by
  simp [wordsOf, Token.words]

@[simp] theorem wordsOf_list (block : List Token) : wordsOf [.list block] = wordsOf block := by
  simp [wordsOf, Token.words]

mutual

theorem Token.wordsOf_strip : ∀ t : Token, wordsOf t.strip = t.words
  | .word w => by rw [Token.strip, wordsOf_word, Token.words]
  | .list inner => by rw [Token.strip, Token.words, wordsOf_stripOuter inner]

/-- The lists that enclose everything hold no words of their own. -/
theorem wordsOf_stripOuter : ∀ ts : List Token, wordsOf (stripOuter ts) = wordsOf ts
  | [] => rfl
  | [t] => by rw [stripOuter, t.wordsOf_strip, wordsOf, wordsOf, List.append_nil]
  | t :: u :: rest => rfl

end

mutual

theorem Token.exists_within_of_mem_words {w : String} :
    ∀ t : Token, w ∈ t.words → ∃ list, Within list [t] ∧ .word w ∈ list
  | .word v => by
      intro hw
      rw [Token.words, List.mem_singleton] at hw
      exact ⟨[.word v], .self _, by simp [hw]⟩
  | .list block => by
      intro hw
      obtain ⟨list, hlist, hmem⟩ := exists_within_of_mem_wordsOf block hw
      exact ⟨list, hlist.nested (List.mem_singleton_self _), hmem⟩

/-- A word among tokens stands in a list at some depth. -/
theorem exists_within_of_mem_wordsOf {w : String} :
    ∀ ts : List Token, w ∈ wordsOf ts → ∃ list, Within list ts ∧ .word w ∈ list
  | [] => by simp [wordsOf]
  | t :: rest => by
      intro hw
      rw [wordsOf, List.mem_append] at hw
      rcases hw with hw | hw
      · obtain ⟨list, hlist, hmem⟩ := t.exists_within_of_mem_words hw
        cases hlist with
        | self =>
            exact ⟨t :: rest, .self _, List.mem_cons.mpr (.inl (List.mem_singleton.mp hmem))⟩
        | nested hinner hblock =>
            rw [List.mem_singleton] at hblock
            exact ⟨list, hinner.nested (by simp [hblock]), hmem⟩
      · obtain ⟨list, hlist, hmem⟩ := exists_within_of_mem_wordsOf rest hw
        cases hlist with
        | self => exact ⟨t :: rest, .self _, List.mem_cons_of_mem _ hmem⟩
        | nested hinner hblock =>
            exact ⟨list, hinner.nested (List.mem_cons_of_mem _ hblock), hmem⟩

end

/-! ## The scanner keeps the words in order -/

namespace Scan

variable {s t : Scan}

/-- The words that are read to their end, left to right. -/
def words (s : Scan) : List String := s.outer.reverse.flatMap wordsOf ++ wordsOf s.current

theorem words_flush (hs : s.Plain) : s.flush.words = s.words ++ textWords s.pending := by
  rw [textWords_plain hs.pending, flush]
  split
  · rw [List.append_nil]
  · simp [words]

theorem words_openList (hs : s.Plain) : s.openList.words = s.words ++ textWords s.pending := by
  rw [textWords_plain hs.pending, words, words, openList]
  cases s.pending.isEmpty <;> simp [wordsOf]

theorem words_closeList (hs : s.Plain) (h : s.closeList? = some t) :
    t.words = s.words ++ textWords s.pending ∧ t.pending = [] := by
  rw [← words_flush hs]
  rw [closeList?] at h
  split at h
  · cases h
  · rename_i parent outer houter
    obtain rfl := Option.some.inj h
    simp only [words, houter]
    simp

/-- One character more, whatever follows. -/
theorem words_step {c : Char} (hs : s.Plain) (h : s.step? c = some t) (rest : List Char) :
    t.words ++ textWords (t.pending ++ rest) = s.words ++ textWords (s.pending ++ c :: rest) := by
  rcases kinds c with rfl | rfl | rfl | hblank | hplain
  · obtain rfl := Option.some.inj h
    rw [textWords_cut (by decide), words_openList hs, List.append_assoc]
    rfl
  · obtain ⟨hwords, hpending⟩ := words_closeList hs h
    rw [textWords_cut (by decide), hwords, hpending, List.append_assoc, List.nil_append]
  · obtain rfl := Option.some.inj h
    rw [textWords_cut (by decide), words_flush hs, pending_flush, List.append_assoc,
      List.nil_append]
  · rw [step?_blank hblank] at h
    obtain rfl := Option.some.inj h
    rw [textWords_blank hblank]
  · rw [step?_plain hplain] at h
    obtain rfl := Option.some.inj h
    simp [words]

theorem words_read {cs : List Char} (hs : s.Plain) (h : s.read? cs = some t) :
    t.words ++ textWords t.pending = s.words ++ textWords (s.pending ++ cs) := by
  induction cs generalizing s with
  | nil =>
      obtain rfl := Option.some.inj h
      rw [List.append_nil]
  | cons c rest ih =>
      rw [read?_cons, Option.bind_eq_some_iff] at h
      obtain ⟨next, hstep, hrest⟩ := h
      rw [ih (hs.step hstep) hrest, words_step hs hstep]

end Scan

/-- The lists that a text is read as have the words of the text, in their order. -/
theorem wordsOf_parse {e : String} {ts : List Token} (h : Token.parse e = .ok ts) :
    wordsOf ts = textWords e.toList := by
  obtain ⟨s, hread, houter, rfl⟩ := Token.parse_eq_ok_iff.mp h
  have hwords := Scan.words_read Scan.Plain.start hread
  have hflushed := Scan.words_flush (Scan.Plain.start.read hread)
  rw [hwords] at hflushed
  rw [wordsOf_stripOuter]
  simpa [Scan.words, Scan.start, houter, wordsOf] using hflushed

/-! ## The numbers of a text -/

mutual

theorem Token.positions_eq_flatMap (count : Nat) :
    ∀ t : Token, t.positions count = t.words.flatMap (wordPositions count)
  | .word w => by simp [Token.positions, Token.words]
  | .list block => by rw [Token.positions, Token.words, positionsOf_eq_flatMap count block]

/-- The positions that tokens write are those that their words write. -/
theorem positionsOf_eq_flatMap (count : Nat) :
    ∀ ts : List Token, positionsOf count ts = (wordsOf ts).flatMap (wordPositions count)
  | [] => by simp [positionsOf, wordsOf]
  | t :: rest => by
      rw [positionsOf, wordsOf, List.flatMap_append, t.positions_eq_flatMap,
        positionsOf_eq_flatMap count rest]

end

/-- A word of condition logic writes the position of the condition that it numbers. -/
theorem wordPositions_eq {count : Nat} {w : String} (hplain : ∀ c ∈ w.toList, IsPlain c)
    (hw : NamesConjunction w ∨ ∃ n, Text.Writes n w ∧ n ≤ Text.wordMax) :
    wordPositions count w = (position? count w).toList := by
  rcases hw with hnames | ⟨n, hwrites, hfits⟩
  · obtain ⟨c, hparse⟩ := (exists_conjunction_iff hplain).mpr hnames
    have hnone : position? count w = none := by
      refine Option.eq_none_iff_forall_not_mem.mpr fun i hi => ?_
      exact not_namesConjunction_of_writes (position?_eq_some_iff.mp hi).1 hnames
    rw [wordPositions, hparse, hnone]
    rfl
  · rw [wordPositions, parse?_of_writes hplain hwrites,
      Text.word?_eq_some_iff.mpr ⟨hwrites, hfits⟩, position?,
      Text.numeral?_eq_some_iff.mpr hwrites, Option.bind_some]
    by_cases hrange : 1 ≤ n ∧ n ≤ count
    · rw [if_pos hrange]
      simp
      omega
    · rw [if_neg hrange]
      simp
      omega

/-- Compiled logic names the conditions that the text numbers, in the order of the text. -/
theorem indicesOf_compile_eq {e : String} {count : Nat} {es : List Expr}
    (h : compile e count = .ok es) :
    indicesOf es = (textWords e.toList).filterMap (position? count) := by
  obtain ⟨ts, hparse, hindices⟩ := indicesOf_compile h
  obtain ⟨us, hus, hsome⟩ := exists_parse_of_compile h
  obtain rfl := Except.ok.inj (hparse.symm.trans hus)
  have hlogic := (exists_compile_iff hparse hsome count).mp ⟨es, h⟩
  rw [hindices, positionsOf_eq_flatMap, ← wordsOf_parse hparse,
    List.filterMap_eq_flatMap_toList]
  refine List.flatMap_congr fun w hw => ?_
  obtain ⟨list, hlist, hmem⟩ := exists_within_of_mem_wordsOf ts hw
  exact wordPositions_eq (Token.plainWords_parse hparse list hlist w hmem).2
    (hlogic.words list hlist w hmem)

/-! ## No empty conjunction -/

/-- The expression is one of them, or stands in one of them at some depth. -/
inductive Expr.Inside (e : Expr) : List Expr → Prop where
  /-- It is one of them. -/
  | member {es : List Expr} (h : e ∈ es) : e.Inside es
  /-- It stands in one of them. -/
  | deeper {c : Conjunction} {children es : List Expr} (hchild : e.Inside children)
      (hgroup : .group c children ∈ es) : e.Inside es

/-- Every conjunction at every depth is over a condition. -/
def Populated (es : List Expr) : Prop :=
  ∀ c children, (Expr.group c children).Inside es → indicesOf children ≠ []

theorem Expr.inside_append {e : Expr} {es fs : List Expr} :
    e.Inside (es ++ fs) ↔ e.Inside es ∨ e.Inside fs := by
  constructor
  · intro h
    cases h with
    | member h => exact (List.mem_append.mp h).imp .member .member
    | deeper hchild hgroup =>
        exact (List.mem_append.mp hgroup).imp (.deeper hchild) (.deeper hchild)
  · rintro (h | h)
    · cases h with
      | member h => exact .member (List.mem_append_left _ h)
      | deeper hchild hgroup => exact .deeper hchild (List.mem_append_left _ hgroup)
    · cases h with
      | member h => exact .member (List.mem_append_right _ h)
      | deeper hchild hgroup => exact .deeper hchild (List.mem_append_right _ hgroup)

namespace Populated

variable {es fs : List Expr}

theorem nil : Populated [] := by
  intro c children h
  cases h with
  | member h => cases h
  | deeper _ hgroup => cases hgroup

theorem append (hes : Populated es) (hfs : Populated fs) : Populated (es ++ fs) :=
  fun c children h => (Expr.inside_append.mp h).elim (hes c children) (hfs c children)

theorem condition (i : Nat) : Populated [.condition i] := by
  intro c children h
  cases h with
  | member h => cases List.mem_singleton.mp h
  | deeper _ hgroup => cases List.mem_singleton.mp hgroup

/-- Whatever there is names a condition. -/
theorem indicesOf_ne_nil (h : Populated es) (hsome : es ≠ []) : indicesOf es ≠ [] := by
  cases es with
  | nil => exact absurd rfl hsome
  | cons e rest =>
      have hfirst : e.indices ≠ [] := by
        cases e with
        | condition i => simp [Expr.indices]
        | group c children =>
            rw [Expr.indices]
            exact h c children (.member List.mem_cons_self)
      simp [indicesOf, hfirst]

theorem group (h : Populated es) (hsome : es ≠ []) (c : Conjunction) :
    Populated [.group c es] := by
  intro c' children hinside
  cases hinside with
  | member hgroup =>
      obtain ⟨-, rfl⟩ := Expr.group.inj (List.mem_singleton.mp hgroup)
      exact h.indicesOf_ne_nil hsome
  | deeper hchild hgroup =>
      obtain ⟨-, rfl⟩ := Expr.group.inj (List.mem_singleton.mp hgroup)
      exact h c' children hchild

end Populated

namespace Compiled

/-- What was read so far has no empty conjunction, but for the governing one. -/
structure Populated (s : Compiled) : Prop where
  /-- The finished expressions. -/
  base : Logic.Populated s.base
  /-- What is governed so far. -/
  governed : ∀ c children, s.governing = some (c, children) → Logic.Populated children

variable {s s' : Compiled}

/-- An empty conjunction is dropped where it ends. -/
theorem Populated.flush (h : s.Populated) : Logic.Populated s.flush := by
  unfold Compiled.flush
  split
  · exact h.base
  · rename_i c children hgoverning
    have hchildren := h.governed c children hgoverning
    split
    · exact h.base
    · rename_i hsome
      exact h.base.append (hchildren.group (by simpa using hsome) c)

theorem Populated.push (h : s.Populated) (i : Nat) : (s.push (.condition i)).Populated := by
  unfold Compiled.push
  split
  · exact ⟨h.base.append (.condition i), by simp⟩
  · rename_i c children hgoverning
    refine ⟨h.base, fun c' children' hsame => ?_⟩
    cases hsame
    exact (h.governed c children hgoverning).append (.condition i)

theorem Populated.word {count : Nat} {w : String} (h : s.Populated)
    (hword : s.word count w = .ok s') : s'.Populated := by
  unfold Compiled.word at hword
  split at hword
  · obtain rfl := Except.ok.inj hword
    refine ⟨h.flush, fun c children hsame => ?_⟩
    cases hsame
    exact .nil
  · split at hword
    · cases hword
    · obtain rfl := Except.ok.inj hword
      split
      · exact h
      · exact h.push _

end Compiled

mutual

theorem populated_compileToken (count : Nat) : ∀ (t : Token) (s s' : Compiled),
    s.Populated → compileToken count t s = .ok s' → s'.Populated
  | .word w => by
      intro s s' hs h
      rw [compileToken] at h
      exact hs.word h
  | .list block => by
      intro s s' hs h
      rw [compileToken] at h
      split at h
      · cases h
      · rename_i c children hgoverning
        split at h
        · cases h
        · rename_i inner hinner
          obtain rfl := Except.ok.inj h
          have hblock := populated_compileTokens count block ⟨children, none⟩ inner
            ⟨hs.governed c children hgoverning, by simp⟩ hinner
          refine ⟨hs.base, fun c' children' hsame => ?_⟩
          cases hsame
          exact hblock.flush

/-- Reading tokens leaves no empty conjunction behind. -/
theorem populated_compileTokens (count : Nat) : ∀ (ts : List Token) (s s' : Compiled),
    s.Populated → compileTokens count ts s = .ok s' → s'.Populated
  | [] => by
      intro s s' hs h
      obtain rfl := Except.ok.inj h
      exact hs
  | t :: rest => by
      intro s s' hs h
      rw [compileTokens] at h
      split at h
      · cases h
      · rename_i next hfirst
        exact populated_compileTokens count rest next s'
          (populated_compileToken count t s next hs hfirst) h

end

theorem populated_compile {e : String} {count : Nat} {es : List Expr}
    (h : compile e count = .ok es) : Populated es := by
  obtain ⟨ts, hparse, hsome⟩ := exists_parse_of_compile h
  rw [compile_eq_of_parse hparse hsome] at h
  cases hcompiled : compileTokens count ts ⟨[], none⟩ with
  | error e =>
      rw [hcompiled] at h
      cases h
  | ok s =>
      rw [hcompiled] at h
      obtain rfl := Except.ok.inj h
      exact (populated_compileTokens count ts _ s ⟨.nil, by simp⟩ hcompiled).flush

/-! ## Only entries are looked at -/

section Filling

variable {entries others : List Filling}

mutual

theorem Expr.fill_congr : ∀ e : Expr, (∀ i ∈ e.indices, entries[i]? = others[i]?) →
    e.fill entries = e.fill others
  | .condition i => by
      intro h
      rw [Expr.fill, Expr.fill, h i (by simp [Expr.indices])]
  | .group c children => by
      intro h
      rw [Expr.indices] at h
      funext g
      rw [Expr.fill, Expr.fill, fillEach_congr children h]

/-- Filling looks at the positions that are named, and at no others. -/
theorem fillEach_congr : ∀ es : List Expr, (∀ i ∈ indicesOf es, entries[i]? = others[i]?) →
    fillEach entries es = fillEach others es
  | [] => by
      intro _
      rw [fillEach, fillEach]
  | e :: rest => by
      intro h
      simp only [indicesOf, List.mem_append] at h
      rw [fillEach, fillEach, e.fill_congr fun i hi => h i (.inl hi),
        fillEach_congr rest fun i hi => h i (.inr hi)]

end

end Filling

/-- With nothing to name there is nothing that compiled logic could be made of. -/
theorem eq_nil_of_compile_zero {e : String} {es : List Expr} (h : compile e 0 = .ok es) :
    es = [] := by
  by_contra hsome
  obtain ⟨i, hi⟩ :=
    List.exists_mem_of_ne_nil _ ((populated_compile h).indicesOf_ne_nil hsome)
  exact absurd (indicesOf_lt_of_compile h i hi) (Nat.not_lt_zero i)

/-- The logic of a group is what its text is compiled to, also where the group asks for nothing. -/
theorem expressions_of_compile {g : ConditionGroup} {es : List Expr} (h : g.compile = .ok es) :
    g.expressions = .ok es := by
  unfold ConditionGroup.expressions
  split
  · rename_i hnothing
    rw [Bool.and_eq_true, List.isEmpty_iff] at hnothing
    rw [ConditionGroup.compile, ConditionGroup.compileLogic, hnothing.1] at h
    rw [eq_nil_of_compile_zero h]
  · exact h

/-- Compiled logic names exactly the conditions that its text numbers, in the order of the text
and as often as it numbers them. Every conjunction in it is over a condition, and every position
is one of a condition. So when a group of as many entries is filled in under this logic, it does
not matter what might stand behind its entries: only entries are looked at. -/
theorem compile_keeps_numbers {e : String} {count : Nat} {es : List Expr}
    (h : compile e count = .ok es) :
    indicesOf es = (textWords e.toList).filterMap (position? count) ∧
    (∀ c children, (Expr.group c children).Inside es → indicesOf children ≠ []) ∧
    (∀ i ∈ indicesOf es, i < count) ∧
    ∀ g : ConditionGroup, g.entries.length = count →
      g.logic.getD (defaultText g.conjunction count) = e → ∀ beyond : List Filling,
        g.fill = fillEach (ConditionEntry.fillings g.entries ++ beyond) es := by
  refine ⟨indicesOf_compile_eq h, populated_compile h, indicesOf_lt_of_compile h, ?_⟩
  rintro g rfl rfl beyond
  rw [ConditionGroup.fill_of_expressions (expressions_of_compile h)]
  refine fillEach_congr es fun i hi => ?_
  rw [List.getElem?_append_left]
  simpa [ConditionEntry.fillings_eq_map] using indicesOf_lt_of_compile h i hi

/-- Three conditions under a logic that names the first one twice. The third one stands under
conjunctions of its own, next to a number that numbers nothing. -/
def repeating : ConditionGroup :=
  ⟨[.condition (.eq "a" (.int 1)), .condition (.eq "b" (.int 2)), .condition (.ne "c" (.int 3))],
    some "OR(1,AND(0 02,+1,OR(9)),AND(4,OR(3)))", .and⟩

/-- The numbers 1, 2, 1 and 3 of the text are kept and 9 and 4 are not. An entry that fails might
as well stand behind the third. -/
theorem repeating_keeps_numbers : ∃ es,
    compile "OR(1,AND(0 02,+1,OR(9)),AND(4,OR(3)))" 3 = .ok es ∧ indicesOf es = [0, 1, 0, 2] ∧
    (∀ c children, (Expr.group c children).Inside es → indicesOf children ≠ []) ∧
    repeating.entries.length = 3 ∧
    repeating.logic.getD (defaultText repeating.conjunction 3) =
      "OR(1,AND(0 02,+1,OR(9)),AND(4,OR(3)))" ∧
    repeating.fill = fillEach
      (ConditionEntry.fillings repeating.entries ++ [throw (.invalidQuery .emptyLogic)]) es := by
  have hok : (compile "OR(1,AND(0 02,+1,OR(9)),AND(4,OR(3)))" 3).isOk = true := by
    decide +kernel
  have hcompile := eq_ok_of_isOk hok []
  obtain ⟨hindices, hpopulated, -, hfill⟩ := compile_keeps_numbers hcompile
  refine ⟨_, hcompile, ?_, hpopulated, rfl, rfl, hfill repeating rfl rfl _⟩
  rw [hindices]
  decide +kernel

end RecordGraph.Logic
