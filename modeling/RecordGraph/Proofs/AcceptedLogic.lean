/-
# What is accepted as condition logic

A text passes three layers before it is condition logic: the scanner, which looks at its
parentheses only; the walk over the nested list, which wants a conjunction before every list in
it; and the reading of single words. What all of them accept is said here without any of them:
balanced parentheses, something between them, words that are conjunctions or numbers, and the
place of the lists.

A number that numbers no condition is passed over, but a number must fit in a machine word to be
read at all. The main statement is `compile_accepts`.
-/
import RecordGraph.Logic.Expr
import RecordGraph.Proofs.NestedLists

namespace RecordGraph

/-! ## Conjunctions in any letter case -/

namespace Text

/-- The letters of the two conjunctions. -/
def conjunctionLetters : List Char := ['A', 'N', 'D', 'O', 'R']

theorem toUpper_of_large {c : Char} (h : 0x80 ≤ c.toNat) : c.toUpper = c := by
  refine dif_neg fun hlower => ?_
  have hsmall : c.toNat ≤ 122 := hlower.2
  omega

theorem toUpper_of_isDigit {c : Char} (h : c.isDigit = true) : c.toUpper = c := by
  rw [Char.isDigit, Bool.and_eq_true, decide_eq_true_eq, decide_eq_true_eq] at h
  refine dif_neg fun hlower => ?_
  have hsmall : c.toNat ≤ 57 := h.2
  have hlarge : 97 ≤ c.toNat := hlower.1
  omega

theorem not_mem_conjunctionLetters {c : Char} (h : 82 < c.toNat) : c ∉ conjunctionLetters := by
  -- As a test over the list. Decided as a statement on characters, all of them would be tried.
  have hletters : conjunctionLetters.all (fun d => d.toNat ≤ 82) = true := by decide
  intro hc
  have hsmall := of_decide_eq_true (List.all_eq_true.mp hletters c hc)
  omega

/-- A run of the table leads past the letters of the conjunctions, except that the small dotless
i leads to the capital I. -/
theorem target_upperRuns {r : CaseRun} (hr : r ∈ upperRuns) {n m : Nat}
    (h : r.target? n = some m) : 82 < m ∨ m = 73 := by
  have htable : ∀ r ∈ upperRuns, 82 < r.first + r.shift ∨
      (r.first = r.last ∧ r.first + r.shift = 73) := by
    decide +kernel
  unfold CaseRun.target? at h
  split at h
  · rename_i hrange
    simp only [Bool.and_eq_true, decide_eq_true_eq] at hrange
    have hm := Option.some.inj h
    have hcase := htable r hr
    omega
  · cases h

/-- Outside ASCII no character has an upper case within the letters of the conjunctions. -/
theorem exists_mem_upperChar {c : Char} (h : 0x80 ≤ c.toNat) :
    ∃ d ∈ upperChar c, d ∉ conjunctionLetters := by
  rw [upperChar, if_neg (by omega), mapCase]
  split
  · rename_i e hfound
    have htable : ∀ e ∈ upperSpecials, ∃ k ∈ e.2, Char.ofNat k ∉ conjunctionLetters := by
      decide +kernel
    obtain ⟨k, hk, hletter⟩ := htable e (List.mem_of_find?_eq_some hfound)
    exact ⟨_, List.mem_map_of_mem hk, hletter⟩
  · split
    · rename_i n hfound
      obtain ⟨r, hr, htarget⟩ := List.exists_of_findSome?_eq_some hfound
      refine ⟨_, List.mem_singleton_self _, ?_⟩
      rcases target_upperRuns hr htarget with hlarge | rfl
      · by_cases hvalid : n.isValidChar
        · have hnumber : (Char.ofNat n).toNat = n := by
            rw [Char.ofNat, dif_pos hvalid]
            rfl
          exact not_mem_conjunctionLetters (hnumber.symm ▸ hlarge)
        · rw [Char.ofNat, dif_neg hvalid]
          decide
      · decide
    · exact ⟨c, List.mem_singleton_self c, not_mem_conjunctionLetters (by omega)⟩

theorem upperChar_of_small {c : Char} (h : ¬ 0x80 ≤ c.toNat) : upperChar c = [c.toUpper] := by
  rw [upperChar, if_pos (by omega)]

/-- To spell letters of the conjunctions, ASCII is all there is. -/
theorem flatMap_upperChar_eq_iff {cs letters : List Char}
    (hletters : ∀ d ∈ letters, d ∈ conjunctionLetters) :
    cs.flatMap upperChar = letters ↔ cs.map Char.toUpper = letters := by
  have hsmall (h : ∀ c ∈ cs, ¬ 0x80 ≤ c.toNat) : cs.flatMap upperChar = cs.map Char.toUpper := by
    rw [List.map_eq_flatMap]
    exact List.flatMap_congr fun c hc => upperChar_of_small (h c hc)
  constructor
  · intro h
    rw [← hsmall, h]
    intro c hc hlarge
    obtain ⟨d, hd, hother⟩ := exists_mem_upperChar hlarge
    exact hother (hletters d (h ▸ List.mem_flatMap_of_mem hc hd))
  · intro h
    rw [hsmall, h]
    intro c hc hlarge
    have hmem := hletters _ (h ▸ List.mem_map_of_mem hc)
    rw [toUpper_of_large hlarge] at hmem
    exact not_mem_conjunctionLetters (by omega) hmem

theorem trimChars_of_no_blanks {cs : List Char} (h : ∀ c ∈ cs, isBlank c = false) :
    trimChars cs = cs := by
  have hkeep : ∀ ds : List Char, (∀ d ∈ ds, isBlank d = false) → ds.dropWhile isBlank = ds := by
    intro ds hds
    cases ds with
    | nil => rfl
    | cons d rest => exact List.dropWhile_cons_of_neg (by simp [hds d List.mem_cons_self])
  rw [trimChars, hkeep cs h, hkeep cs.reverse fun d hd => h d (List.mem_reverse.mp hd),
    List.reverse_reverse]

/-! ## Numbers -/

theorem digit?_of_isDigit {c : Char} (h : c.isDigit = true) :
    digit? c = some (c.toNat - '0'.toNat) := by
  rw [Char.isDigit, Bool.and_eq_true, decide_eq_true_eq, decide_eq_true_eq] at h
  have hrange : '0' ≤ c ∧ c ≤ '9' := ⟨h.1, h.2⟩
  simp [digit?, hrange]

/-- Digits spell the number that they stand for in base ten. -/
theorem digitsFrom?_eq_some {cs : List Char} (h : ∀ c ∈ cs, c.isDigit = true) (n : Nat) :
    digitsFrom? n cs = some (Nat.ofDigitChars 10 cs n) := by
  induction cs generalizing n with
  | nil => rfl
  | cons c rest ih =>
      rw [digitsFrom?, digit?_of_isDigit (h c (by simp)), Option.bind_some,
        ih fun d hd => h d (by simp [hd])]
      rfl

theorem isDigit_of_digit? {c : Char} {d : Nat} (h : digit? c = some d) : c.isDigit = true := by
  unfold digit? at h
  split at h
  · rename_i hrange
    exact hrange
  · cases h

theorem isDigit_of_digitsFrom? {cs : List Char} {n m : Nat} (h : digitsFrom? n cs = some m) :
    ∀ c ∈ cs, c.isDigit = true := by
  induction cs generalizing n with
  | nil => exact fun c hc => absurd hc List.not_mem_nil
  | cons c rest ih =>
      rw [digitsFrom?, Option.bind_eq_some_iff] at h
      obtain ⟨d, hdigit, hrest⟩ := h
      exact List.forall_mem_cons.mpr ⟨isDigit_of_digit? hdigit, ih hrest⟩

theorem digits?_eq_some_iff {cs : List Char} {n : Nat} : digits? cs = some n ↔
    cs ≠ [] ∧ (∀ c ∈ cs, c.isDigit = true) ∧ n = Nat.ofDigitChars 10 cs 0 := by
  cases hcs : cs with
  | nil => simp [digits?]
  | cons c rest =>
      rw [← hcs, digits?, if_neg (by simp [hcs])]
      constructor
      · intro h
        have hdigits := isDigit_of_digitsFrom? h
        rw [digitsFrom?_eq_some hdigits] at h
        exact ⟨by simp [hcs], hdigits, (Option.some.inj h).symm⟩
      · rintro ⟨-, hdigits, rfl⟩
        exact digitsFrom?_eq_some hdigits 0

/-- The text writes the number in decimal digits, with a plus sign in front or without. -/
def Writes (n : Nat) (w : String) : Prop :=
  ∃ digits : List Char, digits ≠ [] ∧ (∀ d ∈ digits, d.isDigit = true) ∧
    n = Nat.ofDigitChars 10 digits 0 ∧ (w.toList = digits ∨ w.toList = '+' :: digits)

theorem numeral?_eq_some_iff {w : String} {n : Nat} :
    numeral? w.toList = some n ↔ Writes n w := by
  unfold numeral? Writes
  split
  · rename_i rest hplus
    rw [digits?_eq_some_iff]
    constructor
    · rintro ⟨hsome, hdigits, hn⟩
      exact ⟨rest, hsome, hdigits, hn, .inr hplus⟩
    · rintro ⟨digits, hsome, hdigits, hn, hw | hw⟩
      · have hsign : '+'.isDigit = true := hdigits _ (hw ▸ hplus ▸ List.mem_cons_self)
        exact absurd hsign (by decide)
      · obtain rfl := List.tail_eq_of_cons_eq (hplus.symm.trans hw)
        exact ⟨hsome, hdigits, hn⟩
  · rename_i hbare
    rw [digits?_eq_some_iff]
    constructor
    · rintro ⟨hsome, hdigits, hn⟩
      exact ⟨_, hsome, hdigits, hn, .inl rfl⟩
    · rintro ⟨digits, hsome, hdigits, hn, hw | hw⟩
      · exact hw ▸ ⟨hsome, hdigits, hn⟩
      · exact absurd hw (hbare digits)

/-- The numbers that are read are those that are written and fit in a machine word. -/
theorem word?_eq_some_iff {w : String} {n : Nat} :
    word? w = some n ↔ Writes n w ∧ n ≤ wordMax := by
  rw [word?, Option.bind_eq_some_iff]
  constructor
  · rintro ⟨m, hnumeral, hfits⟩
    split at hfits
    · obtain rfl := Option.some.inj hfits
      exact ⟨numeral?_eq_some_iff.mp hnumeral, by assumption⟩
    · cases hfits
  · rintro ⟨hwrites, hfits⟩
    exact ⟨n, numeral?_eq_some_iff.mpr hwrites, if_pos hfits⟩

end Text

namespace Logic

/-- The word is a conjunction in any letter case. -/
def NamesConjunction (w : String) : Prop :=
  ∃ c : Conjunction, w.toList.map Char.toUpper = c.text.toList

/-- Within a nested list, what is read as a conjunction is one written in ASCII. -/
theorem exists_conjunction_iff {w : String} (hplain : ∀ c ∈ w.toList, IsPlain c) :
    (∃ c, Conjunction.parse? w = some c) ↔ NamesConjunction w := by
  have hspelling : ∀ c : Conjunction, Text.upper (Text.trim w) = c.text ↔
      w.toList.map Char.toUpper = c.text.toList := by
    intro c
    have hletters : c.text.toList ⊆ Text.conjunctionLetters := by
      cases c <;> decide
    rw [← Text.flatMap_upperChar_eq_iff hletters, Text.upper, Text.trim, String.toList_ofList,
      Text.trimChars_of_no_blanks fun d hd => (hplain d hd).2.2.2, ← String.toList_inj,
      String.toList_ofList]
  unfold NamesConjunction Conjunction.parse?
  simp only [← hspelling]
  constructor
  · rintro ⟨c, hparse⟩
    split at hparse
    · exact ⟨.and, by assumption⟩
    · split at hparse
      · exact ⟨.or, by assumption⟩
      · cases hparse
  · rintro ⟨c, hc⟩
    cases c with
    | and => exact ⟨.and, if_pos hc⟩
    | or =>
        refine ⟨.or, ?_⟩
        rw [hc]
        decide

theorem not_namesConjunction_of_writes {n : Nat} {w : String} (h : Text.Writes n w) :
    ¬ NamesConjunction w := by
  rintro ⟨c, hc⟩
  obtain ⟨digits, hsome, hdigits, -, hw⟩ := h
  obtain ⟨d, hd⟩ := List.exists_mem_of_ne_nil digits hsome
  have hmem : d ∈ w.toList := by
    rcases hw with hw | hw
    · exact hw ▸ hd
    · exact hw ▸ List.mem_cons_of_mem _ hd
  have hletter : d.toUpper ∈ c.text.toList := hc ▸ List.mem_map_of_mem hmem
  rw [Text.toUpper_of_isDigit (hdigits d hd)] at hletter
  have hletters : c.text.toList.all (fun d => !d.isDigit) = true := by
    cases c <;> decide
  have hdigit := List.all_eq_true.mp hletters d hletter
  rw [hdigits d hd] at hdigit
  cases hdigit

/-- What writes a number is read as one. -/
theorem parse?_of_writes {n : Nat} {w : String} (hplain : ∀ c ∈ w.toList, IsPlain c)
    (h : Text.Writes n w) : Conjunction.parse? w = none := by
  cases hparse : Conjunction.parse? w with
  | none => rfl
  | some c =>
      exact absurd ((exists_conjunction_iff hplain).mp ⟨c, hparse⟩)
        (not_namesConjunction_of_writes h)

/-! ## The language -/

/-- Every word is a conjunction or an allowed number, and within its own list every list comes
after a conjunction. -/
structure IsLogic (allowed : Nat → Prop) (ts : List Token) : Prop where
  /-- The words at every depth. -/
  words : ∀ list, Within list ts → ∀ w, .word w ∈ list →
    NamesConjunction w ∨ ∃ n, Text.Writes n w ∧ allowed n
  /-- The lists at every depth. -/
  blocks : ∀ before block after, Within (before ++ .list block :: after) ts →
    ∃ w, .word w ∈ before ∧ NamesConjunction w

/-- The second list is the first without some of the words that may be dropped, at any depth. -/
inductive LeavesOut (drop : String → Prop) : List Token → List Token → Prop where
  /-- Nothing of nothing. -/
  | nil : LeavesOut drop [] []
  /-- A word is left out. -/
  | dropped {w : String} {ts us : List Token} (hw : drop w) (h : LeavesOut drop ts us) :
      LeavesOut drop (.word w :: ts) us
  /-- A word stays. -/
  | word (w : String) {ts us : List Token} (h : LeavesOut drop ts us) :
      LeavesOut drop (.word w :: ts) (.word w :: us)
  /-- A list stays, without some of its words. -/
  | list {block left ts us : List Token} (hblock : LeavesOut drop block left)
      (h : LeavesOut drop ts us) : LeavesOut drop (.list block :: ts) (.list left :: us)

/-- The rest of a list is condition logic, behind a conjunction or not. -/
structure Continues (allowed : Nat → Prop) (governed : Prop) (ts : List Token) : Prop where
  /-- The words of the list itself. -/
  words : ∀ w, .word w ∈ ts → NamesConjunction w ∨ ∃ n, Text.Writes n w ∧ allowed n
  /-- The place of its lists. -/
  blocks : ∀ before block after, ts = before ++ .list block :: after →
    governed ∨ ∃ w, .word w ∈ before ∧ NamesConjunction w
  /-- What its lists hold. -/
  inner : ∀ block, .list block ∈ ts → IsLogic allowed block

theorem isLogic_iff_continues {allowed : Nat → Prop} {ts : List Token} :
    IsLogic allowed ts ↔ Continues allowed False ts := by
  constructor
  · intro h
    refine ⟨h.words ts (.self ts), ?_, fun block hblock =>
      ⟨fun list hlist => h.words list (hlist.nested hblock),
        fun before inner after hwithin => h.blocks before inner after (hwithin.nested hblock)⟩⟩
    rintro before block after rfl
    exact .inr (h.blocks before block after (.self _))
  · intro h
    refine ⟨fun list hlist => ?_, fun before block after hlist => ?_⟩
    · cases hlist with
      | self => exact h.words
      | nested hinner hblock => exact (h.inner _ hblock).words list hinner
    · cases hlist with
      | self => exact (h.blocks before block after rfl).resolve_left id
      | nested hinner hblock => exact (h.inner _ hblock).blocks before block after hinner

namespace Continues

variable {allowed : Nat → Prop} {governed : Prop} {ts : List Token}

theorem nil : Continues allowed governed [] :=
  ⟨fun _ h => absurd h List.not_mem_nil, fun _ _ _ h => absurd h (by simp),
    fun _ h => absurd h List.not_mem_nil⟩

/-- A conjunction governs what follows it. -/
theorem word_iff {w : String} : Continues allowed governed (.word w :: ts) ↔
    (NamesConjunction w ∨ ∃ n, Text.Writes n w ∧ allowed n) ∧
      Continues allowed (governed ∨ NamesConjunction w) ts := by
  constructor
  · intro h
    refine ⟨h.words w List.mem_cons_self, fun v hv => h.words v (List.mem_cons_of_mem _ hv), ?_,
      fun block hblock => h.inner block (List.mem_cons_of_mem _ hblock)⟩
    rintro before block after rfl
    rcases h.blocks (.word w :: before) block after rfl with hgoverned | ⟨v, hv, hnames⟩
    · exact .inl (.inl hgoverned)
    · rcases List.mem_cons.mp hv with heq | hv
      · exact .inl (.inr (Token.word.inj heq ▸ hnames))
      · exact .inr ⟨v, hv, hnames⟩
  · rintro ⟨hword, h⟩
    refine ⟨fun v hv => ?_, fun before block after heq => ?_, fun block hblock => ?_⟩
    · rcases List.mem_cons.mp hv with heq | hv
      · exact Token.word.inj heq ▸ hword
      · exact h.words v hv
    · cases before with
      | nil => cases heq
      | cons first rest =>
          obtain ⟨rfl, hrest⟩ := List.cons.inj heq
          rcases h.blocks rest block after hrest with (hgoverned | hnames) | ⟨v, hv, hnames⟩
          · exact .inl hgoverned
          · exact .inr ⟨w, List.mem_cons_self, hnames⟩
          · exact .inr ⟨v, List.mem_cons_of_mem _ hv, hnames⟩
    · rcases List.mem_cons.mp hblock with heq | hblock
      · cases heq
      · exact h.inner block hblock

/-- A list is wanted only where something governs it. -/
theorem list_iff {block : List Token} : Continues allowed governed (.list block :: ts) ↔
    governed ∧ IsLogic allowed block ∧ Continues allowed governed ts := by
  constructor
  · intro h
    refine ⟨?_, h.inner block List.mem_cons_self,
      fun v hv => h.words v (List.mem_cons_of_mem _ hv), ?_,
      fun inner hinner => h.inner inner (List.mem_cons_of_mem _ hinner)⟩
    · exact (h.blocks [] block ts rfl).resolve_right (by simp)
    · rintro before inner after rfl
      rcases h.blocks (.list block :: before) inner after rfl with hgoverned | ⟨v, hv, hnames⟩
      · exact .inl hgoverned
      · exact .inr ⟨v, List.mem_of_ne_of_mem (by simp) hv, hnames⟩
  · rintro ⟨hgoverned, hblock, h⟩
    refine ⟨fun v hv => h.words v (List.mem_of_ne_of_mem (by simp) hv),
      fun _ _ _ _ => .inl hgoverned, fun inner hinner => ?_⟩
    rcases List.mem_cons.mp hinner with heq | hinner
    · exact Token.list.inj heq ▸ hblock
    · exact h.inner inner hinner

end Continues

/-! ## The walk over the tokens -/

namespace Compiled

variable {count : Nat} {s s' : Compiled} {w : String}

/-- A word is compiled if it is a conjunction or a number that fits. -/
theorem exists_word_iff (hplain : ∀ c ∈ w.toList, IsPlain c) :
    (∃ s', s.word count w = .ok s') ↔
      NamesConjunction w ∨ ∃ n, Text.Writes n w ∧ n ≤ Text.wordMax := by
  rw [← exists_conjunction_iff hplain]
  simp only [← Text.word?_eq_some_iff]
  unfold word
  cases Conjunction.parse? w with
  | some c => simp
  | none => cases Text.word? w <;> simp

theorem isSome_governing_push (e : Expr) :
    (s.push e).governing.isSome = s.governing.isSome := by
  obtain ⟨base, governing⟩ := s
  cases governing <;> rfl

/-- Behind a conjunction everything is governed. -/
theorem governing_word (hplain : ∀ c ∈ w.toList, IsPlain c) (h : s.word count w = .ok s') :
    s'.governing.isSome ↔ s.governing.isSome ∨ NamesConjunction w := by
  rw [← exists_conjunction_iff hplain]
  unfold word at h
  cases hparse : Conjunction.parse? w with
  | some c =>
      simp only [hparse, Except.ok.injEq] at h
      simp [← h]
  | none =>
      cases hnumber : Text.word? w with
      | none => simp [hparse, hnumber] at h
      | some n =>
          simp only [hparse, hnumber, Except.ok.injEq] at h
          rw [← h]
          split
          · simp
          · simp [isSome_governing_push]

end Compiled

/-- A list goes to what governs it and leaves it open. -/
theorem isSome_governing_block {count : Nat} {block : List Token} {s s' : Compiled}
    (h : compileToken count (.list block) s = .ok s') :
    s'.governing.isSome = s.governing.isSome := by
  rw [compileToken] at h
  cases hgoverning : s.governing with
  | none => simp [hgoverning] at h
  | some held =>
      obtain ⟨c, children⟩ := held
      simp only [hgoverning] at h
      split at h
      · cases h
      · obtain rfl := Except.ok.inj h
        rfl

mutual

/-- A list is compiled where something governs it, and nothing else governs what follows. -/
theorem exists_compile_block (count : Nat) : ∀ (block : List Token) (s : Compiled),
    PlainWords block → ((∃ s', compileToken count (.list block) s = .ok s') ↔
      s.governing.isSome ∧ IsLogic (· ≤ Text.wordMax) block)
  | block, s, hplain => by
      rw [isLogic_iff_continues]
      cases hgoverning : s.governing with
      | none => simp [compileToken, hgoverning]
      | some held =>
          obtain ⟨c, children⟩ := held
          have hinner := exists_compileTokens_iff count block ⟨children, none⟩ hplain
          simp only [Option.isSome_none, Bool.false_eq_true] at hinner
          rw [← hinner, compileToken, hgoverning]
          cases hcompiled : compileTokens count block ⟨children, none⟩ <;> simp [hcompiled]

/-- The walk goes through exactly on what continues the list that it is in. -/
theorem exists_compileTokens_iff (count : Nat) : ∀ (ts : List Token) (s : Compiled),
    PlainWords ts → ((∃ s', compileTokens count ts s = .ok s') ↔
      Continues (· ≤ Text.wordMax) s.governing.isSome ts)
  | [], s, _ => iff_of_true ⟨s, rfl⟩ .nil
  | .word w :: rest, s, hplain => by
      have hchars := (hplain.word List.mem_cons_self).2
      have hrest := hplain.of_subset (List.subset_cons_self _ _)
      rw [Continues.word_iff, ← Compiled.exists_word_iff hchars (s := s), compileTokens,
        compileToken]
      cases hword : s.word count w with
      | error e => simp
      | ok next =>
          have hgoverned := Compiled.governing_word hchars hword
          simp only [exists_compileTokens_iff count rest next hrest, hgoverned]
          simp
  | .list block :: rest, s, hplain => by
      have hblock := exists_compile_block count block s (hplain.list List.mem_cons_self)
      have hrest := hplain.of_subset (List.subset_cons_self _ _)
      rw [Continues.list_iff, ← and_assoc, ← hblock, compileTokens]
      cases hcompiled : compileToken count (.list block) s with
      | error e => simp
      | ok next =>
          have hsame := isSome_governing_block hcompiled
          simp only [exists_compileTokens_iff count rest next hrest, hsame]
          simp

end

/-! ## What is passed over -/

/-- A word is passed over if it writes a number without a condition. -/
def NumbersNothing (count : Nat) (w : String) : Prop :=
  ∃ n, Text.Writes n w ∧ n ≤ Text.wordMax ∧ (n = 0 ∨ count < n)

theorem Compiled.word_of_numbersNothing {count : Nat} {w : String}
    (hplain : ∀ c ∈ w.toList, IsPlain c) (h : NumbersNothing count w) (s : Compiled) :
    s.word count w = .ok s := by
  obtain ⟨n, hwrites, hfits, hnone⟩ := h
  have hpast : (n = 0 || count < n) = true := by
    simpa using hnone
  rw [word, parse?_of_writes hplain hwrites, Text.word?_eq_some_iff.mpr ⟨hwrites, hfits⟩]
  simp [hpast]

/-- What numbers nothing leaves the walk where it was. -/
theorem compileTokens_of_leavesOut {count : Nat} {ts us : List Token}
    (h : LeavesOut (NumbersNothing count) ts us) (hplain : PlainWords ts) (s : Compiled) :
    compileTokens count us s = compileTokens count ts s := by
  induction h generalizing s with
  | nil => rfl
  | dropped hw h ih =>
      rw [ih (hplain.of_subset (List.subset_cons_self _ _)), compileTokens, compileToken,
        Compiled.word_of_numbersNothing (hplain.word List.mem_cons_self).2 hw]
  | word w h ih =>
      rw [compileTokens, compileTokens]
      cases compileToken count (.word w) s with
      | error e => rfl
      | ok next => exact ih (hplain.of_subset (List.subset_cons_self _ _)) next
  | list hblock h ihblock ih =>
      have hsame := ihblock (hplain.list List.mem_cons_self)
      have hrest := ih (hplain.of_subset (List.subset_cons_self _ _))
      simp only [compileTokens, compileToken, hsame, hrest]

/-! ## From texts -/

theorem compile_eq_of_parse {e : String} {ts : List Token} (hparse : Token.parse e = .ok ts)
    (hsome : ts ≠ []) (count : Nat) :
    compile e count = (compileTokens count ts ⟨[], none⟩).map Compiled.flush := by
  have hnotBlank : Text.isBlankText e = false := by
    refine Bool.eq_false_iff.mpr fun hblank => hsome ?_
    exact Except.ok.inj (hparse.symm.trans (Token.parse_of_blank hblank))
  rw [compile, if_neg (by simp [hnotBlank]), hparse]
  cases ts with
  | nil => exact absurd rfl hsome
  | cons t rest => rfl

/-- What is compiled was read, and something was there. -/
theorem exists_parse_of_compile {e : String} {count : Nat} {es : List Expr}
    (h : compile e count = .ok es) : ∃ ts, Token.parse e = .ok ts ∧ ts ≠ [] := by
  unfold compile at h
  split at h
  · cases h
  · split at h
    · cases h
    · cases h
    · rename_i ts hsome hparse
      exact ⟨ts, hparse, fun hnil => hsome (hnil ▸ rfl)⟩

/-- What was read is compiled if it is condition logic. -/
theorem exists_compile_iff {e : String} {ts : List Token} (hparse : Token.parse e = .ok ts)
    (hsome : ts ≠ []) (count : Nat) :
    (∃ es, compile e count = .ok es) ↔ IsLogic (· ≤ Text.wordMax) ts := by
  have hwalk := exists_compileTokens_iff count ts ⟨[], none⟩ (Token.plainWords_parse hparse)
  simp only [Option.isSome_none, Bool.false_eq_true] at hwalk
  rw [isLogic_iff_continues, ← hwalk, compile_eq_of_parse hparse hsome]
  cases compileTokens count ts ⟨[], none⟩ <;> simp [Except.map]

/-- A text is condition logic if its parentheses balance, if something stands between them, and
if that is built of conjunctions and of numbers that fit in a machine word, with a conjunction
before every list. A number that fits but numbers no condition may as well be left out. -/
theorem compile_accepts (e : String) (count : Nat) :
    ((∃ es, compile e count = .ok es) ↔ Balanced e.toList ∧
      ∃ ts, Token.parse e = .ok ts ∧ ts ≠ [] ∧ IsLogic (· ≤ Text.wordMax) ts) ∧
    ∀ shorter ts us, Token.parse e = .ok ts → Token.parse shorter = .ok us → us ≠ [] →
      LeavesOut (NumbersNothing count) ts us → compile shorter count = compile e count := by
  constructor
  · constructor
    · rintro ⟨es, hcompile⟩
      obtain ⟨ts, hparse, hsome⟩ := exists_parse_of_compile hcompile
      exact ⟨(Token.exists_parse_iff e).mp ⟨ts, hparse⟩, ts, hparse, hsome,
        (exists_compile_iff hparse hsome count).mp ⟨es, hcompile⟩⟩
    · rintro ⟨-, ts, hparse, hsome, hlogic⟩
      exact (exists_compile_iff hparse hsome count).mpr hlogic
  · intro shorter ts us hparse hshorter hsome hleft
    have hsomeBefore : ts ≠ [] := by
      rintro rfl
      cases hleft
      exact hsome rfl
    rw [compile_eq_of_parse hparse hsomeBefore, compile_eq_of_parse hshorter hsome,
      compileTokens_of_leavesOut hleft (Token.plainWords_parse hparse)]

/-- Both conditions, the second in a list of its own, and a number without a condition. -/
def scattered : List Token := [.word "And", .word "1", .word "007", .list [.word "+2"]]

theorem parse_scattered : Token.parse "And(1,007,(+2))" = .ok scattered :=
  Token.parse_eq_ok_iff.mpr ⟨⟨[], [.list scattered], []⟩, rfl, rfl, rfl⟩

theorem isLogic_scattered : IsLogic (· ≤ Text.wordMax) scattered := by
  have hand : NamesConjunction "And" := ⟨.and, by decide⟩
  have hnumber : ∀ w ∈ ["1", "007", "+2"], ∃ n, Text.Writes n w ∧ n ≤ Text.wordMax := by
    have hread : ∀ w ∈ ["1", "007", "+2"], (Text.word? w).isSome := by
      decide +kernel
    intro w hw
    obtain ⟨n, hn⟩ := Option.isSome_iff_exists.mp (hread w hw)
    exact ⟨n, Text.word?_eq_some_iff.mp hn⟩
  have hlast : IsLogic (· ≤ Text.wordMax) [.word "+2"] :=
    isLogic_iff_continues.mpr (Continues.word_iff.mpr ⟨.inr (hnumber "+2" (by simp)), .nil⟩)
  refine isLogic_iff_continues.mpr (Continues.word_iff.mpr ⟨.inl hand, ?_⟩)
  refine Continues.word_iff.mpr ⟨.inr (hnumber "1" (by simp)), ?_⟩
  refine Continues.word_iff.mpr ⟨.inr (hnumber "007" (by simp)), ?_⟩
  exact Continues.list_iff.mpr ⟨.inl (.inl (.inr hand)), hlast, .nil⟩

/-- Two conditions are there, so the seventh number may as well be left out. -/
theorem scattered_accepted :
    (Token.parse "And(1,007,(+2))" = .ok scattered ∧ IsLogic (· ≤ Text.wordMax) scattered ∧
      ∃ es, compile "And(1,007,(+2))" 2 = .ok es) ∧
    LeavesOut (NumbersNothing 2) scattered [.word "And", .word "1", .list [.word "+2"]] ∧
    compile "And(1,(+2))" 2 = compile "And(1,007,(+2))" 2 := by
  obtain ⟨haccepted, hignored⟩ := compile_accepts "And(1,007,(+2))" 2
  have hbalanced := (Token.exists_parse_iff _).mp ⟨_, parse_scattered⟩
  have hshorter : Token.parse "And(1,(+2))" =
      .ok [.word "And", .word "1", .list [.word "+2"]] :=
    Token.parse_eq_ok_iff.mpr
      ⟨⟨[], [.list [.word "And", .word "1", .list [.word "+2"]]], []⟩, rfl, rfl, rfl⟩
  have hseven : NumbersNothing 2 "007" :=
    ⟨7, Text.numeral?_eq_some_iff.mp rfl, by decide, .inr (by decide)⟩
  have hleft : LeavesOut (NumbersNothing 2) scattered
      [.word "And", .word "1", .list [.word "+2"]] :=
    .word "And" (.word "1" (.dropped hseven (.list (.word "+2" .nil) .nil)))
  exact ⟨⟨parse_scattered, isLogic_scattered, haccepted.mpr
      ⟨hbalanced, scattered, parse_scattered, by simp [scattered], isLogic_scattered⟩⟩,
    hleft, hignored _ _ _ parse_scattered hshorter (by simp) hleft⟩

/-- The number after the largest of a machine word numbers no condition either, but it is
refused. -/
theorem large_number_refused :
    ¬ ((∃ es, compile "AND(1,18446744073709551616)" 1 = .ok es) ↔
      Balanced "AND(1,18446744073709551616)".toList ∧
        ∃ ts, Token.parse "AND(1,18446744073709551616)" = .ok ts ∧ ts ≠ [] ∧
          IsLogic (fun _ => True) ts) := by
  have hparse : Token.parse "AND(1,18446744073709551616)" =
      .ok [.word "AND", .word "1", .word "18446744073709551616"] :=
    Token.parse_eq_ok_iff.mpr
      ⟨⟨[], [.list [.word "AND", .word "1", .word "18446744073709551616"]], []⟩, rfl, rfl, rfl⟩
  have hone : Text.Writes 1 "1" := Text.numeral?_eq_some_iff.mp rfl
  have hlarge : Text.Writes 18446744073709551616 "18446744073709551616" :=
    Text.numeral?_eq_some_iff.mp (by decide +kernel)
  intro h
  obtain ⟨es, hcompile⟩ := h.mpr ⟨(Token.exists_parse_iff _).mp ⟨_, hparse⟩, _, hparse, by simp,
    isLogic_iff_continues.mpr (Continues.word_iff.mpr ⟨.inl ⟨.and, by decide⟩,
      Continues.word_iff.mpr ⟨.inr ⟨1, hone, trivial⟩,
        Continues.word_iff.mpr ⟨.inr ⟨_, hlarge, trivial⟩, .nil⟩⟩⟩)⟩
  have hlogic := (exists_compile_iff hparse (by simp) 1).mp ⟨es, hcompile⟩
  rcases hlogic.words _ (.self _) "18446744073709551616" (by simp) with hnames | ⟨n, hn⟩
  · exact not_namesConjunction_of_writes hlarge hnames
  · have hread : Text.word? "18446744073709551616" = none := by
      decide +kernel
    rw [Text.word?_eq_some_iff.mpr hn] at hread
    cases hread

end Logic

end RecordGraph
