/-
# Reading nested lists

The scanner goes over a text once, with the lists that are open on a stack. It stops only at a
closing parenthesis that closes nothing, so the texts that are read are those whose parentheses
balance. Blanks do not reach the lists, and parentheses around a whole text are taken away.

Reading undoes writing: however a list is spelled, with its first word inside its parentheses or
in front of them, it is read back. What is lost are only the lists that enclose everything. The
main statement is `parse_reads_spelled`.
-/
import Mathlib.Data.List.Infix
import RecordGraph.Logic.Token

namespace RecordGraph.Logic

/-! ## What is written and what is read -/

/-- Every prefix opens at least as many lists as it closes, and in the end all are closed. -/
def Balanced (cs : List Char) : Prop :=
  (∀ before, before <+: cs → before.count ')' ≤ before.count '(') ∧ cs.count '(' = cs.count ')'

/-- The lists at every depth: the list itself and all that are nested in it. -/
inductive Within : List Token → List Token → Prop where
  /-- The list itself. -/
  | self (ts : List Token) : Within ts ts
  /-- A list at some depth of one of its elements. -/
  | nested {inner block ts : List Token} (hinner : Within inner block)
      (hblock : .list block ∈ ts) : Within inner ts

/-- The character is part of a word wherever it stands. -/
def IsPlain (c : Char) : Prop := c ≠ '(' ∧ c ≠ ')' ∧ c ≠ ',' ∧ Text.isBlank c = false

/-- The words at every depth have characters, and only such as stand for themselves. -/
def PlainWords (ts : List Token) : Prop :=
  ∀ inner, Within inner ts → ∀ w, .word w ∈ inner → w.toList ≠ [] ∧ ∀ c ∈ w.toList, IsPlain c

mutual

/-- The texts that write a token. A list whose first element is a word may have this word in
front of its parentheses. -/
inductive Token.Spelled : Token → List Char → Prop where
  /-- A word stands for itself. -/
  | word (w : String) : Token.Spelled (.word w) w.toList
  /-- A list in parentheses. -/
  | list {ts : List Token} {cs : List Char} (h : SpelledAll ts cs) :
      Token.Spelled (.list ts) ('(' :: (cs ++ [')']))
  /-- A list with its first word in front. -/
  | headed (w : String) {ts : List Token} {cs : List Char} (h : SpelledAll ts cs) :
      Token.Spelled (.list (.word w :: ts)) (w.toList ++ '(' :: (cs ++ [')']))

/-- The texts that write several tokens, with commas between them. -/
inductive SpelledAll : List Token → List Char → Prop where
  /-- Nothing. -/
  | nil : SpelledAll [] []
  /-- A token on its own. -/
  | single {t : Token} {cs : List Char} (h : t.Spelled cs) : SpelledAll [t] cs
  /-- A token before others. -/
  | cons {t u : Token} {rest : List Token} {cs ds : List Char} (h : t.Spelled cs)
      (hrest : SpelledAll (u :: rest) ds) : SpelledAll (t :: u :: rest) (cs ++ ',' :: ds)

end

namespace PlainWords

variable {ts us block : List Token}

theorem word (h : PlainWords ts) {w : String} (hw : .word w ∈ ts) :
    w.toList ≠ [] ∧ ∀ c ∈ w.toList, IsPlain c :=
  h ts (.self ts) w hw

theorem list (h : PlainWords ts) (hblock : .list block ∈ ts) : PlainWords block :=
  fun inner hinner => h inner (hinner.nested hblock)

theorem of_elements
    (hwords : ∀ w, .word w ∈ ts → w.toList ≠ [] ∧ ∀ c ∈ w.toList, IsPlain c)
    (hblocks : ∀ block, .list block ∈ ts → PlainWords block) : PlainWords ts := by
  intro inner hinner
  cases hinner with
  | self => exact hwords
  | nested hinner hblock => exact hblocks _ hblock inner hinner

theorem of_subset (h : PlainWords ts) (hsub : us ⊆ ts) : PlainWords us :=
  of_elements (fun _ hw => h.word (hsub hw)) fun _ hblock => h.list (hsub hblock)

theorem concat (h : PlainWords ts) {t : Token} (ht : PlainWords [t]) : PlainWords (ts ++ [t]) := by
  refine of_elements (fun w hw => ?_) fun block hblock => ?_
  · rcases List.mem_append.mp hw with hw | hw
    · exact h.word hw
    · exact ht.word hw
  · rcases List.mem_append.mp hblock with hblock | hblock
    · exact h.list hblock
    · exact ht.list hblock

theorem nil : PlainWords [] :=
  of_elements (fun _ hw => absurd hw List.not_mem_nil) fun _ hb => absurd hb List.not_mem_nil

theorem single_list (h : PlainWords block) : PlainWords [.list block] := by
  refine of_elements (fun w hw => ?_) fun inner hinner => ?_
  · cases List.mem_singleton.mp hw
  · cases List.mem_singleton.mp hinner
    exact h

theorem single_word {w : String} (hsome : w.toList ≠ []) (hplain : ∀ c ∈ w.toList, IsPlain c) :
    PlainWords [.word w] := by
  refine of_elements (fun v hv => ?_) fun inner hinner => ?_
  · cases List.mem_singleton.mp hv
    exact ⟨hsome, hplain⟩
  · cases List.mem_singleton.mp hinner

theorem words {ws : List String}
    (h : ∀ w ∈ ws, w.toList ≠ [] ∧ ∀ c ∈ w.toList, IsPlain c) : PlainWords (ws.map .word) := by
  refine of_elements (fun w hw => ?_) fun block hblock => ?_
  · obtain ⟨v, hv, heq⟩ := List.mem_map.mp hw
    exact Token.word.inj heq ▸ h v hv
  · obtain ⟨v, -, heq⟩ := List.mem_map.mp hblock
    cases heq

end PlainWords

/-! ## The scanner without positions -/

namespace Scan

/-- What the characters of a text make of a scan, unless one of them is a stray parenthesis. -/
def read? (s : Scan) (cs : List Char) : Option Scan := cs.foldlM step? s

variable {s t : Scan} {cs ds : List Char}

@[simp] theorem read?_nil : s.read? [] = some s := rfl

@[simp] theorem read?_cons {c : Char} : s.read? (c :: cs) = (s.step? c).bind (·.read? cs) := rfl

theorem read?_append : s.read? (cs ++ ds) = (s.read? cs).bind (·.read? ds) := by
  unfold read?
  rw [List.foldlM_append]
  rfl

/-- Positions matter to errors only. -/
theorem toOption_run (s : Scan) (position : Nat) (cs : List Char) :
    (s.run position cs).toOption = s.read? cs := by
  induction cs generalizing s position with
  | nil => rfl
  | cons c rest ih =>
      rw [run, read?_cons]
      cases s.step? c with
      | none => rfl
      | some next => exact ih next (position + 1)

theorem run_eq_ok_iff {position : Nat} : s.run position cs = .ok t ↔ s.read? cs = some t := by
  rw [← toOption_run s position]
  cases s.run position cs with
  | error position => simp [Except.toOption]
  | ok scan => simp [Except.toOption]

@[simp] theorem outer_flush (s : Scan) : s.flush.outer = s.outer := by
  unfold flush
  split <;> rfl

@[simp] theorem pending_flush (s : Scan) : s.flush.pending = [] := by
  unfold flush
  split
  · rename_i hnone
    exact List.isEmpty_iff.mp hnone
  · rfl

theorem step?_open (s : Scan) : s.step? '(' = some s.openList := rfl

theorem step?_close (s : Scan) : s.step? ')' = s.closeList? := rfl

theorem step?_comma (s : Scan) : s.step? ',' = some s.flush := rfl

theorem step?_plain {c : Char} (h : IsPlain c) (s : Scan) :
    s.step? c = some ⟨s.outer, s.current, s.pending ++ [c]⟩ := by
  obtain ⟨hopen, hclose, hcomma, hblank⟩ := h
  simp [step?, hopen, hclose, hcomma, hblank]

theorem step?_blank {c : Char} (h : Text.isBlank c = true) (s : Scan) : s.step? c = some s := by
  have hopen : c ≠ '(' := by rintro rfl; exact absurd h (by decide)
  have hclose : c ≠ ')' := by rintro rfl; exact absurd h (by decide)
  have hcomma : c ≠ ',' := by rintro rfl; exact absurd h (by decide)
  simp [step?, hopen, hclose, hcomma, h]

/-- The five kinds of characters. -/
theorem kinds (c : Char) : c = '(' ∨ c = ')' ∨ c = ',' ∨ Text.isBlank c = true ∨ IsPlain c := by
  unfold IsPlain
  cases Text.isBlank c <;> grind

theorem closeList?_of_flush {parent current : List Token} {outer : List (List Token)}
    (h : s.flush = ⟨parent :: outer, current, []⟩) :
    s.closeList? = some ⟨outer, parent ++ [.list current], []⟩ := by
  simp [closeList?, h]

end Scan

/-- A text is read if no parenthesis is stray and no list is left open. -/
theorem Token.parse_eq_ok_iff {e : String} {ts : List Token} : Token.parse e = .ok ts ↔
    ∃ s, Scan.start.read? e.toList = some s ∧ s.outer = [] ∧ ts = stripOuter s.flush.current := by
  unfold Token.parse
  cases hrun : Scan.start.run 0 e.toList with
  | error position =>
      have hread : Scan.start.read? e.toList = none := by
        rw [← Scan.toOption_run Scan.start 0, hrun]
        rfl
      simp [hread]
  | ok s =>
      have hread := Scan.run_eq_ok_iff.mp hrun
      simp only [hread, Option.some.injEq, exists_eq_left']
      cases hopen : s.outer with
      | nil => simp [eq_comm]
      | cons parent outer => simp

/-! ## Balanced parentheses -/

namespace Scan

variable {s t : Scan} {cs : List Char}

/-- A character fails only if it closes a list where none is open. -/
theorem step?_eq_none_iff {c : Char} : s.step? c = none ↔ c = ')' ∧ s.outer = [] := by
  rcases kinds c with rfl | rfl | rfl | hblank | hplain
  · simp [step?_open]
  · cases houter : s.outer with
    | nil => simp [step?_close, closeList?, houter]
    | cons parent outer => simp [step?_close, closeList?, houter]
  · simp [step?_comma]
  · rw [step?_blank hblank]
    refine iff_of_false (Option.some_ne_none s) ?_
    rintro ⟨rfl, -⟩
    exact absurd hblank (by decide)
  · rw [step?_plain hplain]
    exact iff_of_false (Option.some_ne_none _) fun h => hplain.2.1 h.1

/-- Opening parentheses add to the lists that are open, closing ones take away. -/
theorem length_outer_of_step {c : Char} (h : s.step? c = some t) :
    t.outer.length + [c].count ')' = s.outer.length + [c].count '(' := by
  rcases kinds c with rfl | rfl | rfl | hblank | hplain
  · obtain rfl := Option.some.inj h
    simp [openList]
  · cases houter : s.outer with
    | nil => simp [step?_close, closeList?, houter] at h
    | cons parent outer =>
        simp only [step?_close, closeList?, outer_flush, houter, Option.some.injEq] at h
        simp [← h]
  · obtain rfl := Option.some.inj h
    simp
  · rw [step?_blank hblank] at h
    obtain rfl := Option.some.inj h
    have hopen : c ≠ '(' := by rintro rfl; exact absurd hblank (by decide)
    have hclose : c ≠ ')' := by rintro rfl; exact absurd hblank (by decide)
    simp [hopen, hclose]
  · rw [step?_plain hplain] at h
    obtain rfl := Option.some.inj h
    simp [hplain.1, hplain.2.1]

theorem length_outer_of_read (h : s.read? cs = some t) :
    t.outer.length + cs.count ')' = s.outer.length + cs.count '(' := by
  induction cs generalizing s with
  | nil =>
      obtain rfl := Option.some.inj h
      simp
  | cons c rest ih =>
      rw [read?_cons, Option.bind_eq_some_iff] at h
      obtain ⟨next, hstep, hrest⟩ := h
      have hfirst := length_outer_of_step hstep
      have hlater := ih hrest
      simp only [List.count_cons, List.count_nil, Nat.zero_add] at hfirst ⊢
      omega

/-- A text is read to its end if no prefix of it closes more lists than are open. -/
theorem exists_read?_iff : (∃ t, s.read? cs = some t) ↔
    ∀ before, before <+: cs → before.count ')' ≤ s.outer.length + before.count '(' := by
  induction cs generalizing s with
  | nil => simp
  | cons c rest ih =>
      have hprefixes : (∀ before, before <+: c :: rest →
          before.count ')' ≤ s.outer.length + before.count '(') ↔
          ∀ before, before <+: rest → before.count ')' + [c].count ')' ≤
            s.outer.length + (before.count '(' + [c].count '(') := by
        simp only [List.prefix_cons_iff, List.count_singleton]
        constructor
        · intro h before hbefore
          simpa [List.count_cons] using h (c :: before) (.inr ⟨before, rfl, hbefore⟩)
        · rintro h before (rfl | ⟨later, rfl, hlater⟩)
          · simp
          · simpa [List.count_cons] using h later hlater
      rw [hprefixes]
      cases hstep : s.step? c with
      | none =>
          obtain ⟨rfl, houter⟩ := step?_eq_none_iff.mp hstep
          refine ⟨fun ⟨t, h⟩ => by simp [hstep] at h, fun h => ?_⟩
          have hfirst := h [] List.nil_prefix
          simp [houter] at hfirst
      | some next =>
          have hlength := length_outer_of_step hstep
          simp only [read?_cons, hstep, Option.bind_some]
          rw [ih]
          refine forall₂_congr fun before _ => ?_
          omega

end Scan

/-- The texts that are read are those whose parentheses balance. -/
theorem Token.exists_parse_iff (e : String) :
    (∃ ts, Token.parse e = .ok ts) ↔ Balanced e.toList := by
  have hprefixes := @Scan.exists_read?_iff Scan.start e.toList
  simp only [Scan.start, List.length_nil, Nat.zero_add] at hprefixes
  constructor
  · rintro ⟨ts, hparse⟩
    obtain ⟨s, hread, houter, -⟩ := Token.parse_eq_ok_iff.mp hparse
    have htotals := Scan.length_outer_of_read hread
    refine ⟨hprefixes.mp ⟨s, hread⟩, ?_⟩
    simpa [Scan.start, houter] using htotals.symm
  · rintro ⟨hbefore, htotals⟩
    obtain ⟨s, hread⟩ := hprefixes.mpr hbefore
    have hlength := Scan.length_outer_of_read hread
    refine ⟨_, Token.parse_eq_ok_iff.mpr ⟨s, hread, ?_, rfl⟩⟩
    simp only [List.length_nil, htotals, Nat.zero_add] at hlength
    exact List.eq_nil_of_length_eq_zero (by omega)

/-- What is not read is refused as an invalid query. -/
theorem Token.parse_error {e : String} {error : Error} (h : Token.parse e = .error error) :
    ∃ fault, error = .invalidQuery fault := by
  unfold Token.parse at h
  split at h
  · exact ⟨_, (Except.error.inj h).symm⟩
  · split at h
    · cases h
    · exact ⟨_, (Except.error.inj h).symm⟩

/-! ## What does not reach the lists -/

namespace Scan

variable {s t : Scan} {cs : List Char}

/-- Blanks are passed over. -/
theorem read?_filter_blanks : s.read? (cs.filter fun c => !Text.isBlank c) = s.read? cs := by
  induction cs generalizing s with
  | nil => rfl
  | cons c rest ih =>
      by_cases hblank : Text.isBlank c = true
      · rw [List.filter_cons_of_neg (by simp [hblank]), read?_cons, step?_blank hblank, ih]
        rfl
      · rw [List.filter_cons_of_pos (by simp [hblank]), read?_cons, read?_cons]
        exact congrArg _ (funext fun next => ih)

/-- The same scan with further lists open around it. -/
def under (s : Scan) (around : List (List Token)) : Scan :=
  ⟨s.outer ++ around, s.current, s.pending⟩

theorem flush_under (around : List (List Token)) :
    (s.under around).flush = s.flush.under around := by
  unfold flush under
  split <;> rfl

/-- What goes well goes well with more lists open. -/
theorem step?_under {c : Char} (h : s.step? c = some t) (around : List (List Token)) :
    (s.under around).step? c = some (t.under around) := by
  rcases kinds c with rfl | rfl | rfl | hblank | hplain
  · obtain rfl := Option.some.inj h
    rfl
  · cases houter : s.outer with
    | nil => simp [step?_close, closeList?, houter] at h
    | cons parent outer =>
        simp only [step?_close, closeList?, outer_flush, houter, Option.some.injEq] at h
        rw [step?_close, closeList?, flush_under, ← h]
        simp [under, houter]
  · obtain rfl := Option.some.inj h
    rw [step?_comma, flush_under]
  · rw [step?_blank hblank] at h ⊢
    rw [Option.some.inj h]
  · rw [step?_plain hplain] at h ⊢
    obtain rfl := Option.some.inj h
    rfl

theorem read?_under (h : s.read? cs = some t) (around : List (List Token)) :
    (s.under around).read? cs = some (t.under around) := by
  induction cs generalizing s with
  | nil =>
      obtain rfl := Option.some.inj h
      rfl
  | cons c rest ih =>
      rw [read?_cons, Option.bind_eq_some_iff] at h
      obtain ⟨next, hstep, hrest⟩ := h
      rw [read?_cons, step?_under hstep, Option.bind_some, ih hrest]

end Scan

theorem Token.parse_without_blanks {e : String} {ts : List Token} (h : Token.parse e = .ok ts) :
    Token.parse (String.ofList (e.toList.filter fun c => !Text.isBlank c)) = .ok ts := by
  rw [Token.parse_eq_ok_iff] at h ⊢
  rwa [String.toList_ofList, Scan.read?_filter_blanks]

/-- A list that is alone is taken for what it holds. -/
theorem stripOuter_single_list (ts : List Token) : stripOuter [.list ts] = stripOuter ts := by
  rw [stripOuter, Token.strip]

/-- Blanks alone are read as nothing. -/
theorem Token.parse_of_blank {e : String} (h : Text.isBlankText e = true) :
    Token.parse e = .ok [] := by
  have hread : Scan.start.read? e.toList = some Scan.start := by
    have hfiltered : e.toList.filter (fun c => !Text.isBlank c) = [] := by
      simpa [Text.isBlankText] using h
    rw [← Scan.read?_filter_blanks, hfiltered, Scan.read?_nil]
  exact Token.parse_eq_ok_iff.mpr ⟨Scan.start, hread, rfl, rfl⟩

theorem stripOuter_word (w : String) (ts : List Token) :
    stripOuter (.word w :: ts) = .word w :: ts := by
  cases ts <;> rfl

theorem Token.parse_in_parentheses {cs : List Char} {ts : List Token}
    (h : Token.parse (String.ofList cs) = .ok ts) :
    Token.parse (String.ofList ('(' :: (cs ++ [')']))) = .ok ts := by
  rw [Token.parse_eq_ok_iff, String.toList_ofList] at h ⊢
  obtain ⟨s, hread, houter, rfl⟩ := h
  have hinside : (s.under [[]]).flush = ⟨[[]], s.flush.current, []⟩ := by
    rw [Scan.flush_under, Scan.under, Scan.outer_flush, Scan.pending_flush, houter]
    rfl
  refine ⟨⟨[], [.list s.flush.current], []⟩, ?_, rfl, ?_⟩
  · rw [Scan.read?_cons, Scan.step?_open, Option.bind_some, Scan.read?_append,
      show Scan.start.openList = Scan.start.under [[]] from rfl, Scan.read?_under hread,
      Option.bind_some, Scan.read?_cons, Scan.step?_close, Scan.closeList?_of_flush hinside]
    rfl
  · exact (stripOuter_single_list _).symm

theorem Token.parse_in_many_parentheses {e : String} {ts : List Token}
    (h : Token.parse e = .ok ts) (n : Nat) : Token.parse (String.ofList
      (List.replicate n '(' ++ e.toList ++ List.replicate n ')')) = .ok ts := by
  induction n with
  | zero => simpa using h
  | succ n ih =>
      have houter := Token.parse_in_parentheses ih
      rw [List.replicate_succ, List.replicate_succ']
      simpa using houter

/-! ## Reading what is spelled -/

namespace Scan

/-- Characters of a word are added to the word that is being read. -/
theorem read?_plain {cs : List Char} (h : ∀ c ∈ cs, IsPlain c) (s : Scan) :
    s.read? cs = some ⟨s.outer, s.current, s.pending ++ cs⟩ := by
  induction cs generalizing s with
  | nil => simp
  | cons c rest ih =>
      rw [read?_cons, step?_plain (h c (by simp)), Option.bind_some,
        ih fun d hd => h d (by simp [hd])]
      simp

/-- The scan has just read the tokens, except that the last word may still be open. -/
def Reads (outer : List (List Token)) (current : List Token) (cs : List Char)
    (ts : List Token) : Prop :=
  ∃ s, (⟨outer, current, []⟩ : Scan).read? cs = some s ∧ s.flush = ⟨outer, current ++ ts, []⟩

theorem Reads.word {w : String} (hsome : w.toList ≠ []) (hplain : ∀ c ∈ w.toList, IsPlain c)
    (outer : List (List Token)) (current : List Token) :
    Reads outer current w.toList [.word w] := by
  refine ⟨_, read?_plain hplain _, ?_⟩
  simp [flush, hsome]

/-- A list is read as its elements are, with the list around it left open. -/
theorem Reads.close {outer : List (List Token)} {parent current ts : List Token} {cs : List Char}
    (h : Reads (parent :: outer) current cs ts) :
    (⟨parent :: outer, current, []⟩ : Scan).read? (cs ++ [')']) =
      some ⟨outer, parent ++ [.list (current ++ ts)], []⟩ := by
  obtain ⟨s, hread, hflush⟩ := h
  rw [read?_append, hread, Option.bind_some, read?_cons, step?_close, closeList?_of_flush hflush]
  rfl

/-- A comma ends what was read before it. -/
theorem Reads.comma {outer : List (List Token)} {current ts us : List Token} {cs ds : List Char}
    (h : Reads outer current cs ts) (hrest : Reads outer (current ++ ts) ds us) :
    Reads outer current (cs ++ ',' :: ds) (ts ++ us) := by
  obtain ⟨s, hread, hflush⟩ := h
  obtain ⟨t, hlater, hend⟩ := hrest
  refine ⟨t, ?_, by rw [hend, List.append_assoc]⟩
  rw [read?_append, hread, Option.bind_some, read?_cons, step?_comma, Option.bind_some, hflush,
    hlater]

end Scan

mutual

/-- A token is read wherever it stands. -/
theorem Token.Spelled.reads {t : Token} {cs : List Char} (h : t.Spelled cs)
    (hplain : PlainWords [t]) (outer : List (List Token)) (current : List Token) :
    Scan.Reads outer current cs [t] := by
  cases h with
  | word w =>
      obtain ⟨hsome, hchars⟩ := hplain.word List.mem_cons_self
      exact .word hsome hchars outer current
  | @list ts cs h =>
      have hinside := h.reads (hplain.list List.mem_cons_self) (current :: outer) []
      refine ⟨⟨outer, current ++ [.list ts], []⟩, ?_, rfl⟩
      rw [Scan.read?_cons, Scan.step?_open, Option.bind_some]
      exact hinside.close
  | @headed w ts cs h =>
      have hblock := hplain.list List.mem_cons_self
      obtain ⟨hsome, hchars⟩ := hblock.word List.mem_cons_self
      have hinside := h.reads (hblock.of_subset (List.subset_cons_self _ _)) (current :: outer)
        [.word w]
      refine ⟨⟨outer, current ++ [.list (.word w :: ts)], []⟩, ?_, rfl⟩
      rw [Scan.read?_append, Scan.read?_plain hchars, Option.bind_some, Scan.read?_cons,
        Scan.step?_open, Option.bind_some]
      simpa [Scan.openList, hsome] using hinside.close

/-- Several tokens are read one after the other. -/
theorem SpelledAll.reads {ts : List Token} {cs : List Char} (h : SpelledAll ts cs)
    (hplain : PlainWords ts) (outer : List (List Token)) (current : List Token) :
    Scan.Reads outer current cs ts := by
  cases h with
  | nil => exact ⟨_, rfl, by simp [Scan.flush]⟩
  | single h => exact h.reads hplain outer current
  | @cons t u rest cs ds h hrest =>
      have hfirst := h.reads (hplain.of_subset (by simp)) outer current
      exact hfirst.comma
        (hrest.reads (hplain.of_subset (List.subset_cons_self _ _)) outer (current ++ [t]))

end

mutual

theorem Token.exists_spelled : ∀ t : Token, ∃ cs, t.Spelled cs
  | .word w => ⟨w.toList, .word w⟩
  | .list ts => by
      obtain ⟨cs, h⟩ := exists_spelledAll ts
      exact ⟨_, .list h⟩

/-- Every list of tokens has a text that writes it. -/
theorem exists_spelledAll : ∀ ts : List Token, ∃ cs, SpelledAll ts cs
  | [] => ⟨[], .nil⟩
  | [t] => by
      obtain ⟨cs, h⟩ := t.exists_spelled
      exact ⟨cs, .single h⟩
  | t :: u :: rest => by
      obtain ⟨cs, h⟩ := t.exists_spelled
      obtain ⟨ds, hrest⟩ := exists_spelledAll (u :: rest)
      exact ⟨_, .cons h hrest⟩

end

/-- Words are written with commas between them. -/
theorem spelledAll_words : ∀ ws : List String,
    SpelledAll (ws.map .word) ([','].intercalate (ws.map String.toList))
  | [] => .nil
  | [w] => by
      rw [List.map_singleton, List.map_singleton, List.intercalate_singleton]
      exact .single (.word w)
  | w :: v :: rest => by
      have hrest := spelledAll_words (v :: rest)
      simp only [List.map_cons] at hrest ⊢
      rw [List.intercalate_cons_cons, List.append_assoc]
      exact .cons (.word w) hrest

/-- What is spelled is read back, but for the lists that enclose everything. -/
theorem Token.parse_of_spelled {ts : List Token} {cs : List Char} (h : SpelledAll ts cs)
    (hplain : PlainWords ts) : Token.parse (String.ofList cs) = .ok (stripOuter ts) := by
  obtain ⟨s, hread, hflush⟩ := h.reads hplain [] []
  rw [Token.parse_eq_ok_iff, String.toList_ofList]
  refine ⟨s, hread, ?_, ?_⟩
  · rw [← Scan.outer_flush, hflush]
  · rw [hflush, List.nil_append]

/-! ## Lists that enclose everything -/

/-- The tokens inside `n` lists, one in the other. -/
def enclosed (ts : List Token) : Nat → List Token
  | 0 => ts
  | n + 1 => [.list (enclosed ts n)]

theorem stripOuter_enclosed {ts : List Token} (hopen : ∀ inner, ts ≠ [.list inner]) (n : Nat) :
    stripOuter (enclosed ts n) = ts := by
  induction n with
  | zero =>
      match ts, hopen with
      | [], _ => rfl
      | [.word w], _ => rfl
      | [.list inner], hopen => exact absurd rfl (hopen inner)
      | _ :: _ :: _, _ => rfl
  | succ n ih => rw [enclosed, stripOuter_single_list, ih]

mutual

theorem Token.exists_enclosed : ∀ t : Token, ∃ core n, [t] = enclosed core n ∧
    ∀ inner, core ≠ [.list inner]
  | .word w => ⟨[.word w], 0, rfl, by simp⟩
  | .list ts => by
      obtain ⟨core, n, rfl, hcore⟩ := exists_enclosed ts
      exact ⟨core, n + 1, rfl, hcore⟩

/-- Every list of tokens is enclosed in so many lists. -/
theorem exists_enclosed : ∀ ts : List Token, ∃ core n, ts = enclosed core n ∧
    ∀ inner, core ≠ [.list inner]
  | [] => ⟨[], 0, rfl, by simp⟩
  | [t] => t.exists_enclosed
  | t :: u :: rest => ⟨t :: u :: rest, 0, rfl, by simp⟩

end

/-! ## Words that are read -/

/-- What was read so far has plain words, and so has the word that is being read. -/
structure Scan.Plain (s : Scan) : Prop where
  /-- The lists that are open. -/
  outer : ∀ list ∈ s.outer, PlainWords list
  /-- The current list. -/
  current : PlainWords s.current
  /-- The word that is being read. -/
  pending : ∀ c ∈ s.pending, IsPlain c

namespace Scan.Plain

variable {s t : Scan}

theorem start : Scan.start.Plain :=
  ⟨fun _ h => absurd h List.not_mem_nil, .nil, fun _ h => absurd h List.not_mem_nil⟩

/-- The word that is being read, as a list of its own. -/
theorem of_pending (h : s.Plain) (hsome : s.pending.isEmpty = false) :
    PlainWords [.word (String.ofList s.pending)] := by
  refine .single_word ?_ ?_
  · simpa using hsome
  · simpa using h.pending

theorem flush (h : s.Plain) : s.flush.Plain := by
  unfold Scan.flush
  split
  · exact h
  · rename_i hsome
    exact ⟨h.outer, h.current.concat (h.of_pending (by simpa using hsome)),
      fun _ hc => absurd hc List.not_mem_nil⟩

theorem openList (h : s.Plain) : s.openList.Plain := by
  refine ⟨List.forall_mem_cons.mpr ⟨h.current, h.outer⟩, ?_,
    fun _ hc => absurd hc List.not_mem_nil⟩
  cases hsome : s.pending.isEmpty with
  | true => simpa [Scan.openList, hsome] using PlainWords.nil
  | false => simpa [Scan.openList, hsome] using h.of_pending hsome

theorem closeList (h : s.Plain) (hclose : s.closeList? = some t) : t.Plain := by
  have hflushed := h.flush
  rw [closeList?] at hclose
  split at hclose
  · cases hclose
  · rename_i parent outer houter
    obtain rfl := Option.some.inj hclose
    obtain ⟨hparent, hrest⟩ := List.forall_mem_cons.mp (houter ▸ hflushed.outer)
    exact ⟨hrest, hparent.concat hflushed.current.single_list,
      fun _ hc => absurd hc List.not_mem_nil⟩

theorem step {c : Char} (h : s.Plain) (hstep : s.step? c = some t) : t.Plain := by
  rcases kinds c with rfl | rfl | rfl | hblank | hplain
  · obtain rfl := Option.some.inj hstep
    exact h.openList
  · exact h.closeList hstep
  · obtain rfl := Option.some.inj hstep
    exact h.flush
  · rw [step?_blank hblank] at hstep
    obtain rfl := Option.some.inj hstep
    exact h
  · rw [step?_plain hplain] at hstep
    obtain rfl := Option.some.inj hstep
    exact ⟨h.outer, h.current, List.forall_mem_append.mpr
      ⟨h.pending, List.forall_mem_singleton.mpr hplain⟩⟩

theorem read {cs : List Char} (h : s.Plain) (hread : s.read? cs = some t) : t.Plain := by
  induction cs generalizing s with
  | nil =>
      obtain rfl := Option.some.inj hread
      exact h
  | cons c rest ih =>
      rw [read?_cons, Option.bind_eq_some_iff] at hread
      obtain ⟨next, hstep, hrest⟩ := hread
      exact ih (h.step hstep) hrest

end Scan.Plain

theorem PlainWords.of_enclosed {ts : List Token} {n : Nat} (h : PlainWords (enclosed ts n)) :
    PlainWords ts := by
  induction n with
  | zero => exact h
  | succ n ih => exact ih (h.list (List.mem_singleton_self _))

/-- Only plain words are ever read. -/
theorem Token.plainWords_parse {e : String} {ts : List Token} (h : Token.parse e = .ok ts) :
    PlainWords ts := by
  obtain ⟨s, hread, -, rfl⟩ := Token.parse_eq_ok_iff.mp h
  have hflushed := (Scan.Plain.start.read hread).flush.current
  obtain ⟨core, n, hcore, hopen⟩ := Logic.exists_enclosed s.flush.current
  rw [hcore] at hflushed ⊢
  rw [stripOuter_enclosed hopen]
  exact hflushed.of_enclosed

/-! ## Reading and writing -/

/-- A text is read if its parentheses balance, and is refused as an invalid query otherwise. What
is read depends neither on blanks nor on parentheses around the whole text. Every list of plain
words has texts that write it, and each of them is read as what the enclosing lists hold. -/
theorem parse_reads_spelled :
    (∀ e : String, ((∃ ts, Token.parse e = .ok ts) ↔ Balanced e.toList) ∧
      (¬ Balanced e.toList → ∃ fault, Token.parse e = .error (.invalidQuery fault))) ∧
    (∀ (e : String) (ts : List Token), Token.parse e = .ok ts →
      Token.parse (String.ofList (e.toList.filter fun c => !Text.isBlank c)) = .ok ts ∧
      ∀ n, Token.parse (String.ofList
        (List.replicate n '(' ++ e.toList ++ List.replicate n ')')) = .ok ts) ∧
    ∀ ts : List Token, PlainWords ts → (∃ cs, SpelledAll ts cs) ∧
      ∃ core n, ts = enclosed core n ∧ (∀ inner, core ≠ [.list inner]) ∧
        ∀ cs, SpelledAll ts cs → Token.parse (String.ofList cs) = .ok core := by
  refine ⟨fun e => ⟨Token.exists_parse_iff e, fun hunbalanced => ?_⟩, fun e ts hparse =>
    ⟨Token.parse_without_blanks hparse, Token.parse_in_many_parentheses hparse⟩,
    fun ts hplain => ⟨exists_spelledAll ts, ?_⟩⟩
  · cases hparse : Token.parse e with
    | ok ts => exact absurd ((Token.exists_parse_iff e).mp ⟨ts, hparse⟩) hunbalanced
    | error error =>
        obtain ⟨fault, rfl⟩ := Token.parse_error hparse
        exact ⟨fault, rfl⟩
  · obtain ⟨core, n, rfl, hcore⟩ := exists_enclosed ts
    refine ⟨core, n, rfl, hcore, fun cs hspelled => ?_⟩
    rw [Token.parse_of_spelled hspelled hplain, stripOuter_enclosed hcore]

/-- One condition, nothing, or two others, enclosed once more than needed. -/
def choice : List Token :=
  [.list [.list [.word "OR", .word "1", .list [], .list [.word "AND", .word "2", .word "3"]]]]

theorem plainWords_choice : PlainWords choice := by
  have hword : ∀ w ∈ ["OR", "1", "AND", "2", "3"], PlainWords [.word w] := by
    have hall : ["OR", "1", "AND", "2", "3"].all (fun w => w.toList ≠ [] && w.toList.all fun c =>
        c ≠ '(' && c ≠ ')' && c ≠ ',' && !Text.isBlank c) = true := by
      decide +kernel
    have hchars : ∀ w ∈ ["OR", "1", "AND", "2", "3"], w.toList ≠ [] ∧ ∀ c ∈ w.toList,
        c ≠ '(' ∧ c ≠ ')' ∧ c ≠ ',' ∧ Text.isBlank c = false := by
      simpa [and_assoc] using hall
    exact fun w hw => .single_word (hchars w hw).1 (hchars w hw).2
  have hboth : PlainWords [.word "AND", .word "2", .word "3"] :=
    ((hword "AND" (by simp)).concat (hword "2" (by simp))).concat (hword "3" (by simp))
  exact (((((hword "OR" (by simp)).concat (hword "1" (by simp))).concat
    (PlainWords.nil.single_list)).concat hboth.single_list).single_list).single_list

/-- The same with both ways to write a list, with blanks, and with a parenthesis too few. -/
theorem choice_read_back :
    (PlainWords choice ∧ SpelledAll choice "(OR(1,(),(AND,2,3)))".toList ∧
      ∃ core n, choice = enclosed core n ∧ (∀ inner, core ≠ [.list inner]) ∧
        Token.parse (String.ofList "(OR(1,(),(AND,2,3)))".toList) = .ok core) ∧
    (Token.parse "( 1, 2 )" = .ok [.word "1", .word "2"] ∧
      Token.parse (String.ofList ("( 1, 2 )".toList.filter fun c => !Text.isBlank c)) =
        .ok [.word "1", .word "2"]) ∧
    (¬ Balanced "OR(1".toList ∧
      ∃ fault, Token.parse "OR(1" = .error (.invalidQuery fault)) := by
  obtain ⟨hreads, hkeeps, hundoes⟩ := parse_reads_spelled
  have hspelled : SpelledAll choice "(OR(1,(),(AND,2,3)))".toList :=
    .single (.list (.single (.headed "OR" (.cons (.word "1") (.cons (.list .nil) (.single
      (.list (.cons (.word "AND") (.cons (.word "2") (.single (.word "3")))))))))))
  have hpair : Token.parse "( 1, 2 )" = .ok [.word "1", .word "2"] :=
    Token.parse_eq_ok_iff.mpr ⟨⟨[], [.list [.word "1", .word "2"]], []⟩, rfl, rfl, rfl⟩
  have hopen : ¬ Balanced "OR(1".toList := fun h => absurd h.2 (by decide)
  obtain ⟨-, core, n, hcore, hnotSingle, hparse⟩ := hundoes choice plainWords_choice
  exact ⟨⟨plainWords_choice, hspelled, core, n, hcore, hnotSingle, hparse _ hspelled⟩,
    ⟨hpair, (hkeeps _ _ hpair).1⟩, hopen, (hreads _).2 hopen⟩

end RecordGraph.Logic
