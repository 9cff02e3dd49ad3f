/-
# Positions in compiled condition logic

What compiling makes of the numbers that a text writes. `Token.positions` reads the numbers
off the nested list alone; compiling neither adds, drops nor reorders any of them. A number
without a condition is left out on both sides, so compiled logic names only conditions that
exist, and applying it never passes over a missing one.
-/
import RecordGraph.Logic.Expr

namespace RecordGraph.Logic

/-! ## Positions of several expressions -/

theorem indicesOf_append (first second : List Expr) :
    indicesOf (first ++ second) = indicesOf first ++ indicesOf second := by
  induction first with
  | nil => simp [indicesOf]
  | cons e rest ih => simp [indicesOf, ih]

/-! ## Positions that a nested list writes -/

/-- The position that a word names: a number between one and `count`, counted from zero. -/
def wordPositions (count : Nat) (w : String) : List Nat :=
  match Conjunction.parse? w, Text.word? w with
  | none, some n => if n = 0 || count < n then [] else [n - 1]
  | _, _ => []

mutual

/-- The positions that a token writes, left to right. -/
def Token.positions (count : Nat) : Token → List Nat
  | .word w => wordPositions count w
  | .list block => positionsOf count block

/-- The positions that several tokens write, left to right. -/
def positionsOf (count : Nat) : List Token → List Nat
  | [] => []
  | t :: rest => t.positions count ++ positionsOf count rest

end

theorem wordPositions_lt (count : Nat) (w : String) :
    ∀ i ∈ wordPositions count w, i < count := by
  intro i hi
  unfold wordPositions at hi
  split at hi
  · split at hi
    · simp at hi
    · rename_i hrange
      simp only [Bool.or_eq_true, decide_eq_true_eq, not_or, List.mem_singleton] at hrange hi
      omega
  · simp at hi

mutual

/-- A token writes positions of existing conditions only. -/
theorem Token.positions_lt (count : Nat) : ∀ (t : Token), ∀ i ∈ t.positions count, i < count
  | .word w => by
      intro i hi
      exact wordPositions_lt count w i hi
  | .list block => by
      intro i hi
      exact positionsOf_lt count block i hi

/-- Several tokens write positions of existing conditions only. -/
theorem positionsOf_lt (count : Nat) : ∀ (ts : List Token), ∀ i ∈ positionsOf count ts, i < count
  | [] => by simp [positionsOf]
  | t :: rest => by
      intro i hi
      simp only [positionsOf, List.mem_append] at hi
      cases hi with
      | inl hhead => exact Token.positions_lt count t i hhead
      | inr htail => exact positionsOf_lt count rest i htail

end

/-! ## Compiling keeps the positions -/

namespace Compiled

/-- The positions in what was read so far, left to right. -/
def indices (s : Compiled) : List Nat :=
  indicesOf s.base ++
    match s.governing with
    | none => []
    | some (_, children) => indicesOf children

theorem indicesOf_flush (s : Compiled) : indicesOf s.flush = s.indices := by
  obtain ⟨base, governing⟩ := s
  cases governing with
  | none => simp [flush, indices]
  | some held =>
      obtain ⟨c, children⟩ := held
      cases children with
      | nil => simp [flush, indices, indicesOf]
      | cons e rest => simp [flush, indices, indicesOf_append, indicesOf, Expr.indices]

theorem indices_push (s : Compiled) (e : Expr) : (s.push e).indices = s.indices ++ e.indices := by
  obtain ⟨base, governing⟩ := s
  cases governing with
  | none => simp [push, indices, indicesOf_append, indicesOf]
  | some held => simp [push, indices, indicesOf_append, indicesOf]

/-- One more word adds the position that it names, and nothing else. -/
theorem indices_word {count : Nat} {s s' : Compiled} {w : String} (h : s.word count w = .ok s') :
    s'.indices = s.indices ++ wordPositions count w := by
  unfold word at h
  cases hconj : Conjunction.parse? w with
  | some c =>
      simp only [hconj, Except.ok.injEq] at h
      subst h
      simp [wordPositions, hconj, indices, indicesOf_flush, indicesOf]
  | none =>
      cases hnumber : Text.word? w with
      | none => simp [hconj, hnumber] at h
      | some n =>
          simp only [hconj, hnumber, Except.ok.injEq] at h
          subst h
          by_cases hrange : (n = 0 || count < n) = true
          · simp [wordPositions, hconj, hnumber, hrange]
          · simp [wordPositions, hconj, hnumber, hrange, indices_push, Expr.indices]

end Compiled

mutual

/-- Compiling a token adds the positions that the token writes. -/
theorem indices_compileToken (count : Nat) : ∀ (t : Token) (s s' : Compiled),
    compileToken count t s = .ok s' → s'.indices = s.indices ++ t.positions count
  | .word w => by
      intro s s' h
      rw [compileToken] at h
      rw [Token.positions]
      exact Compiled.indices_word h
  | .list block => by
      intro s s' h
      rw [compileToken] at h
      cases hgoverning : s.governing with
      | none => simp [hgoverning] at h
      | some held =>
          obtain ⟨c, children⟩ := held
          cases hinner : compileTokens count block ⟨children, none⟩ with
          | error e => simp [hgoverning, hinner] at h
          | ok inner =>
              simp only [hgoverning, hinner, Except.ok.injEq] at h
              subst h
              have hblock := indices_compileTokens count block _ _ hinner
              simp only [Compiled.indices, List.append_nil] at hblock
              simp only [Compiled.indices, hgoverning, Compiled.indicesOf_flush, Token.positions]
              rw [hblock, List.append_assoc]

/-- Compiling tokens adds the positions that they write, in their order. -/
theorem indices_compileTokens (count : Nat) : ∀ (ts : List Token) (s s' : Compiled),
    compileTokens count ts s = .ok s' → s'.indices = s.indices ++ positionsOf count ts
  | [] => by
      intro s s' h
      simp only [compileTokens, Except.ok.injEq] at h
      subst h
      simp [positionsOf]
  | t :: rest => by
      intro s s' h
      rw [compileTokens] at h
      cases hhead : compileToken count t s with
      | error e => simp [hhead] at h
      | ok next =>
          simp only [hhead] at h
          have hfirst := indices_compileToken count t _ _ hhead
          have hrest := indices_compileTokens count rest _ _ h
          rw [hrest, hfirst, positionsOf, List.append_assoc]

end

/-- The compiled form of a text has the positions of its tokens, in order of the text. -/
theorem indicesOf_compile {expression : String} {count : Nat} {es : List Expr}
    (h : compile expression count = .ok es) :
    ∃ tokens, Token.parse expression = .ok tokens ∧ indicesOf es = positionsOf count tokens := by
  unfold compile at h
  split at h
  · simp at h
  · split at h
    · simp at h
    · simp at h
    · rename_i tokens _ hparse
      refine ⟨tokens, hparse, ?_⟩
      cases hcompiled : compileTokens count tokens ⟨[], none⟩ with
      | error e => simp [hcompiled, Except.map] at h
      | ok s =>
          simp only [hcompiled, Except.map, Except.ok.injEq] at h
          subst h
          rw [Compiled.indicesOf_flush, indices_compileTokens count tokens _ _ hcompiled]
          simp [Compiled.indices, indicesOf]

/-- Compiled logic names only conditions that exist. -/
theorem indicesOf_lt_of_compile {expression : String} {count : Nat} {es : List Expr}
    (h : compile expression count = .ok es) : ∀ i ∈ indicesOf es, i < count := by
  obtain ⟨tokens, -, hindices⟩ := indicesOf_compile h
  rw [hindices]
  exact positionsOf_lt count tokens

end RecordGraph.Logic
