/-
# Runs that answer or fail

An action that fails leaves what it changed before. `Ends a s lost q` speaks of every run of an
action from `s` on: if it answers, then as `q` promises, and if it fails, what it leaves has the
property `lost`. Composite actions are gone through by one rule for sequences and one for each
kind of loop, where an invariant speaks of the members that had their turn.

Many actions change nothing if they fail. Of these only their answers have to be looked at.
-/
import RecordGraph.Proofs.Returns

namespace RecordGraph

variable {S α β : Type}

/-- Every run of the action from `s` on either answers as `q` promises, or fails and leaves a
state with the property `lost`. -/
structure Ends (a : ExceptT Error (StateM S) α) (s : S) (lost : S → Prop)
    (q : α → S → Prop) : Prop where
  fails : ∀ e s', a s = (.error e, s') → lost s'
  answers : ∀ x s', Returns a s x s' → q x s'

/-- If the action fails from `s` on, it has changed nothing. -/
def Atomic (a : ExceptT Error (StateM S) α) (s : S) : Prop :=
  ∀ e s', a s = (.error e, s') → s' = s

namespace Ends

variable {a : ExceptT Error (StateM S) α} {s : S} {lost : S → Prop} {q : α → S → Prop}

theorem weaken {r : α → S → Prop} (h : Ends a s lost q) (hweaker : ∀ x s', q x s' → r x s') :
    Ends a s lost r :=
  ⟨h.fails, fun x s' hrun => hweaker x s' (h.answers x s' hrun)⟩

/-- Less may be said of what a failure leaves. -/
theorem lose {lost' : S → Prop} (h : Ends a s lost q) (hweaker : ∀ s', lost s' → lost' s') :
    Ends a s lost' q :=
  ⟨fun e s' hfail => hweaker s' (h.fails e s' hfail), h.answers⟩

/-- What is kept whether the action answers or fails may be made less of. -/
theorem of_keeps {inv : S → Prop} (hweaker : ∀ s', inv s' → lost s')
    (h : Ends a s inv fun _ => inv) : Ends a s lost fun _ => lost :=
  (h.lose hweaker).weaken fun _ => hweaker

/-- What is known of every answer may be promised as well. -/
theorem strengthen {r : α → S → Prop} (h : Ends a s lost q)
    (hknown : ∀ x s', Returns a s x s' → q x s' → r x s') : Ends a s lost r :=
  ⟨h.fails, fun x s' hrun => hknown x s' hrun (h.answers x s' hrun)⟩

/-- Of an action that changes nothing if it fails, the answers are looked at. -/
theorem of_atomic (hatomic : Atomic a s) (hs : lost s)
    (hanswers : ∀ x s', Returns a s x s' → q x s') : Ends a s lost q :=
  ⟨fun e s' hrun => hatomic e s' hrun ▸ hs, hanswers⟩

theorem atomic (h : Ends a s (· = s) q) : Atomic a s := h.fails

/-- What holds of the state that is left holds whether the action answers or fails. -/
theorem of_left {inv : S → Prop} (h : inv (a s).2) : Ends a s inv fun _ => inv := by
  refine ⟨fun e s' hfail => ?_, fun x s' hreturns => ?_⟩
  · rwa [hfail] at h
  · have hequal : a s = (.ok x, s') := hreturns
    rwa [hequal] at h

/-- An action that answers has not failed. -/
theorem of_run {x : α} {s' : S} (hrun : a s = (.ok x, s')) (hq : q x s') : Ends a s lost q := by
  refine ⟨fun e t hfail => ?_, fun y t hreturns => ?_⟩
  · rw [hrun] at hfail
    cases hfail
  · have hequal : a s = (.ok y, t) := hreturns
    rw [hrun] at hequal
    cases hequal
    exact hq

protected theorem pure {x : α} (hq : q x s) : Ends (pure x) s lost q :=
  of_run rfl hq

protected theorem throw {e : Error} (hs : lost s) :
    Ends (throw e : ExceptT Error (StateM S) α) s lost q := by
  refine ⟨fun e' s' hfail => ?_, fun x s' hreturns => absurd hreturns returns_throw⟩
  cases hfail
  exact hs

/-- Two actions in sequence. The second one may rely on what the first one answered. -/
protected theorem bind {f : α → ExceptT Error (StateM S) β} {r : β → S → Prop}
    (h : Ends a s lost q) (hf : ∀ x s', q x s' → Ends (f x) s' lost r) :
    Ends (a >>= f) s lost r := by
  refine ⟨fun e s' hfail => ?_, fun y s' hreturns => ?_⟩
  · have hrun := run_bind a f s
    rcases hfirst : a s with ⟨answer, t⟩
    rw [hfirst, hfail] at hrun
    cases answer with
    | error e' =>
        obtain ⟨-, rfl⟩ := Prod.mk.inj hrun
        exact h.fails e' _ hfirst
    | ok x => exact (hf x t (h.answers x t hfirst)).fails e s' hrun.symm
  · obtain ⟨x, t, hfirst, hlast⟩ := returns_bind.mp hreturns
    exact (hf x t (h.answers x t hfirst)).answers y s' hlast

/-- After an action that reads and answers, the next one starts where it started. -/
theorem bind_of_reads {f : α → ExceptT Error (StateM S) β} {x : α} {r : β → S → Prop}
    (hreads : a s = (.ok x, s)) (hf : Ends (f x) s lost r) : Ends (a >>= f) s lost r :=
  (of_run (q := fun y t => y = x ∧ t = s) hreads ⟨rfl, rfl⟩).bind
    fun y t hsame => by rw [hsame.1, hsame.2]; exact hf

/-! ## Loops -/

theorem forM {f : α → ExceptT Error (StateM S) PUnit} {l : List α} (inv : List α → S → Prop)
    (hstart : inv [] s) (hturn : ∀ done x rest t, l = done ++ x :: rest → inv done t →
      Ends (f x) t lost fun _ t' => inv (done ++ [x]) t') :
    Ends (l.forM f) s lost fun _ t => inv l t := by
  suffices hall : ∀ rest done t, l = done ++ rest → inv done t →
      Ends (rest.forM f) t lost fun _ t' => inv l t' from hall l [] s rfl hstart
  intro rest
  induction rest with
  | nil =>
      intro done t hsplit hdone
      rw [List.append_nil] at hsplit
      exact Ends.pure (hsplit ▸ hdone)
  | cons x rest ih =>
      intro done t hsplit hdone
      change Ends (f x >>= fun _ => rest.forM f) t lost _
      exact (hturn done x rest t hsplit hdone).bind fun _ t' hnext =>
        ih (done ++ [x]) t' (by simp [hsplit]) hnext

/-- What holds between the turns of a loop, and also where a turn fails, holds of the loop. -/
theorem forM_of_keeps {f : α → ExceptT Error (StateM S) PUnit} {l : List α} {inv : S → Prop}
    (hs : inv s) (hturn : ∀ x ∈ l, ∀ t, inv t → Ends (f x) t inv fun _ => inv) :
    Ends (l.forM f) s inv fun _ => inv :=
  forM (fun _ => inv) hs fun _ x _ t hsplit ht => hturn x (by simp [hsplit]) t ht

theorem foldlM {f : β → α → ExceptT Error (StateM S) β} {l : List α} {b : β}
    (inv : List α → β → S → Prop) (hstart : inv [] b s)
    (hturn : ∀ done x rest c t, l = done ++ x :: rest → inv done c t →
      Ends (f c x) t lost fun c' t' => inv (done ++ [x]) c' t') :
    Ends (l.foldlM f b) s lost fun c t => inv l c t := by
  suffices hall : ∀ rest done c t, l = done ++ rest → inv done c t →
      Ends (rest.foldlM f c) t lost fun c' t' => inv l c' t' from hall l [] b s rfl hstart
  intro rest
  induction rest with
  | nil =>
      intro done c t hsplit hdone
      rw [List.append_nil] at hsplit
      exact Ends.pure (hsplit ▸ hdone)
  | cons x rest ih =>
      intro done c t hsplit hdone
      rw [List.foldlM_cons]
      exact (hturn done x rest c t hsplit hdone).bind fun c' t' hnext =>
        ih (done ++ [x]) c' t' (by simp [hsplit]) hnext

/-- The invariant of a traversal does not look at its answers. -/
theorem mapM {f : α → ExceptT Error (StateM S) β} {l : List α} (inv : List α → S → Prop)
    (hstart : inv [] s) (hturn : ∀ done x rest t, l = done ++ x :: rest → inv done t →
      Ends (f x) t lost fun _ t' => inv (done ++ [x]) t') :
    Ends (l.mapM f) s lost fun _ t => inv l t := by
  suffices hall : ∀ rest done t, l = done ++ rest → inv done t →
      Ends (rest.mapM f) t lost fun _ t' => inv l t' from hall l [] s rfl hstart
  intro rest
  induction rest with
  | nil =>
      intro done t hsplit hdone
      rw [List.append_nil] at hsplit
      rw [List.mapM_nil]
      exact Ends.pure (hsplit ▸ hdone)
  | cons x rest ih =>
      intro done t hsplit hdone
      rw [List.mapM_cons]
      refine (hturn done x rest t hsplit hdone).bind fun _ t' hnext => ?_
      exact (ih (done ++ [x]) t' (by simp [hsplit]) hnext).bind fun _ _ hlast => Ends.pure hlast

/-- What neither fails nor writes answers where it started. -/
theorem exists_run (h : Ends a s (fun _ => False) fun _ s' => s' = s) :
    ∃ x, a s = (.ok x, s) := by
  rcases hrun : a s with ⟨answer, s'⟩
  cases answer with
  | error e => exact (h.fails e s' hrun).elim
  | ok x => exact ⟨x, by rw [h.answers x s' hrun]⟩

/-- A filter whose test only reads cannot fail. -/
theorem filterM_of_reads {p : α → ExceptT Error (StateM S) Bool} {l : List α}
    {q : List α → S → Prop}
    (hreads : ∀ x ∈ l, Ends (p x) s (fun _ => False) fun _ s' => s' = s)
    (hanswers : ∀ ys s', Returns (l.filterM p) s ys s' → q ys s') :
    Ends (l.filterM p) s lost q := by
  suffices hall : ∀ (rest acc : List α), (∀ x ∈ rest, x ∈ l) →
      ∃ ys, rest.filterAuxM p acc s = (.ok ys, s) by
    obtain ⟨ys, hys⟩ := hall l [] fun _ hx => hx
    have hrun : l.filterM p s = (.ok ys.reverse, s) := by
      rw [List.filterM, run_bind, hys]
      rfl
    exact of_run hrun (hanswers _ _ hrun)
  intro rest
  induction rest with
  | nil => exact fun acc _ => ⟨acc, rfl⟩
  | cons x rest ih =>
      intro acc hrest
      obtain ⟨b, hb⟩ := (hreads x (hrest x (by simp))).exists_run
      obtain ⟨ys, hys⟩ := ih (cond b (x :: acc) acc) fun y hy => hrest y (by simp [hy])
      refine ⟨ys, ?_⟩
      rw [List.filterAuxM, run_bind, hb]
      exact hys

end Ends

end RecordGraph
