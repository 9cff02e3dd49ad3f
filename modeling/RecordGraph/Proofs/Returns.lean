/-
# Runs that answer

Actions of this library read and change a state and may fail. `Returns a s x s'` says that
the action answers `x` when it starts in `s`, and leaves `s'`. What a composite action did is
read off such a run step by step; a loop is read off by an invariant that every turn of it
keeps. `Succeeds a s` says that there is such a run: a composite action has one if each part has
one wherever the parts before it may have led. Nothing is said here about runs that fail.
-/
import RecordGraph.Error

namespace RecordGraph

variable {S α β : Type}

/-- Two computations on values in sequence succeed when both do. -/
@[simp] theorem except_bind_eq_ok {x : Except Error α} {f : α → Except Error β} {b : β} :
    (x >>= f) = .ok b ↔ ∃ a, x = .ok a ∧ f a = .ok b := by
  cases x with
  | error e => simp [bind, Except.bind]
  | ok a => simp [bind, Except.bind]

@[simp] theorem except_pure_eq_ok {a b : α} :
    (pure a : Except Error α) = .ok b ↔ b = a := by
  constructor
  · intro h
    exact (Except.ok.inj h).symm
  · rintro rfl
    rfl

@[simp] theorem except_throw_ne_ok {e : Error} {a : α} : (throw e : Except Error α) ≠ .ok a := by
  simp [throw, throwThe, MonadExceptOf.throw]

/-- What holds before a fold of computations on values and is kept by every turn holds after
it. -/
theorem except_foldlM_invariant {f : β → α → Except Error β} {xs : List α} {b b' : β}
    (h : xs.foldlM f b = .ok b') (Inv : β → Prop) (start : Inv b)
    (turn : ∀ x ∈ xs, ∀ c c', Inv c → f c x = .ok c' → Inv c') : Inv b' := by
  induction xs generalizing b with
  | nil => exact Except.ok.inj h ▸ start
  | cons x rest ih =>
      rw [List.foldlM_cons, except_bind_eq_ok] at h
      obtain ⟨c, hfirst, hrest⟩ := h
      exact ih hrest (turn x (by simp) b c start hfirst) fun y hy => turn y (by simp [hy])

/-- What one turn of a fold brings about and every turn keeps holds after it. -/
theorem except_foldlM_established {f : β → α → Except Error β} {xs : List α} {b b' : β} {x : α}
    (h : xs.foldlM f b = .ok b') (hx : x ∈ xs) (Holds : β → Prop)
    (turn : ∀ c c', f c x = .ok c' → Holds c')
    (keeps : ∀ y ∈ xs, ∀ c c', Holds c → f c y = .ok c' → Holds c') : Holds b' := by
  obtain ⟨done, rest, rfl⟩ := List.append_of_mem hx
  rw [List.foldlM_append, except_bind_eq_ok] at h
  obtain ⟨c, -, h⟩ := h
  rw [List.foldlM_cons, except_bind_eq_ok] at h
  obtain ⟨c', hturn, hrest⟩ := h
  exact except_foldlM_invariant hrest Holds (turn c c' hturn) fun y hy =>
    keeps y (by simp [hy])

/-- Whatever a traversal answers was answered for a member of the list. -/
theorem mem_of_except_mapM {f : α → Except Error β} {xs : List α} {ys : List β}
    (h : xs.mapM f = .ok ys) : ∀ y ∈ ys, ∃ x ∈ xs, f x = .ok y := by
  induction xs generalizing ys with
  | nil =>
      rw [List.mapM_nil, except_pure_eq_ok] at h
      simp [h]
  | cons x rest ih =>
      simp only [List.mapM_cons, except_bind_eq_ok, except_pure_eq_ok] at h
      obtain ⟨y, hfirst, others, hothers, rfl⟩ := h
      intro z hz
      rcases List.mem_cons.mp hz with rfl | hz
      · exact ⟨x, by simp, hfirst⟩
      · obtain ⟨w, hw, hanswer⟩ := ih hothers z hz
        exact ⟨w, by simp [hw], hanswer⟩

/-- A traversal that answers nothing succeeds when every turn does. -/
theorem except_forM_eq_ok {f : α → Except Error Unit} {xs : List α} {u : Unit} :
    xs.forM f = .ok u ↔ ∀ x ∈ xs, f x = .ok () := by
  induction xs with
  | nil => simp [List.forM, pure, Except.pure]
  | cons x rest ih =>
      change (f x >>= fun _ => rest.forM f) = .ok u ↔ _
      rw [except_bind_eq_ok, ih, List.forall_mem_cons]
      exact ⟨fun ⟨_, hfirst, hrest⟩ => ⟨hfirst, hrest⟩,
        fun ⟨hfirst, hrest⟩ => ⟨(), hfirst, hrest⟩⟩

/-- Every member of the list has its answer among those of a traversal. -/
theorem exists_mem_of_except_mapM {f : α → Except Error β} {xs : List α} {ys : List β}
    (h : xs.mapM f = .ok ys) : ∀ x ∈ xs, ∃ y ∈ ys, f x = .ok y := by
  induction xs generalizing ys with
  | nil => simp
  | cons x rest ih =>
      simp only [List.mapM_cons, except_bind_eq_ok, except_pure_eq_ok] at h
      obtain ⟨y, hfirst, others, hothers, rfl⟩ := h
      intro z hz
      rcases List.mem_cons.mp hz with rfl | hz
      · exact ⟨y, by simp, hfirst⟩
      · obtain ⟨w, hw, hanswer⟩ := ih hothers z hz
        exact ⟨w, by simp [hw], hanswer⟩

/-- A traversal answers if every turn does. -/
theorem exists_except_mapM {f : α → Except Error β} {xs : List α}
    (h : ∀ x ∈ xs, ∃ y, f x = .ok y) : ∃ ys, xs.mapM f = .ok ys := by
  induction xs with
  | nil => exact ⟨[], List.mapM_nil⟩
  | cons x rest ih =>
      obtain ⟨y, hfirst⟩ := h x (by simp)
      obtain ⟨ys, hrest⟩ := ih fun z hz => h z (by simp [hz])
      refine ⟨y :: ys, ?_⟩
      simp only [List.mapM_cons, except_bind_eq_ok, except_pure_eq_ok]
      exact ⟨y, hfirst, ys, hrest, rfl⟩

/-- A fold answers if every turn does and keeps what the turns need. -/
theorem exists_except_foldlM {f : β → α → Except Error β} {xs : List α} {b : β} (Inv : β → Prop)
    (start : Inv b) (turn : ∀ x ∈ xs, ∀ c, Inv c → ∃ c', f c x = .ok c' ∧ Inv c') :
    ∃ b', xs.foldlM f b = .ok b' ∧ Inv b' := by
  induction xs generalizing b with
  | nil => exact ⟨b, rfl, start⟩
  | cons x rest ih =>
      obtain ⟨c, hfirst, hc⟩ := turn x (by simp) b start
      obtain ⟨b', hrest, hb'⟩ := ih hc fun z hz => turn z (by simp [hz])
      exact ⟨b', by rw [List.foldlM_cons, hfirst]; exact hrest, hb'⟩

/-- The action answers `x` from `s` on and leaves `s'`. -/
def Returns (a : ExceptT Error (StateM S) α) (s : S) (x : α) (s' : S) : Prop :=
  @Eq (Except Error α × S) (a s) (.ok x, s')

/-- An action that answers at all does so in the state that its run leaves. -/
theorem returns_of_fst_eq_ok {a : ExceptT Error (StateM S) α} {s : S} {x : α}
    (h : (a s).1 = .ok x) : Returns a s x (a s).2 :=
  Prod.ext h rfl

/-- A computation that does not fail answers. -/
theorem eq_ok_of_isOk {x : Except Error α} (h : x.isOk = true) (otherwise : α) :
    x = .ok (x.toOption.getD otherwise) := by
  cases x with
  | error e => cases h
  | ok a => rfl

/-- An action that does not fail answers. -/
theorem returns_of_isOk {a : ExceptT Error (StateM S) α} {s : S} (h : (a s).1.isOk = true)
    (otherwise : α) : Returns a s ((a s).1.toOption.getD otherwise) (a s).2 :=
  returns_of_fst_eq_ok (eq_ok_of_isOk h otherwise)

/-- An action that fails does not answer. -/
theorem not_returns_of_not_isOk {a : ExceptT Error (StateM S) α} {s : S}
    (h : (a s).1.isOk = false) (x : α) (s' : S) : ¬ Returns a s x s' := by
  intro hreturns
  have hequal : a s = (.ok x, s') := hreturns
  rw [hequal] at h
  cases h

/-- From one state an action answers at most once. -/
theorem Returns.unique {a : ExceptT Error (StateM S) α} {s : S} {x y : α} {s' t' : S}
    (first : Returns a s x s') (second : Returns a s y t') : x = y ∧ s' = t' := by
  have hequal : ((.ok x, s') : Except Error α × S) = (.ok y, t') := first.symm.trans second
  simpa using hequal

@[simp] theorem returns_pure {x y : α} {s s' : S} :
    Returns (pure x) s y s' ↔ s' = s ∧ y = x := by
  constructor
  · intro h
    obtain ⟨hanswer, hstate⟩ := (show Returns (pure x) s x s from rfl).unique h
    exact ⟨hstate.symm, hanswer.symm⟩
  · rintro ⟨rfl, rfl⟩
    rfl

@[simp] theorem returns_throw {e : Error} {x : α} {s s' : S} :
    ¬ Returns (throw e) s x s' := by
  intro h
  have hequal : ((.error e, s) : Except Error α × S) = (.ok x, s') := h
  simp at hequal

/-- An action that fails ends a sequence; what it changed stays. -/
theorem run_bind (a : ExceptT Error (StateM S) α) (f : α → ExceptT Error (StateM S) β) (s : S) :
    (a >>= f) s = match a s with
      | (.ok x, between) => f x between
      | (.error e, between) => (.error e, between) := by
  change (match a s with
    | (answer, between) => ExceptT.bindCont f answer between) = _
  rcases a s with ⟨answer, between⟩
  cases answer <;> rfl

/-- After an action that answers, the next one runs where it ended. -/
theorem Returns.run_bind {a : ExceptT Error (StateM S) α} {s t : S} {x : α}
    (h : Returns a s x t) (f : α → ExceptT Error (StateM S) β) : (a >>= f) s = f x t := by
  rw [RecordGraph.run_bind, show a s = (.ok x, t) from h]

/-- After an action that fails, nothing runs. -/
theorem run_bind_of_error {a : ExceptT Error (StateM S) α} {s t : S} {e : Error}
    (h : a s = (.error e, t)) (f : α → ExceptT Error (StateM S) β) :
    (a >>= f) s = (.error e, t) := by
  rw [run_bind, h]

/-- Two actions in sequence: the second one starts where the first one ends. -/
@[simp] theorem returns_bind {a : ExceptT Error (StateM S) α}
    {f : α → ExceptT Error (StateM S) β} {s s' : S} {y : β} :
    Returns (a >>= f) s y s' ↔
      ∃ x between, Returns a s x between ∧ Returns (f x) between y s' := by
  constructor
  · intro h
    have hanswer : (a >>= f) s = (.ok y, s') := h
    rw [run_bind] at hanswer
    rcases hfirst : a s with ⟨answer, between⟩
    rw [hfirst] at hanswer
    cases answer with
    | ok x => exact ⟨x, between, hfirst, hanswer⟩
    | error e => exact absurd hanswer (by intro hequal; cases hequal)
  · rintro ⟨x, between, hfirst, hsecond⟩
    exact (hfirst.run_bind f).trans hsecond

@[simp] theorem returns_map {a : ExceptT Error (StateM S) α} {f : α → β} {s s' : S} {y : β} :
    Returns (f <$> a) s y s' ↔ ∃ x, Returns a s x s' ∧ y = f x := by
  rw [← bind_pure_comp, returns_bind]
  constructor
  · rintro ⟨x, between, hfirst, hsecond⟩
    obtain ⟨rfl, rfl⟩ := returns_pure.mp hsecond
    exact ⟨x, hfirst, rfl⟩
  · rintro ⟨x, hfirst, rfl⟩
    exact ⟨x, s', hfirst, returns_pure.mpr ⟨rfl, rfl⟩⟩

@[simp] theorem returns_get {s x s' : S} :
    Returns (get : ExceptT Error (StateM S) S) s x s' ↔ s' = s ∧ x = s := by
  constructor
  · intro h
    have hequal : ((.ok s, s) : Except Error S × S) = (.ok x, s') := h
    simp only [Prod.mk.injEq, Except.ok.injEq] at hequal
    exact ⟨hequal.2.symm, hequal.1.symm⟩
  · rintro ⟨rfl, rfl⟩
    rfl

@[simp] theorem returns_set {s s' t : S} {u : PUnit} :
    Returns (set t : ExceptT Error (StateM S) PUnit) s u s' ↔ s' = t := by
  constructor
  · intro h
    have hequal : ((.ok u, t) : Except Error PUnit × S) = (.ok u, s') := h
    simp only [Prod.mk.injEq, true_and] at hequal
    exact hequal.symm
  · rintro rfl
    rfl

@[simp] theorem returns_modify {f : S → S} {s s' : S} {u : PUnit} :
    Returns (modify f : ExceptT Error (StateM S) PUnit) s u s' ↔ s' = f s := by
  constructor
  · intro h
    have hequal : ((.ok u, f s) : Except Error PUnit × S) = (.ok u, s') := h
    simp only [Prod.mk.injEq, true_and] at hequal
    exact hequal.symm
  · rintro rfl
    rfl

/-! ## Loops -/

/-- What holds before a loop and is kept by every turn holds after it. The invariant may
speak of the part of the list that was gone through. -/
theorem Returns.forM_invariant {f : α → ExceptT Error (StateM S) PUnit} {xs : List α}
    {s s' : S} {u : PUnit} (h : Returns (xs.forM f) s u s') (Inv : List α → S → Prop)
    (start : Inv [] s)
    (turn : ∀ done x rest t t', xs = done ++ x :: rest → Inv done t →
      Returns (f x) t ⟨⟩ t' → Inv (done ++ [x]) t') : Inv xs s' := by
  suffices hall : ∀ (rest done : List α) (t : S), xs = done ++ rest → Inv done t →
      Returns (rest.forM f) t u s' → Inv xs s' from hall xs [] s rfl start h
  intro rest
  induction rest with
  | nil =>
      intro done t hsplit hdone hrun
      obtain ⟨rfl, -⟩ := returns_pure.mp hrun
      rw [List.append_nil] at hsplit
      exact hsplit ▸ hdone
  | cons x rest ih =>
      intro done t hsplit hdone hrun
      obtain ⟨v, between, hfirst, hothers⟩ := returns_bind.mp hrun
      exact ih (done ++ [x]) between (by simp [hsplit])
        (turn done x rest t between hsplit hdone hfirst) hothers

/-- What holds of the accumulator and the state before a fold and is kept by every turn holds
after it. -/
theorem Returns.foldlM_invariant {f : β → α → ExceptT Error (StateM S) β} {xs : List α}
    {b b' : β} {s s' : S} (h : Returns (xs.foldlM f b) s b' s') (Inv : List α → β → S → Prop)
    (start : Inv [] b s)
    (turn : ∀ done x rest c t c' t', xs = done ++ x :: rest → Inv done c t →
      Returns (f c x) t c' t' → Inv (done ++ [x]) c' t') : Inv xs b' s' := by
  suffices hall : ∀ (rest done : List α) (c : β) (t : S), xs = done ++ rest → Inv done c t →
      Returns (rest.foldlM f c) t b' s' → Inv xs b' s' from hall xs [] b s rfl start h
  intro rest
  induction rest with
  | nil =>
      intro done c t hsplit hdone hrun
      obtain ⟨rfl, rfl⟩ := returns_pure.mp hrun
      rw [List.append_nil] at hsplit
      exact hsplit ▸ hdone
  | cons x rest ih =>
      intro done c t hsplit hdone hrun
      rw [List.foldlM_cons] at hrun
      obtain ⟨c', between, hfirst, hothers⟩ := returns_bind.mp hrun
      exact ih (done ++ [x]) c' between (by simp [hsplit])
        (turn done x rest c t c' between hsplit hdone hfirst) hothers

/-- What holds of the answers and the state before a traversal and is kept by every turn holds
after it. -/
theorem Returns.mapM_invariant {f : α → ExceptT Error (StateM S) β} {xs : List α}
    {ys : List β} {s s' : S} (h : Returns (xs.mapM f) s ys s') (Inv : List α → List β → S → Prop)
    (start : Inv [] [] s)
    (turn : ∀ done x rest answers t y t', xs = done ++ x :: rest → Inv done answers t →
      Returns (f x) t y t' → Inv (done ++ [x]) (answers ++ [y]) t') : Inv xs ys s' := by
  suffices hall : ∀ (rest done : List α) (answers : List β) (ys' : List β) (t : S),
      xs = done ++ rest → Inv done answers t → Returns (rest.mapM f) t ys' s' →
      Inv xs (answers ++ ys') s' by
    simpa using hall xs [] [] ys s rfl start h
  intro rest
  induction rest with
  | nil =>
      intro done answers ys' t hsplit hdone hrun
      rw [List.mapM_nil] at hrun
      obtain ⟨rfl, rfl⟩ := returns_pure.mp hrun
      rw [List.append_nil] at hsplit ⊢
      exact hsplit ▸ hdone
  | cons x rest ih =>
      intro done answers ys' t hsplit hdone hrun
      rw [List.mapM_cons] at hrun
      obtain ⟨y, between, hfirst, hrun⟩ := returns_bind.mp hrun
      obtain ⟨others, last, hothers, hanswer⟩ := returns_bind.mp hrun
      obtain ⟨rfl, rfl⟩ := returns_pure.mp hanswer
      have hnext := ih (done ++ [x]) (answers ++ [y]) others between (by simp [hsplit])
        (turn done x rest answers t y between hsplit hdone hfirst) hothers
      simpa using hnext

/-- A traversal that only reads answers what it reads of each member. -/
theorem Returns.mapM_of_reads {f : α → ExceptT Error (StateM S) β} {v : α → β} {xs : List α}
    {ys : List β} {s s' : S} (hreads : ∀ x y t, Returns (f x) s y t → t = s ∧ y = v x)
    (h : Returns (xs.mapM f) s ys s') : s' = s ∧ ys = xs.map v := by
  refine h.mapM_invariant (fun done answers t => t = s ∧ answers = done.map v) ⟨rfl, rfl⟩ ?_
  rintro done x rest answers t y t' - ⟨rfl, rfl⟩ hturn
  obtain ⟨rfl, rfl⟩ := hreads x y t' hturn
  exact ⟨rfl, by simp⟩

/-- A filter whose test only reads is the filter by what the test reads. -/
theorem Returns.filterM_of_reads {p : α → ExceptT Error (StateM S) Bool} {q : α → Bool}
    {xs ys : List α} {s s' : S} (hreads : ∀ x b t, Returns (p x) s b t → t = s ∧ b = q x)
    (h : Returns (xs.filterM p) s ys s') : s' = s ∧ ys = xs.filter q := by
  rw [List.filterM, returns_bind] at h
  obtain ⟨chosen, between, hrun, hanswer⟩ := h
  obtain ⟨rfl, rfl⟩ := returns_pure.mp hanswer
  suffices hall : ∀ (rest acc chosen : List α), Returns (rest.filterAuxM p acc) s chosen s' →
      s' = s ∧ chosen = (rest.filter q).reverse ++ acc by
    obtain ⟨hstate, hchosen⟩ := hall xs [] chosen hrun
    exact ⟨hstate, by simp [hchosen]⟩
  intro rest
  induction rest with
  | nil =>
      intro acc chosen hrun
      rw [List.filterAuxM, returns_pure] at hrun
      simpa using hrun
  | cons x rest ih =>
      intro acc chosen hrun
      rw [List.filterAuxM, returns_bind] at hrun
      obtain ⟨b, between, hfirst, hothers⟩ := hrun
      obtain ⟨rfl, rfl⟩ := hreads x b between hfirst
      obtain ⟨hstate, hchosen⟩ := ih _ chosen hothers
      refine ⟨hstate, ?_⟩
      rw [hchosen]
      cases hx : q x with
      | true => simp [hx]
      | false => simp [hx]

/-! ## Actions that answer -/

/-- The action answers from `s` on. -/
def Succeeds (a : ExceptT Error (StateM S) α) (s : S) : Prop := ∃ x s', Returns a s x s'

section Answering

variable {a : ExceptT Error (StateM S) α} {s : S}

theorem succeeds_pure (x : α) (s : S) :
    Succeeds (pure x : ExceptT Error (StateM S) α) s :=
  ⟨x, s, returns_pure.mpr ⟨rfl, rfl⟩⟩

theorem Succeeds.bind {f : α → ExceptT Error (StateM S) β} (h : Succeeds a s)
    (hf : ∀ x t, Returns a s x t → Succeeds (f x) t) : Succeeds (a >>= f) s := by
  obtain ⟨x, t, hfirst⟩ := h
  obtain ⟨y, t', hsecond⟩ := hf x t hfirst
  exact ⟨y, t', returns_bind.mpr ⟨x, t, hfirst, hsecond⟩⟩

theorem Returns.succeeds_bind {f : α → ExceptT Error (StateM S) β} {x : α} {t : S}
    (h : Returns a s x t) (hf : Succeeds (f x) t) : Succeeds (a >>= f) s := by
  obtain ⟨y, t', hsecond⟩ := hf
  exact ⟨y, t', returns_bind.mpr ⟨x, t, h, hsecond⟩⟩

theorem Succeeds.mapM {f : α → ExceptT Error (StateM S) β} {xs : List α}
    (turn : ∀ x ∈ xs, ∀ t, Succeeds (f x) t) (s : S) : Succeeds (xs.mapM f) s := by
  induction xs generalizing s with
  | nil => exact succeeds_pure [] s
  | cons x rest ih =>
      rw [List.mapM_cons]
      refine (turn x (by simp) s).bind fun y t _ => ?_
      exact (ih (fun z hz => turn z (by simp [hz])) t).bind fun ys t' _ => succeeds_pure _ t'

theorem Succeeds.foldlM {f : β → α → ExceptT Error (StateM S) β} {xs : List α}
    (turn : ∀ b, ∀ x ∈ xs, ∀ t, Succeeds (f b x) t) (b : β) (s : S) :
    Succeeds (xs.foldlM f b) s := by
  induction xs generalizing b s with
  | nil => exact succeeds_pure b s
  | cons x rest ih =>
      rw [List.foldlM_cons]
      exact (turn b x (by simp) s).bind fun c t _ =>
        ih (fun d z hz => turn d z (by simp [hz])) c t

/-- A loop of which every turn answers or fails, wherever the turns before it may have led, goes
through the whole list or ends with the first turn that fails. -/
theorem forM_answers_or_fails (f : α → ExceptT Error (StateM S) PUnit) (xs : List α)
    (Inv : List α → S → Prop) (Fails : Error → S → Prop) (start : Inv [] s)
    (turn : ∀ done x rest t, xs = done ++ x :: rest → Inv done t →
      (∃ t', Returns (f x) t ⟨⟩ t' ∧ Inv (done ++ [x]) t') ∨
        ∃ e t', f x t = (.error e, t') ∧ Fails e t') :
    (∃ s', Returns (xs.forM f) s ⟨⟩ s' ∧ Inv xs s') ∨
      ∃ e s', xs.forM f s = (.error e, s') ∧ Fails e s' := by
  suffices hall : ∀ rest done t, xs = done ++ rest → Inv done t →
      (∃ s', Returns (rest.forM f) t ⟨⟩ s' ∧ Inv xs s') ∨
        ∃ e s', rest.forM f t = (.error e, s') ∧ Fails e s' from hall xs [] s rfl start
  intro rest
  induction rest with
  | nil =>
      intro done t hsplit hdone
      rw [List.append_nil] at hsplit
      exact .inl ⟨t, returns_pure.mpr ⟨rfl, rfl⟩, hsplit ▸ hdone⟩
  | cons x rest ih =>
      intro done t hsplit hdone
      rcases turn done x rest t hsplit hdone with ⟨t', hfirst, hnext⟩ | ⟨e, t', hfirst, hfails⟩
      · rcases ih (done ++ [x]) t' (by simp [hsplit]) hnext with
          ⟨s', hrest, hs'⟩ | ⟨e, s', hrest, hfails⟩
        · exact .inl ⟨s', returns_bind.mpr ⟨⟨⟩, t', hfirst, hrest⟩, hs'⟩
        · exact .inr ⟨e, s', (hfirst.run_bind fun _ => rest.forM f).trans hrest, hfails⟩
      · exact .inr ⟨e, t', run_bind_of_error hfirst fun _ => rest.forM f, hfails⟩

/-- A loop answers if every turn does wherever the turns before it may have led. -/
theorem exists_returns_forM {f : α → ExceptT Error (StateM S) PUnit} {xs : List α}
    (Inv : S → Prop) (start : Inv s)
    (turn : ∀ x ∈ xs, ∀ t, Inv t → ∃ t', Returns (f x) t ⟨⟩ t' ∧ Inv t') :
    ∃ s', Returns (xs.forM f) s ⟨⟩ s' ∧ Inv s' := by
  rcases forM_answers_or_fails f xs (fun _ => Inv) (fun _ _ => False) start
      fun done x rest t hsplit ht => .inl (turn x (by simp [hsplit]) t ht) with hreturns | hfails
  · exact hreturns
  · obtain ⟨_, _, _, hnever⟩ := hfails
    exact hnever.elim

end Answering

end RecordGraph
