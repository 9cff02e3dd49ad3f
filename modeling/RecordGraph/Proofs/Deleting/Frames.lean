/-
# What fetching and deleting leave alone

A fetch replaces the collections that it fills, and wraps what it finds anew; a deletion
fetches before it deletes. So neither writes to a collection that was there before, and neither
changes the record of a model. This is said relative to a graph `old`, from which on the
actions run: a model has one of its collections loaded only where it had it before. It is so
for every run, also for one that fails half way, and on every store; which states the store
goes through is a parameter.
-/
import RecordGraph.Graph.Deleting
import RecordGraph.Proofs.Steps

namespace RecordGraph

variable {σ α β : Type}

/-- A relation between the states of a store that covers the calls made to fetch. -/
structure RecordStore.Covers [RecordStore σ] (R : σ → σ → Prop) : Prop where
  refl : ∀ s, R s s
  trans : ∀ {s t u}, R s t → R t u → R s u
  execute : ∀ q s, R s (RecordStore.execute q s).2
  loadMultiple : ∀ entityType ids s, R s (RecordStore.loadMultiple entityType ids s).2

namespace Graph

/-- From `g` to `g'` no collection of `old` was written to or loaded anew, and no model got
another record. -/
structure Frames (old : Graph σ) (R : σ → σ → Prop) (g g' : Graph σ) : Prop where
  store : R g.store g'.store
  models_size : g.models.size ≤ g'.models.size
  collections_size : g.collections.size ≤ g'.collections.size
  record : ∀ m, g.HasModel m → (g'.model m).record = (g.model m).record
  collection : ∀ c, old.HasCollection c → g'.collection c = g.collection c
  loaded : ∀ m name c, old.HasCollection c → (g'.model m).children.get? name = some c →
    (g.model m).children.get? name = some c

/-- The model has no collection of `old` loaded under the name. -/
def Detached (old g : Graph σ) (m : Model) (name : String) : Prop :=
  ∀ c, (g.model m).children.get? name = some c → ¬ old.HasCollection c

namespace Frames

variable {old g g' g'' : Graph σ} {R : σ → σ → Prop}

theorem trans [RecordStore σ] (hR : RecordStore.Covers R) (first : old.Frames R g g')
    (second : old.Frames R g' g'') : old.Frames R g g'' where
  store := hR.trans first.store second.store
  models_size := Nat.le_trans first.models_size second.models_size
  collections_size := Nat.le_trans first.collections_size second.collections_size
  record m hm := by
    rw [second.record m (Nat.lt_of_lt_of_le hm first.models_size), first.record m hm]
  collection c hc := by
    rw [second.collection c hc, first.collection c hc]
  loaded m name c hc hloaded := first.loaded m name c hc (second.loaded m name c hc hloaded)

theorem detached (h : old.Frames R g g') {m : Model} {name : String}
    (hm : old.Detached g m name) : old.Detached g' m name :=
  fun c hc hold => hm c (h.loaded m name c hold hc) hold

/-- Nothing happened to models and collections. -/
theorem of_same (hstore : R g.store g'.store) (hmodels : g'.models = g.models)
    (hcollections : g'.collections = g.collections) : old.Frames R g g' := by
  have hmodel : ∀ m, g'.model m = g.model m := by
    intro m
    rw [model, hmodels]
    rfl
  have hcollection : ∀ c, g'.collection c = g.collection c := by
    intro c
    rw [Graph.collection, hcollections]
    rfl
  refine ⟨hstore, Nat.le_of_eq (by rw [hmodels]), Nat.le_of_eq (by rw [hcollections]),
    fun m _ => ?_, fun c _ => hcollection c, fun m name c _ hc => ?_⟩
  · rw [hmodel m]
  · rwa [hmodel m] at hc

end Frames

end Graph

/-! ## Runs -/

/-- Every run of the action from `g` on, whether it answers or fails, leaves the collections of
`old` and all records alone; what it answers, if it does, has the property `q`. -/
structure Framed (old : Graph σ) (R : σ → σ → Prop) (x : Action σ α) (g : Graph σ)
    (q : α → Graph σ → Prop) : Prop where
  frames : old.Frames R g (x g).2
  answers : ∀ a, (x g).1 = .ok a → q a (x g).2

namespace Framed

variable {old g : Graph σ} {R : σ → σ → Prop}

theorem weaken {x : Action σ α} {q r : α → Graph σ → Prop} (h : Framed old R x g q)
    (hweaker : ∀ a g', q a g' → r a g') : Framed old R x g r :=
  ⟨h.frames, fun a ha => hweaker a _ (h.answers a ha)⟩

/-- What is not asked of the answer is not asked. -/
theorem forget {x : Action σ α} {q : α → Graph σ → Prop} (h : Framed old R x g q) :
    Framed old R x g fun _ _ => True :=
  h.weaken fun _ _ _ => trivial

theorem of_returns {x : Action σ α} {q : α → Graph σ → Prop} (h : Framed old R x g q) {a : α}
    {g' : Graph σ} (hrun : Returns x g a g') : old.Frames R g g' ∧ q a g' := by
  have hequal : x g = (.ok a, g') := hrun
  have hframes := h.frames
  have hanswers := h.answers
  rw [hequal] at hframes hanswers
  exact ⟨hframes, hanswers a rfl⟩

/-- An action that writes and answers. -/
theorem of_run {x : Action σ α} {a : α} {g' : Graph σ} {q : α → Graph σ → Prop}
    (hrun : x g = (.ok a, g')) (hframes : old.Frames R g g') (hq : q a g') :
    Framed old R x g q := by
  refine ⟨?_, fun b hb => ?_⟩
  · rw [hrun]
    exact hframes
  · rw [hrun] at hb ⊢
    exact Except.ok.inj hb ▸ hq

/-- After an action that reads and answers, the next one starts where it started. -/
theorem bind_of_reads {x : Action σ α} {f : α → Action σ β} {a : α} {q : β → Graph σ → Prop}
    (hreads : x g = (.ok a, g)) (hf : Framed old R (f a) g q) : Framed old R (x >>= f) g q := by
  have hrun : (x >>= f) g = f a g := by
    rw [run_bind, hreads]
  refine ⟨?_, ?_⟩
  · rw [hrun]
    exact hf.frames
  · rw [hrun]
    exact hf.answers

theorem call {c : Call σ α} (hc : R g.store (c g.store).2) :
    Framed old R (Action.call c) g fun _ _ => True :=
  ⟨.of_same hc rfl rfl, fun _ _ => trivial⟩

variable [RecordStore σ] (hR : RecordStore.Covers R)

include hR

/-- An action that changes nothing. -/
theorem of_reads {x : Action σ α} {q : α → Graph σ → Prop} (hreads : (x g).2 = g)
    (hanswers : ∀ a, (x g).1 = .ok a → q a g) : Framed old R x g q := by
  refine ⟨?_, fun a ha => ?_⟩
  · rw [hreads]
    exact .of_same (hR.refl _) rfl rfl
  · rw [hreads]
    exact hanswers a ha

protected theorem pure {a : α} {q : α → Graph σ → Prop} (hq : q a g) :
    Framed old R (pure a) g q :=
  of_reads hR rfl fun _ hb => Except.ok.inj hb ▸ hq

protected theorem throw {e : Error} {q : α → Graph σ → Prop} : Framed old R (throw e) g q :=
  of_reads hR rfl fun _ hb => by cases hb

/-- Two actions in sequence. The second one may rely on what the first one answered. -/
protected theorem bind {x : Action σ α} {f : α → Action σ β} {q : α → Graph σ → Prop}
    {r : β → Graph σ → Prop} (hx : Framed old R x g q)
    (hf : ∀ a g', old.Frames R g g' → q a g' → Framed old R (f a) g' r) :
    Framed old R (x >>= f) g r := by
  have hrun := run_bind x f g
  rcases hfirst : x g with ⟨answer, g'⟩
  have hframes : old.Frames R g g' := by simpa [hfirst] using hx.frames
  rw [hfirst] at hrun
  cases answer with
  | error e =>
      refine ⟨?_, ?_⟩
      · rw [hrun]
        exact hframes
      · rw [hrun]
        exact fun b hb => by cases hb
  | ok a =>
      have hq : q a g' := by simpa [hfirst] using hx.answers a (by rw [hfirst])
      have hsecond := hf a g' hframes hq
      refine ⟨?_, ?_⟩
      · rw [hrun]
        exact hframes.trans hR hsecond.frames
      · rw [hrun]
        exact hsecond.answers

/-- A computation on values only stops a run or lets it go on. -/
theorem bind_ofExcept {answer : Except Error α} {f : α → Action σ β} {q : β → Graph σ → Prop}
    (hf : ∀ a, answer = .ok a → Framed old R (f a) g q) :
    Framed old R (Action.ofExcept answer >>= f) g q := by
  cases hanswer : answer with
  | error e => exact of_reads hR rfl fun b hb => by cases hb
  | ok a => exact bind_of_reads rfl (hf a hanswer)

/-! ### Loops -/

theorem forM {f : α → Action σ PUnit} {l : List α}
    (hturn : ∀ x ∈ l, ∀ g', old.Frames R g g' → Framed old R (f x) g' fun _ _ => True) :
    Framed old R (l.forM f) g fun _ _ => True := by
  induction l generalizing g with
  | nil => exact Framed.pure hR trivial
  | cons x rest ih =>
      change Framed old R (f x >>= fun _ => rest.forM f) g _
      refine (hturn x (by simp) g (.of_same (hR.refl _) rfl rfl)).bind hR fun _ g' hframes _ => ?_
      exact ih fun y hy g'' hlater => hturn y (by simp [hy]) g'' (hframes.trans hR hlater)

theorem foldlM {f : β → α → Action σ β} {l : List α} {b : β} {q : β → Graph σ → Prop}
    (hq : q b g)
    (hturn : ∀ x ∈ l, ∀ c g', old.Frames R g g' → q c g' → Framed old R (f c x) g' q) :
    Framed old R (l.foldlM f b) g q := by
  induction l generalizing g b with
  | nil => exact Framed.pure hR hq
  | cons x rest ih =>
      rw [List.foldlM_cons]
      refine (hturn x (by simp) b g (.of_same (hR.refl _) rfl rfl) hq).bind hR
        fun c g' hframes hc => ?_
      exact ih hc fun y hy d g'' hlater =>
        hturn y (by simp [hy]) d g'' (hframes.trans hR hlater)

/-- What is promised of every member has to last, as other members have their turn. -/
theorem mapM {f : α → Action σ β} {l : List α} {q : α → β → Graph σ → Prop}
    (hlasts : ∀ x y g₁ g₂, old.Frames R g₁ g₂ → q x y g₁ → q x y g₂)
    (hturn : ∀ x ∈ l, ∀ g', old.Frames R g g' → Framed old R (f x) g' (q x)) :
    Framed old R (l.mapM f) g fun ys g' =>
      (∀ x ∈ l, ∃ y ∈ ys, q x y g') ∧ ∀ y ∈ ys, ∃ x ∈ l, q x y g' := by
  induction l generalizing g with
  | nil =>
      rw [List.mapM_nil]
      exact Framed.pure hR (by simp)
  | cons x rest ih =>
      rw [List.mapM_cons]
      refine (hturn x (by simp) g (.of_same (hR.refl _) rfl rfl)).bind hR
        fun y g' hframes hy => ?_
      have hrest := ih fun z hz g'' hlater =>
        hturn z (by simp [hz]) g'' (hframes.trans hR hlater)
      refine Framed.bind hR ⟨hrest.frames, fun ys hys => ⟨hrest.frames, hrest.answers ys hys⟩⟩
        (q := fun ys g'' => old.Frames R g' g'' ∧
          (∀ z ∈ rest, ∃ w ∈ ys, q z w g'') ∧ ∀ w ∈ ys, ∃ z ∈ rest, q z w g'')
        fun ys g'' _ hys => Framed.pure hR ?_
      obtain ⟨hlater, hforward, hback⟩ := hys
      have hfirst := hlasts x y g' g'' hlater hy
      refine ⟨fun z hz => ?_, fun w hw => ?_⟩
      · rcases List.mem_cons.mp hz with rfl | hz
        · exact ⟨y, by simp, hfirst⟩
        · obtain ⟨w, hw, hq⟩ := hforward z hz
          exact ⟨w, by simp [hw], hq⟩
      · rcases List.mem_cons.mp hw with rfl | hw
        · exact ⟨x, by simp, hfirst⟩
        · obtain ⟨z, hz, hq⟩ := hback w hw
          exact ⟨z, by simp [hz], hq⟩

theorem filterM {p : α → Action σ Bool} {l : List α}
    (hturn : ∀ x ∈ l, ∀ g', old.Frames R g g' → Framed old R (p x) g' fun _ _ => True) :
    Framed old R (l.filterM p) g fun _ _ => True := by
  have haux : ∀ (rest acc : List α) (g' : Graph σ), (∀ x ∈ rest, x ∈ l) → old.Frames R g g' →
      Framed old R (rest.filterAuxM p acc) g' fun _ _ => True := by
    intro rest
    induction rest with
    | nil => exact fun acc g' _ _ => Framed.pure hR trivial
    | cons x rest ih =>
        intro acc g' hrest hframes
        rw [List.filterAuxM]
        refine (hturn x (hrest x (by simp)) g' hframes).bind hR fun b g'' hlater _ => ?_
        exact ih _ g'' (fun y hy => hrest y (by simp [hy])) (hframes.trans hR hlater)
  rw [List.filterM]
  exact (haux l [] g (fun _ h => h) (.of_same (hR.refl _) rfl rfl)).bind hR
    fun _ _ _ _ => Framed.pure hR trivial

end Framed

end RecordGraph
