/-
# Actions that uphold what graphs promise

Whether an action answers or fails, what it changed stays. So `Upholds` speaks of every run:
the graph that it leaves is well formed and has grown from the one that it started in, no session
has forgotten a model, and what the action answers, if it does, is as promised there. Composite
actions are gone through by one rule for sequences and one for each kind of loop.

What is supposed of the store is a parameter: any property of its states that all of its calls
keep. If it keeps identifiers as well, all that happened is a number of writes.
-/
import RecordGraph.Proofs.Graphs
import RecordGraph.Proofs.Upholding.Moves

namespace RecordGraph

variable {σ α β : Type}

/-- A property of the states of a store that every call keeps. What is saved comes back with an
identifier. -/
structure RecordStore.Keeps [RecordStore σ] (Kept : σ → Prop) : Prop where
  create : ∀ entityType bundle (s : σ), Kept s → Kept (RecordStore.create entityType bundle s).2
  load : ∀ entityType id (s : σ), Kept s → Kept (RecordStore.load entityType id s).2
  loadMultiple : ∀ entityType ids (s : σ), Kept s →
    Kept (RecordStore.loadMultiple entityType ids s).2
  execute : ∀ q (s : σ), Kept s → Kept (RecordStore.execute q s).2
  count : ∀ q (s : σ), Kept s → Kept (RecordStore.count q s).2
  aggregate : ∀ q a (s : σ), Kept s → Kept (RecordStore.aggregate q a s).2
  save : ∀ r (s : σ), Kept s → Kept (RecordStore.save r s).2
  delete : ∀ r (s : σ), Kept s → Kept (RecordStore.delete r s).2
  saved : ∀ r (s : σ) stored, Kept s → (RecordStore.save r s).1 = .ok stored →
    stored.isNew = false

/-- A well-formed graph over a store of which the property holds. -/
structure Graph.Sound (Kept : σ → Prop) (g : Graph σ) : Prop where
  wellFormed : g.WellFormed
  store : Kept g.store

/-- The second graph is sound and grew from the first one, with things loaded where they belong
if they were, by writes alone if the store keeps identifiers. -/
structure Graph.Proceeds [RecordStore σ] (Kept : σ → Prop) (g g' : Graph σ) : Prop where
  sound : g'.Sound Kept
  grows : g.Grows g'
  orderly : g.Orderly → g'.Orderly
  moves : RecordStore.KeepsIds Kept → g.Moves g'

theorem Graph.Proceeds.refl [RecordStore σ] {Kept : σ → Prop} {g : Graph σ}
    (hg : g.Sound Kept) : g.Proceeds Kept g :=
  ⟨hg, .refl g, id, fun _ => .refl⟩

theorem Graph.Proceeds.trans [RecordStore σ] {Kept : σ → Prop} {g₁ g₂ g₃ : Graph σ}
    (first : g₁.Proceeds Kept g₂) (second : g₂.Proceeds Kept g₃) : g₁.Proceeds Kept g₃ :=
  ⟨second.sound, first.grows.trans second.grows, fun h => second.orderly (first.orderly h),
    fun h => (first.moves h).trans (second.moves h)⟩

/-- Every run of the action from `g` on leaves a graph that `g` proceeds to while no session
forgets a model, and answers what has the property `q` there, unless it fails. -/
structure Upholds [RecordStore σ] (Kept : σ → Prop) (x : Action σ α) (g : Graph σ)
    (q : α → Graph σ → Prop) : Prop extends g.Proceeds Kept (x g).2 where
  remembers : ∀ s, g.Remembers s (x g).2
  answers : ∀ a, (x g).1 = .ok a → q a (x g).2

namespace Upholds

variable [RecordStore σ] {Kept : σ → Prop} {g : Graph σ}

theorem weaken {x : Action σ α} {q r : α → Graph σ → Prop} (h : Upholds Kept x g q)
    (hweaker : ∀ a g', g.Grows g' → q a g' → r a g') : Upholds Kept x g r :=
  ⟨h.toProceeds, h.remembers, fun a ha => hweaker a _ h.grows (h.answers a ha)⟩

/-- What is known of every answer may be promised as well. -/
theorem strengthen {x : Action σ α} {q r : α → Graph σ → Prop} (h : Upholds Kept x g q)
    (hknown : ∀ a g', Returns x g a g' → q a g' → r a g') : Upholds Kept x g r :=
  ⟨h.toProceeds, h.remembers, fun a ha =>
    hknown a _ (returns_of_fst_eq_ok ha) (h.answers a ha)⟩

/-- What a run that answers leaves. -/
theorem of_returns {x : Action σ α} {q : α → Graph σ → Prop} (h : Upholds Kept x g q) {a : α}
    {g' : Graph σ} (hrun : Returns x g a g') : g'.Sound Kept ∧ g.Grows g' ∧ q a g' := by
  have hequal : x g = (.ok a, g') := hrun
  have hsound := h.sound
  have hgrows := h.grows
  have hanswers := h.answers
  rw [hequal] at hsound hgrows hanswers
  exact ⟨hsound, hgrows, hanswers a rfl⟩

theorem orderly_of_returns {x : Action σ α} {q : α → Graph σ → Prop} (h : Upholds Kept x g q)
    {a : α} {g' : Graph σ} (hrun : Returns x g a g') (hg : g.Orderly) : g'.Orderly := by
  have hequal : x g = (.ok a, g') := hrun
  have horderly := h.orderly hg
  rwa [hequal] at horderly

/-- What has to be known of a run, whether it answers or fails. -/
theorem of_graph {x : Action σ α} {answer : Except Error α} {g' : Graph σ}
    {q : α → Graph σ → Prop} (hrun : x g = (answer, g')) (hproceeds : g.Proceeds Kept g')
    (hremembers : ∀ s, g.Remembers s g') (hanswers : ∀ a, answer = .ok a → q a g') :
    Upholds Kept x g q := by
  refine ⟨?_, ?_, ?_⟩
  · rw [hrun]
    exact hproceeds
  · rw [hrun]
    exact hremembers
  · rw [hrun]
    exact hanswers

/-- An action that changes nothing. -/
theorem of_reads {x : Action σ α} {q : α → Graph σ → Prop} (hg : g.Sound Kept)
    (hreads : (x g).2 = g) (hanswers : ∀ a, (x g).1 = .ok a → q a g) : Upholds Kept x g q := by
  have hrun : x g = ((x g).1, g) := Prod.ext rfl hreads
  exact of_graph hrun (.refl hg) (fun _ => .refl g) hanswers

protected theorem pure {a : α} {q : α → Graph σ → Prop} (hg : g.Sound Kept) (hq : q a g) :
    Upholds Kept (pure a) g q :=
  of_reads hg rfl fun _ hb => Except.ok.inj hb ▸ hq

protected theorem throw {e : Error} {q : α → Graph σ → Prop} (hg : g.Sound Kept) :
    Upholds Kept (throw e) g q :=
  of_reads hg rfl fun _ hb => by cases hb

theorem ofExcept {answer : Except Error α} {q : α → Graph σ → Prop} (hg : g.Sound Kept)
    (hq : ∀ a, answer = .ok a → q a g) : Upholds Kept (Action.ofExcept answer) g q :=
  of_reads hg rfl hq

/-- Two actions in sequence. The second one may rely on what the first one answered. -/
protected theorem bind {x : Action σ α} {f : α → Action σ β} {q : α → Graph σ → Prop}
    {r : β → Graph σ → Prop} (hx : Upholds Kept x g q)
    (hf : ∀ a g', g'.Sound Kept → g.Grows g' → q a g' → Upholds Kept (f a) g' r) :
    Upholds Kept (x >>= f) g r := by
  have hrun := run_bind x f g
  rcases hfirst : x g with ⟨answer, g'⟩
  have hproceeds : g.Proceeds Kept g' := by simpa [hfirst] using hx.toProceeds
  have hremembers : ∀ s, g.Remembers s g' := by simpa [hfirst] using hx.remembers
  rw [hfirst] at hrun
  cases answer with
  | error e => exact of_graph hrun hproceeds hremembers fun b hb => by cases hb
  | ok a =>
      have hq : q a g' := by simpa [hfirst] using hx.answers a (by rw [hfirst])
      have hsecond := hf a g' hproceeds.sound hproceeds.grows hq
      exact of_graph hrun (hproceeds.trans hsecond.toProceeds)
        (fun s => (hremembers s).trans (hsecond.remembers s) hproceeds.grows hsecond.grows)
        hsecond.answers

/-- An action that writes once and answers. -/
theorem of_run {x : Action σ α} {a : α} {g' : Graph σ} {q : α → Graph σ → Prop}
    (hrun : x g = (.ok a, g')) (hsound : g'.Sound Kept) (hgrows : g.Grows g')
    (horderly : g.Orderly → g'.Orderly) (hstep : RecordStore.KeepsIds Kept → g.Step g')
    (hremembers : ∀ s, g.Remembers s g') (hq : q a g') : Upholds Kept x g q :=
  of_graph hrun ⟨hsound, hgrows, horderly, fun hids => .single (hstep hids)⟩ hremembers
    fun _ hb => Except.ok.inj hb ▸ hq

/-- After an action that reads and answers, the next one starts where it started. -/
theorem bind_of_reads {x : Action σ α} {f : α → Action σ β} {a : α} {q : β → Graph σ → Prop}
    (hreads : x g = (.ok a, g)) (hf : Upholds Kept (f a) g q) : Upholds Kept (x >>= f) g q := by
  have hrun : (x >>= f) g = f a g := by
    rw [run_bind, hreads]
  exact of_graph hrun hf.toProceeds hf.remembers hf.answers

/-- A computation on values only stops a run or lets it go on. -/
theorem bind_ofExcept {answer : Except Error α} {f : α → Action σ β} {q : β → Graph σ → Prop}
    (hg : g.Sound Kept) (hf : ∀ a, answer = .ok a → Upholds Kept (f a) g q) :
    Upholds Kept (Action.ofExcept answer >>= f) g q := by
  cases hanswer : answer with
  | error e => exact of_reads hg rfl fun b hb => by cases hb
  | ok a => exact bind_of_reads rfl (hf a hanswer)

/-- Beside its answer, a call on the store changes the store alone. -/
theorem call {c : Call σ α} (hg : g.Sound Kept) (hkept : Kept (c g.store).2) :
    Upholds Kept (Action.call c) g
      fun a g' => (c g.store).1 = .ok a ∧ g' = { g with store := (c g.store).2 } := by
  obtain ⟨hsound, hgrows⟩ := hg.wellFormed.withStore (c g.store).2
  exact of_graph rfl ⟨⟨hsound, hkept⟩, hgrows, fun h => h.of_models rfl rfl fun _ _ _ _ => rfl,
    fun _ => .single (.store _)⟩ (fun _ => .of_same (fun _ h => h) rfl fun _ _ => rfl)
    fun _ ha => ⟨ha, rfl⟩

/-! ## Loops -/

theorem forM {f : α → Action σ PUnit} {l : List α} (hg : g.Sound Kept)
    (hturn : ∀ x ∈ l, ∀ g', g'.Sound Kept → g.Grows g' →
      Upholds Kept (f x) g' fun _ _ => True) :
    Upholds Kept (l.forM f) g fun _ _ => True := by
  induction l generalizing g with
  | nil => exact Upholds.pure hg trivial
  | cons x rest ih =>
      change Upholds Kept (f x >>= fun _ => rest.forM f) g _
      refine (hturn x (by simp) g hg (Graph.Grows.refl g)).bind fun _ g' hg' hgrows _ => ?_
      exact ih hg' fun y hy g'' hg'' hlater =>
        hturn y (by simp [hy]) g'' hg'' (hgrows.trans hlater)

theorem foldlM {f : β → α → Action σ β} {l : List α} {b : β} {q : β → Graph σ → Prop}
    (hg : g.Sound Kept) (hq : q b g)
    (hturn : ∀ x ∈ l, ∀ c g', g'.Sound Kept → g.Grows g' → q c g' → Upholds Kept (f c x) g' q) :
    Upholds Kept (l.foldlM f b) g q := by
  induction l generalizing g b with
  | nil => exact Upholds.pure hg hq
  | cons x rest ih =>
      rw [List.foldlM_cons]
      refine (hturn x (by simp) b g hg (Graph.Grows.refl g) hq).bind fun c g' hg' hgrows hc => ?_
      exact ih hg' hc fun y hy d g'' hg'' hlater =>
        hturn y (by simp [hy]) d g'' hg'' (hgrows.trans hlater)

/-- What is promised of every answer has to last while the graph grows. -/
theorem mapM {f : α → Action σ β} {l : List α} {q : β → Graph σ → Prop} (hg : g.Sound Kept)
    (hlasts : ∀ y g₁ g₂, g₁.Grows g₂ → q y g₁ → q y g₂)
    (hturn : ∀ x ∈ l, ∀ g', g'.Sound Kept → g.Grows g' → Upholds Kept (f x) g' q) :
    Upholds Kept (l.mapM f) g fun ys g' => ∀ y ∈ ys, q y g' := by
  induction l generalizing g with
  | nil =>
      rw [List.mapM_nil]
      exact Upholds.pure hg (by simp)
  | cons x rest ih =>
      rw [List.mapM_cons]
      refine (hturn x (by simp) g hg (Graph.Grows.refl g)).bind fun y g' hg' hgrows hy => ?_
      have hrest := ih hg' fun z hz g'' hg'' hlater =>
        hturn z (by simp [hz]) g'' hg'' (hgrows.trans hlater)
      refine hrest.bind fun ys g'' hg'' hlater hys => Upholds.pure hg'' ?_
      intro z hz
      rcases List.mem_cons.mp hz with rfl | hz
      · exact hlasts z g' g'' hlater hy
      · exact hys z hz

theorem filterM {p : α → Action σ Bool} {l : List α} (hg : g.Sound Kept)
    (hturn : ∀ x ∈ l, ∀ g', g'.Sound Kept → g.Grows g' →
      Upholds Kept (p x) g' fun _ _ => True) :
    Upholds Kept (l.filterM p) g fun ys _ => ∀ y ∈ ys, y ∈ l := by
  have haux : ∀ (rest acc : List α) (g' : Graph σ), (∀ x ∈ rest, x ∈ l) → (∀ x ∈ acc, x ∈ l) →
      g'.Sound Kept → g.Grows g' →
      Upholds Kept (rest.filterAuxM p acc) g' fun ys _ => ∀ y ∈ ys, y ∈ l := by
    intro rest
    induction rest with
    | nil => exact fun acc g' _ hacc hg' _ => Upholds.pure hg' hacc
    | cons x rest ih =>
        intro acc g' hrest hacc hg' hgrows
        rw [List.filterAuxM]
        refine (hturn x (hrest x (by simp)) g' hg' hgrows).bind fun b g'' hg'' hlater _ => ?_
        refine ih _ g'' (fun y hy => hrest y (by simp [hy])) ?_ hg'' (hgrows.trans hlater)
        cases b with
        | false => exact hacc
        | true =>
            intro y hy
            rcases List.mem_cons.mp hy with rfl | hy
            · exact hrest y (by simp)
            · exact hacc y hy
  rw [List.filterM]
  refine (haux l [] g (fun _ h => h) (by simp) hg (Graph.Grows.refl g)).bind ?_
  intro ys g' hg' _ hys
  exact Upholds.pure hg' fun y hy => hys y (List.mem_reverse.mp hy)

end Upholds

end RecordGraph
