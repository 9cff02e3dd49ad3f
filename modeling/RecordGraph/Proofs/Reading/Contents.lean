/-
# What a path leads to

Reading along a path answers objects of the graph, and it makes some of them on the way: empty
collections where nothing is loaded, and the collection that a step over several models answers.
What is answered does not depend on that. Here a path is followed by a function of the graph that
writes nothing: in place of a collection it has what that collection holds, and an empty one in
place of one that is not loaded.

`Mirrors` ties an action to such a computation on values: the action answers or fails just as the
computation does.
-/
import RecordGraph.Graph.Related
import RecordGraph.Proofs.Failures
import RecordGraph.Proofs.Fetching.Succeeding

namespace RecordGraph

variable {σ S α β γ δ : Type}

/-! ## What a collection becomes -/

/-- The data after a model was let in, with what is then written. -/
def CollectionData.taking (d : CollectionData) (x : ModelData)
    (file : CollectionData → CollectionData) : Except Error CollectionData :=
  match d.membership with
  | .ofType own =>
    if own.name ≠ x.modelType.name then throw (.invalidType own.name x.modelType.name)
    else return file d
  | .ofEntity none => return file { d with membership := .ofEntity (some x.modelType.entityType) }
  | .ofEntity (some expected) =>
    if expected ≠ x.modelType.entityType then
      throw (.polymorphic
        (.foreignModel x.modelType.name x.key x.modelType.entityType expected))
    else return file d

namespace Graph

variable (g : Graph σ)

/-- The data with one more member. -/
def joined (d : CollectionData) (m : Model) : Except Error CollectionData :=
  d.taking (g.model m) fun d => { d with members := d.members.insert (g.model m).key m }

/-- The data with one more model in the snapshot. -/
def noted (d : CollectionData) (m : Model) : Except Error CollectionData :=
  d.taking (g.model m) fun d => { d with snapshot := d.snapshot.insert (g.model m).key m }

/-- The data with one more model from the store. -/
def fetched (d : CollectionData) (m : Model) : Except Error CollectionData :=
  d.taking (g.model m) fun d =>
    { d with
      snapshot := d.snapshot.insert (g.model m).key m
      members := d.members.insert (g.model m).key m }

/-- What an empty collection for a relationship holds. -/
def blankFor (s : Session) (r : Resolved) : Except Error CollectionData := do
  return ⟨s, ← g.registry.membershipFor r, OrderedMap.empty, OrderedMap.empty⟩

end Graph

/-! ## Following a path -/

/-- What a step leads to, without the identity of a collection. -/
inductive Content where
  /-- Nothing. -/
  | none
  /-- A model. -/
  | model (m : Model)
  /-- What a collection holds. -/
  | collection (d : CollectionData)

/-- The models. -/
def Content.models : Content → List Model
  | .none => []
  | .model m => [m]
  | .collection d => d.members.values

namespace Graph

variable (g : Graph σ)

/-- What is in a graph where a relationship leads. -/
def content : Related → Content
  | .none => .none
  | .model m => .model m
  | .collection c => .collection (g.collection c)

/-- What a model has loaded under a name; an empty collection where it has none. -/
def look (m : Model) (name : String) : Except Error Content := do
  let r ← g.registry.resolve (g.model m).modelType.name name
  if r.holdsSingle then
    match (g.model m).parents.get? name with
    | some parent => return .model parent
    | none => return .none
  else
    match (g.model m).children.get? name with
    | some c => return .collection (g.collection c)
    | none => return .collection (← g.blankFor (g.model m).session r)

/-- The type whose relationship the members lead along: their own, or that of the first one that
declares it. -/
def leadingType? (d : CollectionData) (name : String) : Option ModelType :=
  match d.membership with
  | .ofType t => some t
  | .ofEntity _ =>
    (d.members.values.map fun m => (g.model m).modelType).find? (·.hasRelationship name)

/-- An empty collection for what the members lead to under a name. -/
def emptyFor (d : CollectionData) (name : String) : Except Error CollectionData := do
  match g.leadingType? d name with
  | some t => g.blankFor d.session (← g.registry.resolve t.name name)
  | none => return ⟨d.session, .ofEntity none, OrderedMap.empty, OrderedMap.empty⟩

/-- The data with all that a member leads to. -/
def merged (d : CollectionData) : Content → Except Error CollectionData
  | .none => return d
  | .model m => g.fetched d m
  | .collection other => do
    other.snapshot.values.foldlM g.noted (← other.members.values.foldlM g.joined d)

/-- What the members have loaded under a name, merged. -/
def lookAll (d : CollectionData) (name : String) : Except Error CollectionData := do
  d.members.values.foldlM (fun result m => do
    if d.isPolymorphic && !(g.model m).modelType.hasRelationship name then return result
    else g.merged result (← g.look m name)) (← g.emptyFor d name)

/-- One step. -/
def see (x : Content) (name : String) : Except Error Content :=
  match x with
  | .none => return .none
  | .model m => g.look m name
  | .collection d => return .collection (← g.lookAll d name)

/-- All steps of a path. -/
def follow (x : Content) (path : List String) : Except Error Content := path.foldlM g.see x

@[simp] theorem follow_nil (x : Content) : g.follow x [] = .ok x := rfl

theorem follow_cons (x : Content) (name : String) (rest : List String) :
    g.follow x (name :: rest) = (do g.follow (← g.see x name) rest) := rfl

theorem follow_append (x : Content) (path rest : List String) :
    g.follow x (path ++ rest) = (do g.follow (← g.follow x path) rest) :=
  List.foldlM_append

/-- On the way along a path from there the model is asked for the relationship. -/
def Asks (x : Content) (path : List String) (m : Model) (name : String) : Prop :=
  ∃ before rest y, path = before ++ name :: rest ∧ g.follow x before = .ok y ∧ m ∈ y.models

theorem asks_first {x : Content} {name : String} {rest : List String} {m : Model}
    (hm : m ∈ x.models) : g.Asks x (name :: rest) m name :=
  ⟨[], rest, x, rfl, rfl, hm⟩

theorem Asks.later {x y : Content} {name other : String} {rest : List String} {m : Model}
    (hsee : g.see x name = .ok y) (h : g.Asks y rest m other) :
    g.Asks x (name :: rest) m other := by
  obtain ⟨before, after, z, rfl, hfollow, hm⟩ := h
  refine ⟨name :: before, after, z, rfl, ?_, hm⟩
  rw [follow_cons, hsee]
  exact hfollow

end Graph

/-! ## Which models are answered -/

/-- All models are of the graph, those of a snapshot too. -/
def Content.Within (x : Content) (g : Graph σ) : Prop :=
  match x with
  | .none => True
  | .model m => g.HasModel m
  | .collection d =>
    (∀ m ∈ d.members.values, g.HasModel m) ∧ ∀ m ∈ d.snapshot.values, g.HasModel m

theorem Content.Within.models {x : Content} {g : Graph σ} (hx : x.Within g) :
    ∀ m ∈ x.models, g.HasModel m := by
  cases x with
  | none => simp [Content.models]
  | model m => exact fun n hn => List.mem_singleton.mp hn ▸ hx
  | collection d => exact hx.1

/-- Beside what is written, only what the collection admits may change. -/
theorem CollectionData.eq_of_taking {d d' : CollectionData} {x : ModelData}
    {file : CollectionData → CollectionData} (h : d.taking x file = .ok d') :
    ∃ membership, d' = file { d with membership := membership } := by
  unfold taking at h
  split at h
  · split at h
    · cases h
    · exact ⟨d.membership, (Except.ok.inj h).symm⟩
  · exact ⟨_, (Except.ok.inj h).symm⟩
  · split at h
    · cases h
    · exact ⟨d.membership, (Except.ok.inj h).symm⟩

namespace Graph

variable {g : Graph σ} {d d' : CollectionData} {m : Model} {x y : Content} {name : String}

theorem hasModel_of_mem_insert {members : OrderedMap String Model} {key : String}
    (hmembers : ∀ n ∈ members.values, g.HasModel n) (hm : g.HasModel m) :
    ∀ n ∈ (members.insert key m).values, g.HasModel n := by
  intro n hn
  have hall : n ∈ (members.insertAll (fun _ => key) [m]).values := hn
  rcases OrderedMap.mem_values_of_insertAll hall with hold | hnew
  · exact hmembers n hold
  · exact List.mem_singleton.mp hnew ▸ hm

theorem within_empty (s : Session) (membership : Membership) :
    (Content.collection ⟨s, membership, OrderedMap.empty, OrderedMap.empty⟩).Within g := by
  simp [Content.Within, OrderedMap.values]

theorem within_of_joined (hd : (Content.collection d).Within g) (hm : g.HasModel m)
    (h : g.joined d m = .ok d') : (Content.collection d').Within g := by
  obtain ⟨membership, rfl⟩ := CollectionData.eq_of_taking h
  exact ⟨hasModel_of_mem_insert hd.1 hm, hd.2⟩

theorem within_of_noted (hd : (Content.collection d).Within g) (hm : g.HasModel m)
    (h : g.noted d m = .ok d') : (Content.collection d').Within g := by
  obtain ⟨membership, rfl⟩ := CollectionData.eq_of_taking h
  exact ⟨hd.1, hasModel_of_mem_insert hd.2 hm⟩

theorem within_of_fetched (hd : (Content.collection d).Within g) (hm : g.HasModel m)
    (h : g.fetched d m = .ok d') : (Content.collection d').Within g := by
  obtain ⟨membership, rfl⟩ := CollectionData.eq_of_taking h
  exact ⟨hasModel_of_mem_insert hd.1 hm, hasModel_of_mem_insert hd.2 hm⟩

theorem within_of_merged (hd : (Content.collection d).Within g) (hx : x.Within g)
    (h : g.merged d x = .ok d') : (Content.collection d').Within g := by
  cases x with
  | none => exact Except.ok.inj h ▸ hd
  | model m => exact within_of_fetched hd hx h
  | collection other =>
      simp only [merged, except_bind_eq_ok] at h
      obtain ⟨joined, hjoined, hnoted⟩ := h
      refine except_foldlM_invariant hnoted (fun e => (Content.collection e).Within g) ?_
        fun m hm _ _ he => within_of_noted he (hx.2 m hm)
      exact except_foldlM_invariant hjoined (fun e => (Content.collection e).Within g) hd
        fun m hm _ _ he => within_of_joined he (hx.1 m hm)

theorem within_of_blankFor {s : Session} {r : Resolved} (h : g.blankFor s r = .ok d) :
    (Content.collection d).Within g := by
  simp only [blankFor, except_bind_eq_ok, except_pure_eq_ok] at h
  obtain ⟨membership, -, rfl⟩ := h
  exact within_empty s membership

/-- What a collection is made with depends on the registry alone. -/
theorem blankFor_of_registry {t : Graph σ} (h : t.registry = g.registry) (s : Session)
    (r : Resolved) : t.blankFor s r = g.blankFor s r := by
  rw [blankFor, h, blankFor]

theorem within_of_look (hg : g.WellFormed) (hm : g.HasModel m) (h : g.look m name = .ok y) :
    y.Within g := by
  simp only [look, except_bind_eq_ok] at h
  obtain ⟨r, -, h⟩ := h
  split at h
  · split at h
    · rename_i p hp
      obtain rfl := Except.ok.inj h
      exact hg.parents m name p hm hp
    · obtain rfl := Except.ok.inj h
      trivial
  · split at h
    · rename_i c hc
      obtain rfl := Except.ok.inj h
      have hmade := hg.children m name c hm hc
      exact ⟨fun n => hg.member hmade, fun n => hg.snapshotMember hmade⟩
    · simp only [except_bind_eq_ok, except_pure_eq_ok] at h
      obtain ⟨d, hd, rfl⟩ := h
      exact within_of_blankFor hd

theorem within_of_emptyFor (h : g.emptyFor d name = .ok d') :
    (Content.collection d').Within g := by
  unfold emptyFor at h
  split at h
  · simp only [except_bind_eq_ok] at h
    obtain ⟨r, -, hblank⟩ := h
    exact within_of_blankFor hblank
  · obtain rfl := Except.ok.inj h
    exact within_empty _ _

/-- One step from models of the graph leads to models of the graph. -/
theorem within_of_see (hg : g.WellFormed) (hx : x.Within g) (h : g.see x name = .ok y) :
    y.Within g := by
  cases x with
  | none =>
      obtain rfl := Except.ok.inj h
      exact hx
  | model m => exact within_of_look hg hx h
  | collection d =>
      simp only [see, lookAll, except_bind_eq_ok, except_pure_eq_ok] at h
      obtain ⟨d', ⟨start, hstart, hmerged⟩, rfl⟩ := h
      refine except_foldlM_invariant hmerged (fun e => (Content.collection e).Within g)
        (within_of_emptyFor hstart) fun m hm e e' he hturn => ?_
      split at hturn
      · exact Except.ok.inj hturn ▸ he
      · obtain ⟨z, hlook, hmerge⟩ := except_bind_eq_ok.mp hturn
        exact within_of_merged he (within_of_look hg (hx.1 m hm) hlook) hmerge

end Graph

/-! ## Actions and computations on values -/

/-- From `s` on the action does what the computation does. If both answer, then as `shows` says;
if both fail, what is left has the property `left`. -/
structure Mirrors (a : ExceptT Error (StateM S) α) (s : S) (expected : Except Error β)
    (left : S → Prop) (shows : β → α → S → Prop) : Prop where
  fails : ∀ e t, a s = (.error e, t) → expected = .error e ∧ left t
  answers : ∀ x t, Returns a s x t → ∃ y, expected = .ok y ∧ shows y x t

namespace Mirrors

variable {a : ExceptT Error (StateM S) α} {s : S} {expected : Except Error β} {left : S → Prop}
  {shows : β → α → S → Prop}

/-- An action that answers when the computation does. -/
theorem of_run {x : α} {t : S} {y : β} (hrun : a s = (.ok x, t)) (hy : shows y x t) :
    Mirrors a s (.ok y) left shows := by
  refine ⟨fun e t' hfail => ?_, fun x' t' hreturns => ⟨y, rfl, ?_⟩⟩
  · rw [hrun] at hfail
    cases hfail
  · have hequal : a s = (.ok x', t') := hreturns
    rw [hrun] at hequal
    cases hequal
    exact hy

protected theorem pure {x : α} {y : β} (hy : shows y x s) :
    Mirrors (pure x) s (.ok y) left shows :=
  of_run rfl hy

/-- An action that fails as the computation does. -/
theorem of_error {e : Error} {t : S} (hrun : a s = (.error e, t)) (ht : left t) :
    Mirrors a s (.error e : Except Error β) left shows := by
  refine ⟨fun e' t' hfail => ?_, fun x t' hreturns => ?_⟩
  · rw [hrun] at hfail
    cases hfail
    exact ⟨rfl, ht⟩
  · have hequal : a s = (.ok x, t') := hreturns
    rw [hrun] at hequal
    cases hequal

theorem weaken {shows' : β → α → S → Prop} (h : Mirrors a s expected left shows)
    (hweaker : ∀ y x t, expected = .ok y → shows y x t → shows' y x t) :
    Mirrors a s expected left shows' := by
  refine ⟨h.fails, fun x t hreturns => ?_⟩
  obtain ⟨y, hy, hshows⟩ := h.answers x t hreturns
  exact ⟨y, hy, hweaker y x t hy hshows⟩

/-- What holds wherever the action may stop. -/
theorem left_of_run (h : Mirrors a s expected left shows)
    (hshows : ∀ y x t, shows y x t → left t) : left (a s).2 := by
  rcases hrun : a s with ⟨answer, t⟩
  cases answer with
  | error e => exact (h.fails e t hrun).2
  | ok x =>
      obtain ⟨y, -, hy⟩ := h.answers x t hrun
      exact hshows y x t hy

/-- The action answers if the computation does. -/
theorem exists_returns {y : β} (h : Mirrors a s expected left shows) (hanswer : expected = .ok y) :
    ∃ x t, Returns a s x t ∧ shows y x t := by
  rcases hrun : a s with ⟨answer, t⟩
  cases answer with
  | error e => cases (h.fails e t hrun).1.symm.trans hanswer
  | ok x =>
      obtain ⟨z, hz, hshows⟩ := h.answers x t hrun
      obtain rfl := Except.ok.inj (hanswer.symm.trans hz)
      exact ⟨x, t, hrun, hshows⟩

/-- Two actions in sequence, and two computations. -/
protected theorem bind {f : α → ExceptT Error (StateM S) γ} {k : β → Except Error δ}
    {shows' : δ → γ → S → Prop} (h : Mirrors a s expected left shows)
    (hf : ∀ y x t, expected = .ok y → shows y x t → Mirrors (f x) t (k y) left shows') :
    Mirrors (a >>= f) s (expected >>= k) left shows' := by
  rcases hfirst : a s with ⟨answer, t⟩
  cases answer with
  | error e =>
      obtain ⟨rfl, hleft⟩ := h.fails e t hfirst
      exact of_error (run_bind_of_error hfirst f) hleft
  | ok x =>
      obtain ⟨y, rfl, hshows⟩ := h.answers x t hfirst
      have hrun : (a >>= f) s = f x t := Returns.run_bind hfirst f
      have hsecond := hf y x t rfl hshows
      exact ⟨fun e t' hfail => hsecond.fails e t' (hrun ▸ hfail),
        fun z t' hreturns => hsecond.answers z t' (hrun.symm.trans hreturns)⟩

/-- After an action that reads and answers, the next one starts where it started. -/
theorem bind_of_reads {x : α} {f : α → ExceptT Error (StateM S) γ} {expected : Except Error δ}
    {shows : δ → γ → S → Prop} (hreads : a s = (.ok x, s))
    (hf : Mirrors (f x) s expected left shows) : Mirrors (a >>= f) s expected left shows := by
  have hrun : (a >>= f) s = f x s := by
    rw [run_bind, hreads]
  exact ⟨fun e t hfail => hf.fails e t (hrun ▸ hfail),
    fun z t hreturns => hf.answers z t (hrun.symm.trans hreturns)⟩

/-- What the action answers is made into something else. -/
theorem answer {f : α → γ} {shows' : β → γ → S → Prop} (h : Mirrors a s expected left shows)
    (hf : ∀ y x t, shows y x t → shows' y (f x) t) :
    Mirrors (do return f (← a)) s expected left shows' := by
  have hboth : Mirrors (do return f (← a)) s (expected >>= pure) left shows' :=
    h.bind fun y x t _ hshows => Mirrors.pure (hf y x t hshows)
  rwa [bind_pure] at hboth

/-- A loop, and a fold that has as its accumulator what the loop changes. -/
theorem forM {f : α → ExceptT Error (StateM S) PUnit} {k : β → α → Except Error β} {l : List α}
    {b : β} (inv : β → S → Prop) (hstart : inv b s)
    (hturn : ∀ x ∈ l, ∀ c t, inv c t → Mirrors (f x) t (k c x) left fun c' _ t' => inv c' t') :
    Mirrors (l.forM f) s (l.foldlM k b) left fun c _ t => inv c t := by
  induction l generalizing s b with
  | nil => exact Mirrors.pure hstart
  | cons x rest ih =>
      rw [List.foldlM_cons]
      change Mirrors (f x >>= fun _ => rest.forM f) s _ _ _
      exact (hturn x (by simp) b s hstart).bind fun c _ t _ hc =>
        ih hc fun y hy => hturn y (by simp [hy])

end Mirrors

/-- The action and the computation on values that it makes do the same. -/
theorem mirrors_ofExcept {answer : Except Error α} {g : Graph σ} {left : Graph σ → Prop}
    (hg : left g) : Mirrors (Action.ofExcept answer) g answer left fun y x t => x = y ∧ t = g := by
  cases answer with
  | error e => exact Mirrors.of_error rfl hg
  | ok a => exact Mirrors.of_run rfl ⟨rfl, rfl⟩

end RecordGraph
