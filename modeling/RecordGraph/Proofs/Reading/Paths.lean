/-
# Paths read in parts, and after a fetch

A path that is put together of two is read by reading the first one and going on from there with
the second one. A fetch takes a path apart differently: the last step is loaded, and only what is
before it is read. What was loaded is nonetheless found again by the path as a whole, in the same
order, because loading a relationship changes no model under another name. So the steps before
the last one lead to the same models as before, if none of them is the one that was loaded.

If one of them is, the fetch may have replaced what the path leads through. Nothing is said of
such paths here.
-/
import RecordGraph.Proofs.Fetching.WayBack
import RecordGraph.Proofs.Reading.Answers

namespace RecordGraph

variable {σ : Type}

/-! ## Paths in parts -/

/-- The steps of two paths with a point between them. -/
theorem pathSteps_append (path rest : String) :
    pathSteps (path ++ "." ++ rest) = pathSteps path ++ pathSteps rest := by
  have hpoint : (path ++ "." ++ rest).toList = path.toList ++ '.' :: rest.toList := by simp
  unfold pathSteps List.splitOn
  rw [hpoint, List.splitOnP_append_cons _ _ (by simp), List.map_append]

theorem Related.get_append (r : Related) (path rest : List String) :
    (r.get (path ++ rest) : Action σ Related) = (do (← r.get path).get rest) := by
  induction path generalizing r with
  | nil => rw [List.nil_append, Related.get, pure_bind]
  | cons name path ih =>
      simp only [List.cons_append, Related.get, bind_assoc]
      exact bind_congr ih

/-! ## Graphs that look alike -/

/-- Two folds are the same if their turns are, over the members of the list. -/
theorem except_foldlM_congr {α β : Type} {f k : β → α → Except Error β} {l : List α}
    (h : ∀ x ∈ l, ∀ b, f b x = k b x) (b : β) : l.foldlM f b = l.foldlM k b := by
  induction l generalizing b with
  | nil => rfl
  | cons x rest ih =>
      rw [List.foldlM_cons, List.foldlM_cons, h x (by simp)]
      exact bind_congr fun c => ih (fun y hy => h y (by simp [hy])) c

namespace Graph

/-- Models of `g` are in `t` of the same types and have the same keys and sessions, and under
these names they lead to the same. -/
structure AgreesUnder (g : Graph σ) (names : String → Prop) (t : Graph σ) : Prop where
  registry : t.registry = g.registry
  hasModel : ∀ m, g.HasModel m → t.HasModel m
  model : ∀ m, g.HasModel m → t.model m =
    { g.model m with
      record := (t.model m).record
      parents := (t.model m).parents
      children := (t.model m).children }
  look : ∀ m name, g.HasModel m → names name → t.look m name = g.look m name

namespace AgreesUnder

variable {g t u : Graph σ} {names : String → Prop} {d : CollectionData} {m : Model}
  {x : Content} {name : String}

theorem trans (first : g.AgreesUnder names t) (second : t.AgreesUnder names u) :
    g.AgreesUnder names u where
  registry := second.registry.trans first.registry
  hasModel m hm := second.hasModel m (first.hasModel m hm)
  model m hm := by rw [second.model m (first.hasModel m hm), first.model m hm]
  look m name hm hname :=
    (second.look m name (first.hasModel m hm) hname).trans (first.look m name hm hname)

theorem taking (h : g.AgreesUnder names t) (hm : g.HasModel m)
    (file : CollectionData → CollectionData) :
    d.taking (t.model m) file = d.taking (g.model m) file := by
  rw [h.model m hm]
  rfl

theorem modelType (h : g.AgreesUnder names t) (hm : g.HasModel m) :
    (t.model m).modelType = (g.model m).modelType := by
  rw [h.model m hm]

theorem key (h : g.AgreesUnder names t) (hm : g.HasModel m) :
    (t.model m).key = (g.model m).key := by
  rw [h.model m hm]

theorem merged (h : g.AgreesUnder names t) (hx : x.Within g) (d : CollectionData) :
    t.merged d x = g.merged d x := by
  cases x with
  | none => rfl
  | model m => simp only [Graph.merged, Graph.fetched, h.taking hx, h.key hx]
  | collection other =>
      have hjoined := except_foldlM_congr (l := other.members.values) (f := t.joined)
        (k := g.joined) (fun m hm d => by
          simp only [Graph.joined, h.taking (hx.1 m hm), h.key (hx.1 m hm)]) d
      have hnoted := except_foldlM_congr (l := other.snapshot.values) (f := t.noted)
        (k := g.noted) fun m hm d => by
          simp only [Graph.noted, h.taking (hx.2 m hm), h.key (hx.2 m hm)]
      simp only [Graph.merged, hjoined]
      exact bind_congr hnoted

theorem emptyFor (h : g.AgreesUnder names t) (hd : (Content.collection d).Within g) :
    t.emptyFor d name = g.emptyFor d name := by
  have htypes : d.members.values.map (fun m => (t.model m).modelType) =
      d.members.values.map fun m => (g.model m).modelType :=
    List.map_congr_left fun m hm => h.modelType (hd.1 m hm)
  unfold Graph.emptyFor leadingType?
  simp only [htypes, h.registry, blankFor_of_registry h.registry]

/-- One step leads to the same. -/
theorem see (h : g.AgreesUnder names t) (hg : g.WellFormed) (hx : x.Within g)
    (hname : names name) : t.see x name = g.see x name := by
  cases x with
  | none => rfl
  | model m => exact h.look m name hx hname
  | collection d =>
      have hturns := except_foldlM_congr (l := d.members.values)
        (f := fun result m => do
          if d.isPolymorphic && !(t.model m).modelType.hasRelationship name then return result
          else t.merged result (← t.look m name))
        (k := fun result m => do
          if d.isPolymorphic && !(g.model m).modelType.hasRelationship name then return result
          else g.merged result (← g.look m name)) fun m hm result => by
        rw [h.modelType (hx.1 m hm), h.look m name (hx.1 m hm) hname]
        cases hlook : g.look m name with
        | error e => rfl
        | ok y =>
            have hmerged := h.merged (within_of_look hg (hx.1 m hm) hlook) result
            exact if_congr Iff.rfl rfl hmerged
      simp only [Graph.see, Graph.lookAll, h.emptyFor hx, hturns]

/-- A path whose steps are under these names leads to the same. -/
theorem follow (h : g.AgreesUnder names t) (hg : g.WellFormed) (hx : x.Within g)
    {path : List String} (hpath : ∀ name ∈ path, names name) :
    t.follow x path = g.follow x path := by
  induction path generalizing x with
  | nil => rfl
  | cons name rest ih =>
      rw [follow_cons, follow_cons, h.see hg hx (hpath name (by simp))]
      cases hsee : g.see x name with
      | error e => rfl
      | ok y =>
          exact ih (within_of_see hg hx hsee) fun other hother => hpath other (by simp [hother])

end AgreesUnder

/-- Reading leaves every name alone. -/
theorem OnlyOpens.agreesUnder {g t : Graph σ} {asked : Model → String → Prop}
    (h : g.OnlyOpens asked t) (hg : g.WellFormed) (names : String → Prop) :
    g.AgreesUnder names t where
  registry := h.registry
  hasModel m hm := (h.hasModel_iff m).mpr hm
  model m _ := by rw [h.model m]
  look m name _ _ := h.look hg m name

/-- What is made stays where it leads. -/
theorem Spares.content {g t : Graph σ} {members : List Model} (h : g.Spares t members)
    {r : Related} (hr : g.HasRelated r) : t.HasRelated r ∧ t.content r = g.content r := by
  cases r with
  | none => exact ⟨trivial, rfl⟩
  | model m => exact ⟨h.hasModel hr, rfl⟩
  | collection c => exact ⟨h.hasCollection hr, congrArg Content.collection (h.collection c hr)⟩

/-- Loading a relationship leaves the other names alone. -/
theorem Disturbed.agreesUnder {g t : Graph σ} {name : String} {touched shed : List Model}
    (h : g.Disturbed name touched shed t) (hg : g.WellFormed) :
    g.AgreesUnder (· ≠ name) t where
  registry := h.spares.registry
  hasModel _ hm := h.spares.hasModel hm
  model m hm := by rw [h.spares.model m hm]
  look m other hm hother := by
    have hsame : (t.model m).parents.get? other = (g.model m).parents.get? other ∧
        (t.model m).children.get? other = (g.model m).children.get? other := by
      rcases h.member m hm with hold | ⟨r, -, hshed⟩
      · rw [hold]
        exact ⟨rfl, rfl⟩
      · split at hshed
        · exact ⟨hshed.others other hother, by rw [hshed.only]⟩
        · exact ⟨by rw [hshed.only], hshed.others other hother⟩
    unfold look
    rw [h.spares.registry, hsame.1, hsame.2, h.spares.model m hm]
    refine bind_congr fun r => ?_
    congr 1
    cases hloaded : (g.model m).children.get? other with
    | none => simp only [blankFor_of_registry h.spares.registry]
    | some c => simp only [h.spares.collection c (hg.children m other c hm hloaded)]

end Graph

/-! ## Reading what was fetched -/

namespace Related

variable {g g' : Graph σ} {r x : Related} {name : String}

theorem returns_models (r : Related) (g : Graph σ) :
    Returns r.models g (g.content r).models g := by
  cases r with
  | none => exact returns_pure.mpr ⟨rfl, rfl⟩
  | model m => exact returns_pure.mpr ⟨rfl, rfl⟩
  | collection c => exact Collection.returns_models.mpr ⟨rfl, rfl⟩

variable [RecordStore σ] {Kept : σ → Prop} {callers : Option Query}

/-- The last step of a fetch loads a relationship of the models that it came to, and then reads
it. -/
theorem loads_then_reads (hkept : RecordStore.Keeps Kept) (hg : g.Sound Kept)
    (hr : g.HasRelated r) (hrun : Returns (r.fetchStep name callers) g x g') :
    ∃ t, t.Sound Kept ∧ g.Disturbed name (g.membersOf r) [] t ∧ Returns (r.read name) t x g' := by
  have hknown := hg.wellFormed.hasModel_of_mem_membersOf hr
  cases r with
  | none => exact ⟨g, hg, .refl hg.wellFormed name, hrun⟩
  | model m =>
      simp only [fetchStep, returns_bind, Model.returns_data, and_assoc, exists_eq_left] at hrun
      obtain ⟨⟨⟩, t, hfetch, hread⟩ := hrun
      have ht := (upholds_fetchRelationship hkept hg _ hknown name callers).of_returns hfetch
      exact ⟨t, ht.1, (ends_fetchRelationship hg.wellFormed hknown).answers _ _ hfetch, hread⟩
  | collection c =>
      simp only [fetchStep, returns_bind, Collection.returns_data, and_assoc, exists_eq_left]
        at hrun
      obtain ⟨⟨⟩, t, hfetch, hread⟩ := hrun
      have ht := (upholds_fetchRelationship hkept hg _ hknown name callers).of_returns hfetch
      refine ⟨t, ht.1, (ends_fetchRelationship hg.wellFormed hknown).answers _ _ hfetch, ?_⟩
      simpa only [read, returns_bind] using hread

/-- After a fetch the path leads to what the fetch answered, unless a step before the last one has
its name. -/
theorem follow_of_fetch (hkept : RecordStore.Keeps Kept) (hg : g.Sound Kept)
    (hr : g.HasRelated r) {before : List String} (hother : name ∉ before)
    (hrun : Returns (r.fetch (before ++ [name]) callers) g x g') :
    g'.follow (g'.content r) (before ++ [name]) = .ok (g'.content x) := by
  rw [fetch, List.dropLast_concat, List.getLast?_concat, Option.getD_some, returns_bind] at hrun
  obtain ⟨y, t₁, hget, hstep⟩ := hrun
  have hwf := hg.wellFormed
  obtain ⟨ht₁, hgrows, hy⟩ := (upholds_get hg hr before).of_returns hget
  obtain ⟨_, hfollow, hopens₁, rfl, -⟩ := (mirrors_get hwf (.refl hwf fun _ _ => True) hr
    (hwf.within_content hr) before fun _ _ _ => trivial).answers y t₁ hget
  obtain ⟨t₂, ht₂, hdisturbed, hread⟩ := loads_then_reads hkept ht₁ hy hstep
  have hwf₂ := ht₂.wellFormed
  obtain ⟨hr₂, hsame_r⟩ := hdisturbed.spares.content (hgrows.related hr)
  obtain ⟨hy₂, hsame_y⟩ := hdisturbed.spares.content hy
  obtain ⟨_, hsee, hopens₂, rfl, -⟩ := (mirrors_read hwf₂ (.refl hwf₂ fun _ _ => True) hy₂
    (hwf₂.within_content hy₂) fun _ _ => trivial).answers x g' hread
  -- the steps before the last one lead where they led
  have hagrees : g.AgreesUnder (· ≠ name) g' := (hopens₁.agreesUnder hwf _).trans <|
    (hdisturbed.agreesUnder ht₁.wellFormed).trans (hopens₂.agreesUnder hwf₂ _)
  have hbefore : g'.follow (g'.content r) before = .ok (g'.content y) := by
    rw [hopens₂.content hr₂, hsame_r, hopens₁.content hr, hopens₂.content hy₂, hsame_y]
    rw [hagrees.follow hwf (hwf.within_content hr) fun other hmem hsame => hother (hsame ▸ hmem)]
    exact hfollow
  -- and the last one finds what was loaded
  have hlast : g'.see (g'.content y) name = .ok (g'.content x) := by
    rw [hopens₂.content hy₂, ← hsee]
    exact (hopens₂.agreesUnder hwf₂ (· = name)).see hwf₂ (hwf₂.within_content hy₂) rfl
  rw [g'.follow_append, hbefore]
  exact (congrArg (· >>= fun z => g'.follow z []) hlast).trans rfl

end Related

/-- A path read as a whole is its parts read one after the other. And what a fetch has answered is
what its path leads to from then on, in the same order, unless an earlier step of the path has the
name of the relationship that was loaded. -/
theorem get_composes [RecordStore σ] {Kept : σ → Prop} (hkept : RecordStore.Keeps Kept) :
    (∀ (r : Related) (path name : String),
      (r.get (pathSteps (path ++ "." ++ name)) : Action σ Related) =
        (do (← r.get (pathSteps path)).get (pathSteps name))) ∧
    ∀ g : Graph σ, Graph.Reachable Kept g → ∀ r, g.HasRelated r → ∀ path name : String,
      '.' ∉ name.toList → name ∉ pathSteps path → ∀ (callers : Option Query) (x : Related) g',
      Returns (r.fetch (pathSteps (path ++ "." ++ name)) callers) g x g' →
      ∃ y t ms, Returns (r.get (pathSteps (path ++ "." ++ name))) g' y t ∧
        Returns x.models g' ms g' ∧ Returns y.models t ms t := by
  refine ⟨fun r path name => ?_, fun g hg r hr path name hpoint hother callers x g' hfetch => ?_⟩
  · rw [pathSteps_append]
    exact r.get_append _ _
  · have hg' := hg.sound hkept
    rw [pathSteps_append, pathSteps_of_no_point hpoint] at hfetch ⊢
    have hfollow := Related.follow_of_fetch hkept hg' hr hother hfetch
    obtain ⟨hafter, hgrows, -⟩ := (Related.upholds_fetch hkept hg' hr _ callers).of_returns hfetch
    have hwf := hafter.wellFormed
    have hr' := hgrows.related hr
    have hmirrors := Related.mirrors_get hwf (.refl hwf fun _ _ => True) hr'
      (hwf.within_content hr') (pathSteps path ++ [name]) fun _ _ _ => trivial
    rw [hfollow] at hmirrors
    rcases hrun : r.get (pathSteps path ++ [name]) g' with ⟨answer, t⟩
    cases answer with
    | error e => exact absurd (hmirrors.fails e t hrun).1 (by simp)
    | ok y =>
        obtain ⟨_, hsame, -, rfl, -⟩ := hmirrors.answers y t hrun
        refine ⟨y, t, (g'.content x).models, hrun, x.returns_models g', ?_⟩
        rw [Except.ok.inj hsame]
        exact y.returns_models t

namespace Library

/-- What is fetched from the unsaved article on: the articles of its author. -/
def traced : Except Error Related × Graph MemoryStore :=
  Related.fetch (.model ⟨2⟩) ["author", "articles"] none authors

theorem steps_traced : pathSteps ("author" ++ "." ++ "articles") = ["author", "articles"] := by
  rw [pathSteps_append]
  decide +kernel

/-- The path leads to both articles of the author, as the fetch did. -/
theorem traced_composes : Graph.Reachable MemoryStore.Filed authors ∧
    traced.1 = .ok (.collection ⟨1⟩) ∧
    ∃ y t, Returns (Related.get (.model ⟨2⟩) ["author", "articles"]) traced.2 y t ∧
      Returns y.models t [⟨2⟩, ⟨3⟩] t := by
  have hmade : authors.HasRelated (.model ⟨2⟩) :=
    show authors.HasModel ⟨2⟩ from by decide +kernel
  have hanswer : traced.1 = .ok (.collection ⟨1⟩) := by decide +kernel
  have hmembers : (traced.2.collection ⟨1⟩).members.values = [⟨2⟩, ⟨3⟩] := by decide +kernel
  obtain ⟨y, t, ms, hget, hfetched, hread⟩ := (get_composes MemoryStore.keeps_filed).2 authors
    reachable_authors (.model ⟨2⟩) hmade "author" "articles" (by decide) (by decide +kernel) none
    _ _ (by rw [steps_traced]; exact returns_of_fst_eq_ok hanswer)
  obtain ⟨rfl, -⟩ := hfetched.unique (Collection.returns_models.mpr ⟨rfl, hmembers.symm⟩)
  rw [steps_traced] at hget
  exact ⟨reachable_authors, hanswer, y, t, hget, hread⟩

end Library

end RecordGraph
