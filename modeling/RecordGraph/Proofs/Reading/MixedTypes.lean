/-
# Reading collections of mixed types

The members of a polymorphic collection may declare a relationship each in its own way, and some may
not declare it at all. Reading leaves those out and merges what the others lead to in one collection,
which is made for the relationship of the first of them. So reading can only fail where this
collection cannot be made or does not take what a member has loaded. `CanMerge` says that neither
happens; then every model that a member has loaded is found in the result, under its key.

A fetch loads the relationship type by type and then reads it, and loading leaves nothing behind that
could not be read before.
-/
import RecordGraph.Proofs.Reading.Merging

namespace RecordGraph

variable {σ : Type}

/-! ## What can be merged -/

/-- A model of an admitted type is let in, and nothing has to be decided for it. -/
theorem CollectionData.exists_taking {d : CollectionData} {x : ModelData}
    {file : CollectionData → CollectionData} (h : d.membership.Admits x.modelType)
    (hfile : ∀ e, (file e).membership = e.membership) :
    ∃ d', d.taking x file = .ok d' ∧ d'.membership = d.membership := by
  refine ⟨file d, ?_, hfile d⟩
  unfold taking
  cases hmembership : d.membership with
  | ofType own =>
      rw [hmembership] at h
      exact if_neg (not_not_intro h)
  | ofEntity entityType =>
      rw [hmembership] at h
      obtain rfl : entityType = some x.modelType.entityType := h
      exact if_neg (not_not_intro rfl)

namespace Graph

/-- What the members lead to can be merged: the relationship of the first one that declares it has a
collection made for it, which admits all that the members have loaded or were loaded with. -/
def CanMerge (g : Graph σ) (d : CollectionData) (name : String) : Prop :=
  ∀ t r, g.leadingType? d name = some t → g.registry.resolve t.name name = .ok r →
    ∃ membership, g.registry.membershipFor r = .ok membership ∧
      ∀ m ∈ g.readers d name, ∀ x ∈ g.currentUnder name m ++ g.originalsUnder name m,
        membership.Admits (g.model x).modelType

instance decidableCanMerge (g : Graph σ) (d : CollectionData) (name : String) :
    Decidable (g.CanMerge d name) :=
  match hlead : g.leadingType? d name with
  | none => isTrue fun t r h => by simp [hlead] at h
  | some t =>
    match hresolve : g.registry.resolve t.name name with
    | .error e => isTrue fun u r h hr => by
        obtain rfl := Option.some.inj (hlead.symm.trans h)
        cases hresolve.symm.trans hr
    | .ok r =>
      match hmembership : g.registry.membershipFor r with
      | .error e => isFalse fun h => by
          obtain ⟨membership, hr, -⟩ := h t r hlead hresolve
          cases hmembership.symm.trans hr
      | .ok membership =>
        decidable_of_iff (∀ m ∈ g.readers d name,
          ∀ x ∈ g.currentUnder name m ++ g.originalsUnder name m,
            membership.Admits (g.model x).modelType) <| by
          constructor
          · intro h u r' hu hr'
            obtain rfl := Option.some.inj (hlead.symm.trans hu)
            obtain rfl := Except.ok.inj (hresolve.symm.trans hr')
            exact ⟨membership, hmembership, h⟩
          · intro h
            obtain ⟨membership', hr, hadmits⟩ := h t r hlead hresolve
            obtain rfl := Except.ok.inj (hmembership.symm.trans hr)
            exact hadmits

/-- The members of `merged` are the models that the members of `d` have loaded: their keys are
filed in the order in which they first occur, and under each of them the last model is found. -/
structure Merges (g : Graph σ) (d : CollectionData) (name : String) (merged : CollectionData) :
    Prop where
  keys : merged.members.keys =
    distinct (((g.readers d name).flatMap (g.currentUnder name)).map fun x => (g.model x).key)
  holds : ∀ x ∈ (g.readers d name).flatMap (g.currentUnder name), ∃ y,
    (((g.readers d name).flatMap (g.currentUnder name)).filter fun z =>
      (g.model z).key = (g.model x).key).getLast? = some y ∧
    merged.members.get? (g.model x).key = some y

variable {g t : Graph σ} {d d' : CollectionData} {m : Model} {y : Content} {name : String}

theorem exists_joined (h : d.membership.Admits (g.model m).modelType) :
    ∃ d', g.joined d m = .ok d' ∧ d'.membership = d.membership :=
  CollectionData.exists_taking h fun _ => rfl

theorem exists_noted (h : d.membership.Admits (g.model m).modelType) :
    ∃ d', g.noted d m = .ok d' ∧ d'.membership = d.membership :=
  CollectionData.exists_taking h fun _ => rfl

theorem exists_fetched (h : d.membership.Admits (g.model m).modelType) :
    ∃ d', g.fetched d m = .ok d' ∧ d'.membership = d.membership :=
  CollectionData.exists_taking h fun _ => rfl

theorem exists_merged
    (h : ∀ x ∈ y.models ++ y.originals, d.membership.Admits (g.model x).modelType) :
    ∃ d', g.merged d y = .ok d' ∧ d'.membership = d.membership := by
  cases y with
  | none => exact ⟨d, rfl, rfl⟩
  | model m => exact exists_fetched (h m (by simp [Content.models]))
  | collection other =>
      obtain ⟨joined, hjoined, hkept⟩ := exists_except_foldlM (f := g.joined)
        (fun e => e.membership = d.membership) rfl fun x hx e he =>
          (exists_joined (he ▸ h x (List.mem_append_left _ hx))).imp
            fun _ hnext => ⟨hnext.1, hnext.2.trans he⟩
      obtain ⟨noted, hnoted, hmembership⟩ := exists_except_foldlM (f := g.noted)
        (fun e => e.membership = d.membership) hkept fun x hx e he =>
          (exists_noted (he ▸ h x (List.mem_append_right _ hx))).imp
            fun _ hnext => ⟨hnext.1, hnext.2.trans he⟩
      exact ⟨noted, except_bind_eq_ok.mpr ⟨joined, hjoined, hnoted⟩, hmembership⟩

/-- Where some member declares the relationship, the first one does that leads. -/
theorem exists_leadingType (hpoly : d.isPolymorphic = true)
    (hsome : ∃ m ∈ d.members.values, (g.model m).modelType.hasRelationship name = true) :
    ∃ m ∈ g.readers d name, g.leadingType? d name = some (g.model m).modelType := by
  obtain ⟨m, hm, hdeclares⟩ := hsome
  have hlead : g.leadingType? d name =
      (d.members.values.map fun m => (g.model m).modelType).find? (·.hasRelationship name) := by
    unfold leadingType?
    cases hmembership : d.membership with
    | ofType own => simp [CollectionData.isPolymorphic, hmembership] at hpoly
    | ofEntity entityType => rfl
  have hfound : ((d.members.values.map fun m => (g.model m).modelType).find?
      (·.hasRelationship name)).isSome := by
    simp only [List.find?_isSome, List.mem_map, exists_exists_and_eq_and]
    exact ⟨m, hm, hdeclares⟩
  obtain ⟨t, ht⟩ := Option.isSome_iff_exists.mp hfound
  obtain ⟨first, hfirst, rfl⟩ := List.mem_map.mp (List.mem_of_find?_eq_some ht)
  refine ⟨first, List.mem_filter.mpr ⟨hfirst, ?_⟩, hlead.trans ht⟩
  simpa using Or.inr (List.find?_some ht)

theorem exists_lookAll (hg : g.WellFormed) (hmembers : ∀ m ∈ d.members.values, g.HasModel m)
    (hpoly : d.isPolymorphic = true)
    (hsome : ∃ m ∈ d.members.values, (g.model m).modelType.hasRelationship name = true)
    (hlook : ∀ m ∈ g.readers d name, ∃ y, g.look m name = .ok y) (hmerge : g.CanMerge d name) :
    ∃ d', g.lookAll d name = .ok d' := by
  obtain ⟨first, hfirst, hlead⟩ := exists_leadingType hpoly hsome
  obtain ⟨r, hresolve, -⟩ := except_bind_eq_ok.mp (hlook first hfirst).choose_spec
  obtain ⟨membership, hmembership, hadmits⟩ := hmerge _ r hlead hresolve
  have hblank : g.emptyFor d name =
      .ok ⟨d.session, membership, OrderedMap.empty, OrderedMap.empty⟩ := by
    unfold emptyFor
    rw [hlead]
    refine except_bind_eq_ok.mpr ⟨r, hresolve, except_bind_eq_ok.mpr ⟨membership, hmembership, rfl⟩⟩
  obtain ⟨d', hd', -⟩ := exists_except_foldlM
    (b := ⟨d.session, membership, OrderedMap.empty, OrderedMap.empty⟩)
    (f := fun result m => do
      if d.isPolymorphic && !(g.model m).modelType.hasRelationship name then return result
      else g.merged result (← g.look m name))
    (fun e => e.membership = membership) rfl fun m hm e he => by
      by_cases hleft : (d.isPolymorphic && !(g.model m).modelType.hasRelationship name) = true
      · exact ⟨e, by rw [if_pos hleft]; rfl, he⟩
      · have htakes : m ∈ g.readers d name :=
          List.mem_filter.mpr ⟨hm, by rw [Bool.eq_false_iff.mpr hleft]; rfl⟩
        obtain ⟨y, hy⟩ := hlook m htakes
        obtain ⟨hmodels, horiginals⟩ := models_of_look hg (hmembers m hm) hy
        obtain ⟨e', he', hkept⟩ := exists_merged (g := g) (d := e) (y := y) <| by
          rw [hmodels, horiginals, he]
          exact hadmits m htakes
        refine ⟨e', ?_, hkept.trans he⟩
        rw [if_neg hleft]
        exact except_bind_eq_ok.mpr ⟨y, hy, he'⟩
  exact ⟨d', except_bind_eq_ok.mpr ⟨_, hblank, hd'⟩⟩

/-- What is merged holds all that the members have loaded. -/
theorem merges_of_lookAll (hg : g.WellFormed) (hmembers : ∀ m ∈ d.members.values, g.HasModel m)
    (h : g.lookAll d name = .ok d') : g.Merges d name d' := by
  obtain ⟨hfilled, -⟩ := filled_of_lookAll hg hmembers h
  refine ⟨by rw [hfilled, OrderedMap.keys_insertAll_empty], fun x hx => ?_⟩
  rw [hfilled, OrderedMap.get?_insertAll, OrderedMap.get?_empty, Option.or_none]
  have hsome : x ∈ ((g.readers d name).flatMap (g.currentUnder name)).filter fun z =>
      (g.model z).key = (g.model x).key := List.mem_filter.mpr ⟨hx, by simp⟩
  exact ⟨_, List.getLast?_eq_some_getLast (List.ne_nil_of_mem hsome),
    List.getLast?_eq_some_getLast (List.ne_nil_of_mem hsome)⟩

/-! ## After loading -/

/-- A model can be asked for a relationship that resolves; if it has no collection under the name,
then one has to be made. -/
theorem exists_look_iff : (∃ y, g.look m name = .ok y) ↔
    ∃ r, g.registry.resolve (g.model m).modelType.name name = .ok r ∧
      (r.holdsSingle = false → (g.model m).children.get? name = none →
        ∃ membership, g.registry.membershipFor r = .ok membership) := by
  simp only [look, except_bind_eq_ok]
  rw [exists_comm]
  refine exists_congr fun r => ?_
  rw [exists_and_left, and_congr_right_iff]
  intro _
  cases hsingle : r.holdsSingle with
  | true =>
      cases hparent : (g.model m).parents.get? name with
      | none => simp
      | some p => simp
  | false =>
      cases hloaded : (g.model m).children.get? name with
      | none => cases hmembership : g.registry.membershipFor r <;> simp [blankFor, hmembership]
      | some c => simp

/-- A model that could be asked for a relationship can be asked after loading it. -/
theorem Disturbed.exists_look {touched shed : List Model} (h : g.Disturbed name touched shed t)
    (hm : g.HasModel m) (hlook : ∃ y, g.look m name = .ok y) : ∃ y, t.look m name = .ok y := by
  obtain ⟨r, hresolve, hmakes⟩ := exists_look_iff.mp hlook
  have htype : (t.model m).modelType = (g.model m).modelType := by rw [h.spares.model m hm]
  refine exists_look_iff.mpr ⟨r, by rw [h.spares.registry, htype, hresolve], fun hmany hnone => ?_⟩
  rw [h.spares.registry]
  rcases h.member m hm with hsame | hsheds
  · exact hmakes hmany (hsame ▸ hnone)
  · obtain ⟨c, hc, -⟩ := (hsheds.children hresolve hmany).collection
    rw [hnone] at hc
    cases hc

end Graph

/-! ## Reading and fetching -/

section Read

variable {g : Graph σ} {c : Collection} {name : String}

/-- A collection is read if what its members lead to can be merged. -/
theorem Collection.exists_read (hg : g.WellFormed) (hc : g.HasCollection c)
    (hpoly : (g.collection c).isPolymorphic = true)
    (hsome : ∃ m ∈ (g.collection c).members.values,
      (g.model m).modelType.hasRelationship name = true)
    (hlook : ∀ m ∈ g.readers (g.collection c) name, ∃ y, g.look m name = .ok y)
    (hmerge : g.CanMerge (g.collection c) name) : ∃ result t, Returns (c.read name) g result t ∧
      g.Merges (g.collection c) name (t.collection result) := by
  have hmembers : ∀ m ∈ (g.collection c).members.values, g.HasModel m := fun m => hg.member hc
  obtain ⟨d, hd⟩ := Graph.exists_lookAll hg hmembers hpoly hsome hlook hmerge
  obtain ⟨result, t, hread, hcollects⟩ := (Collection.mirrors_read hg (.refl hg fun _ _ => True)
    (hg.within_content (r := .collection c) hc) fun _ _ => trivial).exists_returns hd
  exact ⟨result, t, hread, hcollects.holds ▸ Graph.merges_of_lookAll hg hmembers hd⟩

variable [RecordStore σ] {Kept : σ → Prop}

/-- In a polymorphic collection a relationship can be read if some member declares it and every
member that does can be asked for it, provided that what they lead to can be merged. The answer
holds every model that a member has loaded under the name. The same goes for fetching it: if loading
it succeeds for the members, then so does the fetch, and the answer holds every model that a member
has loaded by then. -/
theorem read_covers_mixed_types (hkept : RecordStore.Keeps Kept) (hg : g.Sound Kept)
    (hc : g.HasCollection c) (hpoly : (g.collection c).isPolymorphic = true)
    (hsome : ∃ m ∈ (g.collection c).members.values,
      (g.model m).modelType.hasRelationship name = true)
    (hread : ∀ m ∈ (g.collection c).members.values,
      (g.model m).modelType.hasRelationship name = true → ∃ y t, Returns (m.read name) g y t) :
    (g.CanMerge (g.collection c) name → ∃ result t, Returns (c.read name) g result t ∧
      g.Merges (g.collection c) name (t.collection result)) ∧
    ∀ callers loaded, Returns (fetchRelationship (g.collection c).session
        (g.collection c).members.values name callers) g () loaded →
      loaded.CanMerge (g.collection c) name → ∃ result t,
        Returns ((Related.collection c).fetch [name] callers) g (.collection result) t ∧
        loaded.Merges (g.collection c) name (t.collection result) := by
  have hwf := hg.wellFormed
  have hmembers : ∀ m ∈ (g.collection c).members.values, g.HasModel m := fun m => hwf.member hc
  have hlook : ∀ m ∈ (g.collection c).members.values,
      (g.model m).modelType.hasRelationship name = true → ∃ y, g.look m name = .ok y := by
    intro m hm hdeclares
    obtain ⟨y, t, hy⟩ := hread m hm hdeclares
    obtain ⟨z, hz, -⟩ := (Model.mirrors_read hwf (.refl hwf fun _ _ => True) (hmembers m hm)
      trivial).answers y t hy
    exact ⟨z, hz⟩
  have hreaders : ∀ {t : Graph σ} {m : Model}, m ∈ t.readers (g.collection c) name →
      m ∈ (g.collection c).members.values ∧ (t.model m).modelType.hasRelationship name = true := by
    intro t m hm
    simpa [Graph.readers, hpoly] using hm
  refine ⟨Collection.exists_read hwf hc hpoly hsome fun m hm =>
    hlook m (hreaders hm).1 (hreaders hm).2, fun callers loaded hfetch hmerge => ?_⟩
  obtain ⟨hloaded, -⟩ := (upholds_fetchRelationship hkept hg _ hmembers name callers).of_returns
    hfetch
  have hdisturbed := (ends_fetchRelationship hwf hmembers).answers _ _ hfetch
  have htype : ∀ m ∈ (g.collection c).members.values,
      (loaded.model m).modelType = (g.model m).modelType := fun m hm => by
    rw [hdisturbed.spares.model m (hmembers m hm)]
  have hsame := hdisturbed.spares.collection c hc
  obtain ⟨m, hm, hdeclares⟩ := hsome
  rw [← hsame] at hmerge
  obtain ⟨result, t, hresult, hmerges⟩ := Collection.exists_read hloaded.wellFormed
    (hdisturbed.spares.hasCollection hc) (hsame ▸ hpoly)
    ⟨m, hsame ▸ hm, by rw [htype m hm, hdeclares]⟩ (fun n hn => by
      rw [hsame] at hn
      obtain ⟨hin, hdeclared⟩ := hreaders hn
      rw [htype n hin] at hdeclared
      exact hdisturbed.exists_look (hmembers n hin) (hlook n hin hdeclared)) hmerge
  rw [hsame] at hmerges
  have hstep : Returns (Related.read (.collection c) name) loaded (.collection result) t :=
    returns_bind.mpr ⟨result, t, hresult, returns_pure.mpr ⟨rfl, rfl⟩⟩
  rw [Related.fetch_singleton]
  exact ⟨result, t, Related.returns_fetchStep.mpr ⟨loaded, hfetch, hstep⟩, hmerges⟩

end Read

namespace Library

/-- A page, which refers to what it is owned by. -/
def webPage (owner : String) : ModelType :=
  (ModelType.new "page" "node" "page").declare (.field "author" "owner" owner)

/-- A user, who is not a node. -/
def user : ModelType := ModelType.new "user" "account" "user"

/-- An author, an article and a page in one collection. The author declares no author. -/
def miscellany (owner : String) : Graph MemoryStore :=
  let page := ((Record.new "node" "page").withId "home").set "owner"
    (.object [("target_id", .text "bob")])
  let s := filled [(Record.new "node" "author").withId "ann",
    (Record.new "node" "author").withId "bob", (Record.new "account" "user").withId "bob",
    written "cells" "ann", page]
  let g := Graph.new s (registry [author, article, user, webPage owner])
  let g := (Session.start Config.standard g).2
  let g := (Model.forgeById session "author" "ann" g).2
  let g := (Model.forgeById session "article" "cells" g).2
  let g := (Model.forgeById session "page" "home" g).2
  let g := (Collection.polymorphic session none g).2
  (Collection.put ⟨0⟩ ⟨2⟩ (Collection.put ⟨0⟩ ⟨1⟩ (Collection.put ⟨0⟩ ⟨0⟩ g).2).2).2

theorem reachable_miscellany (owner : String) (hthere : owner = "author" ∨ owner = "user") :
    Graph.Reachable MemoryStore.Filed (miscellany owner) := by
  have htypes : ∀ t ∈ [author, article, user, webPage owner], t.WellFormed := by
    simp [wellFormed_author, wellFormed_article, user, webPage, ModelType.wellFormed_new,
      ModelType.WellFormed.declare]
  refine .call (.call (.call (.call (.call (.call (.call (.call (.new (filed_filled _)
    (wellFormed_registry htypes)) (.start _)) (.forgeById _ _ _)) (.forgeById _ _ _))
    (.forgeById _ _ _)) (.polymorphic _ _)) (.put ?_ ?_)) (.put ?_ ?_)) (.put ?_ ?_)
  all_goals rcases hthere with rfl | rfl <;> decide +kernel

/-- The graph after the authors of the members were fetched. -/
def accredited (owner : String) : Graph MemoryStore :=
  (fetchRelationship session [⟨0⟩, ⟨1⟩, ⟨2⟩] "author" none (miscellany owner)).2

theorem returns_accredited (owner : String) (hthere : owner = "author" ∨ owner = "user") :
    Returns (fetchRelationship session [⟨0⟩, ⟨1⟩, ⟨2⟩] "author" none) (miscellany owner) ()
      (accredited owner) := by
  rcases hthere with rfl | rfl
  · exact returns_of_isOk (by decide +kernel) ()
  · exact returns_of_isOk (by decide +kernel) ()

/-- The authors of the article and of the page can be fetched together. -/
theorem miscellany_covered : Graph.Reachable MemoryStore.Filed (miscellany "author") ∧
    ∃ result t, Returns ((Related.collection ⟨0⟩).fetch ["author"] none) (miscellany "author")
        (.collection result) t ∧ (t.collection result).members.keys = ["ann", "bob"] := by
  have hreachable := reachable_miscellany "author" (.inl rfl)
  have hok : ∀ m ∈ ((miscellany "author").collection ⟨0⟩).members.values,
      ((miscellany "author").model m).modelType.hasRelationship "author" = true →
        (m.read "author" (miscellany "author")).1.isOk = true := by decide +kernel
  obtain ⟨-, hfetch⟩ := read_covers_mixed_types MemoryStore.keeps_filed
    (hreachable.sound MemoryStore.keeps_filed) (by decide +kernel) (by decide +kernel)
    (by decide +kernel) fun m hm hdeclares => ⟨_, _, returns_of_isOk (hok m hm hdeclares) default⟩
  obtain ⟨result, t, hresult, hmerges⟩ :=
    hfetch none _ (returns_accredited "author" (.inl rfl)) (by decide +kernel)
  exact ⟨hreachable, result, t, hresult, hmerges.keys.trans (by decide +kernel)⟩

/-- Where pages are owned by users, both owners are loaded and each can be read, but not the two
together, as they are of different entity types. -/
theorem miscellany_not_covered : Graph.Reachable MemoryStore.Filed (miscellany "user") ∧
    ((miscellany "user").collection ⟨0⟩).isPolymorphic = true ∧
    Returns (fetchRelationship session [⟨0⟩, ⟨1⟩, ⟨2⟩] "author" none) (miscellany "user") ()
      (accredited "user") ∧
    (∀ m ∈ ((accredited "user").collection ⟨0⟩).members.values,
      ((accredited "user").model m).modelType.hasRelationship "author" = true →
        (m.read "author" (accredited "user")).1.isOk = true) ∧
    (∀ result t, ¬ Returns (Collection.read ⟨0⟩ "author") (accredited "user") result t) ∧
    ∀ answer t, ¬ Returns ((Related.collection ⟨0⟩).fetch ["author"] none) (miscellany "user")
      answer t :=
  ⟨reachable_miscellany "user" (.inr rfl), by decide +kernel, returns_accredited "user" (.inr rfl),
    by decide +kernel, not_returns_of_not_isOk (by decide +kernel),
    not_returns_of_not_isOk (by decide +kernel)⟩

end Library

end RecordGraph
