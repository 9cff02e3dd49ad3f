/-
# What collections hold

A collection admits models of its type, or, if it is polymorphic, models of the entity type that
the first one decided; and it files every model under a key of it. Both are said here of the
members and of the snapshot, in every graph that a history leads to, whatever calls the history
is made of. What a collection admits is decided once: no later call changes it, and a model that
is not admitted leaves everything as it was.

A snapshot is renamed together with the members, by key. What it has under a key that is replaced
is the member that has the key, because no two models of a session have one placeholder, unless
an identifier is spelled like it. So the statement on the keys of the snapshot is about models of
one session, and asks that their identifiers do not clash with their placeholders.
-/
import RecordGraph.Proofs.Fetching.Failing
import RecordGraph.Proofs.Fetching.Succeeding
import RecordGraph.Proofs.Keys

namespace RecordGraph

variable {σ : Type}

/-! ## What collections admit -/

namespace Graph

theorem Step.hasCollection {g g' : Graph σ} (h : g.Step g') {c : Collection}
    (hc : g.HasCollection c) : g'.HasCollection c := by
  cases h with
  | store store => exact hc
  | opened config => exact hc
  | session s d hconfig hcount => exact hc
  | forged s t r =>
      cases hid : r.id with
      | some id => rwa [Model.forge_of_id hid]
      | none => rwa [Model.forge_of_new hid]
  | model hm hsession htype hkey hstays => exact hc
  | made s membership => exact (hasCollection_addCollection g _ c).mpr (.inl hc)
  | collection hother hchange => exact (hasCollection_setCollection hother c).mpr hc

theorem Step.settles {g g' : Graph σ} (h : g.Step g') {c : Collection} (hc : g.HasCollection c) :
    (g.collection c).membership.Settles (g'.collection c).membership := by
  obtain ⟨-, hsame | hchange⟩ | ⟨hnew, -⟩ := h.collection_cases (h.hasCollection hc)
  · exact .inl (by rw [hsame])
  · exact hchange.settles
  · exact absurd hc hnew

theorem Moves.settles {g g' : Graph σ} (h : g.Moves g') {c : Collection}
    (hc : g.HasCollection c) :
    (g.collection c).membership.Settles (g'.collection c).membership := by
  refine (h.induct (I := fun t => t.HasCollection c ∧
    (g.collection c).membership.Settles (t.collection c).membership) ?_ ⟨hc, .inl rfl⟩).2
  rintro t t' hstep ⟨ht, hsettles⟩
  exact ⟨hstep.hasCollection ht, hsettles.trans (hstep.settles ht)⟩

end Graph

/-! ## What the snapshot files -/

namespace Graph

/-- The second model has a placeholder that the first one has for an identifier, or, in another
session, for a key. -/
def Strays (g : Graph σ) (m n : Model) : Prop :=
  g.GaveOut (g.model n).session (g.model n).key ∧
    ((g.model m).record.id = some (g.model n).key ∨
      (g.model m).key = (g.model n).key ∧ (g.model m).session ≠ (g.model n).session)

/-- The model may be in the snapshot of a collection with this data: it stands under its key or
under its identifier, unless it strays, and the collection admits its type. -/
def Recalls (g : Graph σ) (d : CollectionData) (key : String) (x : Model) : Prop :=
  g.HasModel x ∧ d.membership.Admits (g.model x).modelType ∧
    (key = (g.model x).key ∨ (g.model x).record.id = some key ∨
      ∃ n, g.HasModel n ∧ g.Strays x n)

variable {g g' : Graph σ} {d d' : CollectionData} {m x : Model} {key old new : String}

theorem Files.recalls (h : g.Files d key x) : g.Recalls d key x :=
  ⟨h.1, h.2.2, h.2.1.imp_right .inl⟩

theorem Recalls.later (h : g.Recalls d key x) (hlabelled : g.Labelled)
    (hlater : g.Continues g') : g'.Recalls d key x := by
  obtain ⟨hx, hadmits, hplace⟩ := h
  unfold Recalls
  rw [hlater.modelType x hx, hlater.key x hx]
  refine ⟨hlater.made x hx, hadmits, hplace.imp_right (.imp (hlater.id x hx key) ?_)⟩
  rintro ⟨n, hn, hgave, hstrays⟩
  refine ⟨n, hlater.made n hn, ?_⟩
  unfold Strays
  rw [hlater.session n hn, hlater.key n hn, hlater.session x hx, hlater.key x hx]
  exact ⟨hlater.gave _ _ (hlabelled.known n hn) hgave, hstrays.imp_left (hlater.id x hx _)⟩

/-- A model of the snapshot that stands where a member gets a new key is this member, or
strays. -/
theorem Recalls.of_member (hlabelled : g.Labelled) (hm : g.Files d old m)
    (hid : (g.model m).record.id = some new) (hne : new ≠ old) (hx : g.Recalls d old x) :
    x = m ∨ ∃ n, g.HasModel n ∧ g.Strays x n := by
  obtain ⟨hmade, hplace, -⟩ := hm
  obtain ⟨hx, -, hplace'⟩ := hx
  -- the key is a placeholder, for the identifier is another one
  have hkey : old = (g.model m).key :=
    hplace.resolve_right fun hold => hne (Option.some.inj (hid.symm.trans hold))
  have hother : (g.model m).record.id ≠ some (g.model m).key := by
    rw [hid, ← hkey]
    exact fun hsame => hne (Option.some.inj hsame)
  have hgave := (hlabelled.origin m hmade).resolve_left hother
  rcases hplace' with hown | hid' | hstrays
  · by_cases hsame : x = m
    · exact .inl hsame
    · refine .inr ⟨m, hmade, hgave, ?_⟩
      have hkeys : (g.model x).key = (g.model m).key := hown.symm.trans hkey
      by_cases hsession : (g.model x).session = (g.model m).session
      · have hapart := hlabelled.apart x m hx hmade hsame hsession hkeys
        exact .inl (hkeys ▸ hapart.resolve_right hother)
      · exact .inr ⟨hkeys, hsession⟩
  · exact .inr ⟨m, hmade, hgave, .inl (hkey ▸ hid')⟩
  · exact .inr hstrays

/-- What may be written to a collection leaves its snapshot filed as it may be. -/
theorem Changes.recalls (h : g.Changes d d') (hlabelled : g.Labelled)
    (hfiled : ∀ key x, d.members.get? key = some x → g.Files d key x)
    (hd : ∀ key x, d.snapshot.get? key = some x → g.Recalls d key x) :
    ∀ key x, d'.snapshot.get? key = some x → g.Recalls d' key x := by
  cases h with
  | decided hm hopen =>
      -- while nothing is decided the snapshot is empty
      intro key x hx
      have hadmits := (hd key x hx).2.1
      rw [hopen] at hadmits
      cases hadmits
  | joined hm hadmits => exact hd
  | noted hm hadmits => exact OrderedMap.forall_get?_insert hd ⟨hm, hadmits, .inl rfl⟩
  | fetched hm hadmits => exact OrderedMap.forall_get?_insert hd ⟨hm, hadmits, .inl rfl⟩
  | removed key => exact hd
  | sorted le => exact hd
  | saved => exact fun key x hx => (hfiled key x hx).recalls
  | @rekeyed m old new hm hid =>
      intro key x hx
      obtain ⟨before, hbefore, rfl⟩ := OrderedMap.get?_of_get?_renameKeys hx
      have hrecalls := hd before x hbefore
      refine ⟨hrecalls.1, hrecalls.2.1, ?_⟩
      unfold RecordGraph.rekeyed
      split
      · rename_i hold
        subst hold
        by_cases hsame : new = before
        · exact hsame ▸ hrecalls.2.2
        · rcases hrecalls.of_member hlabelled (hfiled before m hm) hid hsame with rfl | hstrays
          · exact .inr (.inl hid)
          · exact .inr (.inr hstrays)
      · exact hrecalls.2.2

/-- All snapshots are filed as they may be. -/
def Recalled (g : Graph σ) : Prop :=
  ∀ c, g.HasCollection c → ∀ key x, (g.collection c).snapshot.get? key = some x →
    g.Recalls (g.collection c) key x

theorem Recalled.step (h : g.Recalled) (hlabelled : g.Labelled) (hstep : g.Step g') :
    g'.Recalled :=
  hstep.forall_collections
    (P := fun g d => ∀ key x, d.snapshot.get? key = some x → g.Recalls d key x)
    (fun _ _ => by simp)
    (fun c _ hc hchange => hchange.recalls hlabelled (hlabelled.filed c hc) (h c hc))
    (fun _ hd key x hx => (hd key x hx).later hlabelled (.step hstep)) h

/-! ## Histories -/

variable [RecordStore σ] {Kept : σ → Prop}

theorem Reachable.recalled (hkept : RecordStore.Keeps Kept) (hids : RecordStore.KeepsIds Kept)
    (h : Reachable Kept g) : g.Recalled := by
  have hboth : ∀ {t t' : Graph σ}, t.Moves t' → t.Labelled ∧ t.Recalled →
      t'.Labelled ∧ t'.Recalled := fun hmoves => hmoves.induct (I := fun t =>
    t.Labelled ∧ t.Recalled) fun _ _ hstep ⟨hlabelled, hrecalled⟩ =>
      ⟨hlabelled.step hstep, hrecalled.step hlabelled hstep⟩
  induction h with
  | new _ _ => exact fun _ hc => absurd hc (Nat.not_lt_zero _)
  | call hbefore hx ih =>
      exact (hboth ((hx.proceeds hkept (hbefore.sound hkept)).moves hids)
        ⟨hbefore.labelled hkept hids, ih⟩).2
  | store hbefore _ ih => exact ih.step (hbefore.labelled hkept hids) (.store _)

/-- The graphs that calls lead to from a graph on. -/
inductive Leads (Kept : σ → Prop) (g : Graph σ) : Graph σ → Prop where
  | refl : Leads Kept g g
  | call {g' : Graph σ} {α : Type} {x : Action σ α} (h : Leads Kept g g') (hx : g'.Offers x) :
      Leads Kept g (x g').2
  | store {g' : Graph σ} {store : σ} (h : Leads Kept g g') (hstore : Kept store) :
      Leads Kept g { g' with store := store }

theorem Leads.reachable (h : g.Leads Kept g') (hg : Reachable Kept g) : Reachable Kept g' := by
  induction h with
  | refl => exact hg
  | call _ hx ih => exact .call ih hx
  | store _ hstore ih => exact .store ih hstore

theorem Leads.moves (h : g.Leads Kept g') (hkept : RecordStore.Keeps Kept)
    (hids : RecordStore.KeepsIds Kept) (hg : Reachable Kept g) : g.Moves g' := by
  induction h with
  | refl => exact .refl
  | call hbefore hx ih =>
      exact ih.trans ((hx.proceeds hkept ((hbefore.reachable hg).sound hkept)).moves hids)
  | store _ _ ih => exact ih.tail (.store _)

end Graph

/-! ## Putting -/

namespace Collection

variable {g g' : Graph σ} {c : Collection} {m : Model}

/-- A collection that is open lets every model in. -/
theorem succeeds_accept_iff : Succeeds (c.accept m) g ↔
    (g.collection c).membership = .ofEntity none ∨
      (g.collection c).membership.Admits (g.model m).modelType := by
  constructor
  · rintro ⟨_, g', haccept⟩
    obtain ⟨hadmits, hopen | hsame⟩ := admits_of_accept haccept
    · exact .inl hopen
    · exact .inr (hsame ▸ hadmits)
  · rintro (hopen | hadmits)
    · refine ⟨(), g.setCollection c { g.collection c with
        membership := .ofEntity (some (g.model m).modelType.entityType) }, ?_⟩
      simp only [accept, returns_bind, Model.returns_modelType, returns_data, and_assoc,
        exists_eq_left, hopen, returns_update]
    · exact ⟨(), g, returns_accept_of_admits hadmits⟩

/-- What a way of putting a model promises. -/
structure Guards (c : Collection) (m : Model) (put : Action σ Unit) (g : Graph σ) : Prop where
  /-- The model is taken if nothing is decided, or if it is of what is. -/
  accepted : Succeeds put g ↔ (g.collection c).membership = .ofEntity none ∨
    (g.collection c).membership.Admits (g.model m).modelType
  /-- What is decided then is what the model is of. -/
  decides : ∀ g', Returns put g () g' →
    (g'.collection c).membership.Admits (g.model m).modelType
  /-- A model that is not taken changes nothing. -/
  rejected : ∀ e g', put g = (.error e, g') → g' = g

/-- All ways of putting a model let it in first, and then write it somewhere. -/
theorem guards_of_accept {write : String → CollectionData → CollectionData}
    (hwrite : ∀ key d, (write key d).membership = d.membership) :
    c.Guards m (do c.accept m; let key ← m.key; c.update (write key)) g where
  accepted := by
    rw [← succeeds_accept_iff]
    constructor
    · rintro ⟨_, _, hput⟩
      obtain ⟨_, between, haccept, -⟩ := returns_bind.mp hput
      exact ⟨_, between, haccept⟩
    · intro haccept
      refine haccept.bind fun _ between _ => ?_
      simp only [Succeeds, returns_bind, Model.returns_key, returns_update, and_assoc,
        exists_eq_left]
      exact ⟨⟨⟩, _, rfl⟩
  decides g' hput := by
    simp only [returns_bind, Model.returns_key, returns_update, and_assoc, exists_eq_left] at hput
    obtain ⟨_, between, haccept, rfl⟩ := hput
    rw [Graph.collection_setCollection, if_pos rfl, hwrite]
    exact (admits_of_accept haccept).1
  rejected := by
    suffices h : Ends (do c.accept m; let key ← m.key; c.update (write key)) g (· = g)
        fun _ _ => True from h.atomic
    exact ends_accept.bind fun _ _ _ => Ends.bind_of_reads rfl (Ends.of_run rfl trivial)

theorem guards_put (c : Collection) (m : Model) (g : Graph σ) : c.Guards m (c.put m) g :=
  guards_of_accept fun _ _ => rfl

theorem guards_putSnapshot (c : Collection) (m : Model) (g : Graph σ) :
    c.Guards m (c.putSnapshot m) g :=
  guards_of_accept fun _ _ => rfl

theorem guards_putFetched (c : Collection) (m : Model) (g : Graph σ) :
    c.Guards m (c.putFetched m) g :=
  guards_of_accept fun _ _ => rfl

/-- A new model that cannot be put is in no collection. -/
theorem collections_of_failed_putNew [RecordStore σ] {e : Error}
    (h : c.putNew g = (.error e, g')) : g'.collections = g.collections := by
  suffices hends : Ends c.putNew g (fun u => u.collections = g.collections) fun _ _ => True from
    hends.fails e g' h
  refine Ends.bind_of_reads rfl ?_
  split
  · exact Ends.throw rfl
  · rename_i t ht
    have hforge : Ends (Model.forgeFresh (g.collection c).session t) g
        (fun u => u.collections = g.collections) fun _ u => u.collections = g.collections := by
      refine Ends.bind (Ends.of_left rfl) fun r u hu => Ends.of_left ?_
      cases hid : r.id with
      | some id => rwa [Model.forge_of_id hid]
      | none => rwa [Model.forge_of_new hid]
    refine hforge.bind fun m u hu => ?_
    refine (Ends.of_atomic (q := fun _ _ => True) atomic_put hu fun _ _ _ => trivial).bind
      fun _ _ _ => Ends.pure trivial

end Collection

/-- Over a store in memory, whatever calls were made: the members and the snapshot of a collection
are models that it admits, each under its key or its identifier; what it admits is decided by the
first model that it takes and never changes from then on; and a model that it does not take
changes nothing. For the keys, the models are of one session, and no identifier is spelled like a
placeholder that is the key of one. -/
theorem collections_hold {g : Graph MemoryStore} (hg : Graph.Reachable MemoryStore.Filed g)
    (hsession : ∀ m, g.HasModel m → ∀ n, g.HasModel n →
      (g.model m).session = (g.model n).session)
    (hclash : ∀ m, g.HasModel m → ∀ n, g.HasModel n → ¬ g.Clashes m n) {c : Collection}
    (hc : g.HasCollection c) :
    (∀ key x, (g.collection c).members.get? key = some x ∨
        (g.collection c).snapshot.get? key = some x →
      g.Files (g.collection c) key x ∧
        ∀ own, (g.collection c).membership = .ofType own → (g.model x).modelType = own) ∧
    (∀ g', g.Leads MemoryStore.Filed g' →
      (g.collection c).membership.Settles (g'.collection c).membership) ∧
    (∀ m, c.Guards m (c.put m) g ∧ c.Guards m (c.putSnapshot m) g ∧
      c.Guards m (c.putFetched m) g) ∧
    ∀ e g', c.putNew g = (.error e, g') → g'.collections = g.collections := by
  have hwf := (hg.sound MemoryStore.keeps_filed).wellFormed
  have hlabelled := hg.labelled MemoryStore.keeps_filed MemoryStore.keepsIds
  have hrecalled := hg.recalled MemoryStore.keeps_filed MemoryStore.keepsIds
  have hfiles : ∀ key x, (g.collection c).members.get? key = some x ∨
      (g.collection c).snapshot.get? key = some x → g.Files (g.collection c) key x := by
    rintro key x (hx | hx)
    · exact hlabelled.filed c hc key x hx
    · obtain ⟨hmade, hadmits, hplace⟩ := hrecalled c hc key x hx
      refine ⟨hmade, hplace.imp_right (Or.resolve_right · ?_), hadmits⟩
      rintro ⟨n, hn, hgave, hid | ⟨-, hother⟩⟩
      · exact hclash x hmade n hn ⟨hid, hgave⟩
      · exact hother (hsession x hmade n hn)
  refine ⟨fun key x hx => ⟨hfiles key x hx, fun own hown => ?_⟩,
    fun g' hleads => (hleads.moves MemoryStore.keeps_filed MemoryStore.keepsIds hg).settles hc,
    fun m => ⟨c.guards_put m g, c.guards_putSnapshot m g, c.guards_putFetched m g⟩,
    fun e g' => Collection.collections_of_failed_putNew⟩
  obtain ⟨hmade, -, hadmits⟩ := hfiles key x hx
  exact hwf.modelType_of_admits hc hmade hown hadmits

/-- What is said of all models of a graph can be decided one by one. -/
instance (g : Graph σ) (p : Model → Prop) [DecidablePred p] :
    Decidable (∀ m, g.HasModel m → p m) :=
  decidable_of_iff (∀ i < g.models.size, p ⟨i⟩) ⟨fun h m hm => h m.number hm, fun h i hi => h ⟨i⟩ hi⟩

namespace Library

/-- A guest, who is of another entity type than authors and articles. -/
def guest : ModelType := ModelType.new "guest" "user" "guest"

/-- A collection that was open, with an author and a new article, and a guest who is no member. -/
def assorted : Graph MemoryStore :=
  let g := (Collection.polymorphic session none (opened [author, article, guest])).2
  let g := (Model.forgeById session "author" "ann" g).2
  let g := (Model.forgeNew session "article" g).2
  let g := (Model.forgeNew session "guest" g).2
  (Collection.put ⟨0⟩ ⟨1⟩ (Collection.put ⟨0⟩ ⟨0⟩ g).2).2

theorem reachable_assorted : Graph.Reachable MemoryStore.Filed assorted := by
  have htypes : ∀ t ∈ [author, article, guest], t.WellFormed := by
    simp [wellFormed_author, wellFormed_article, guest, ModelType.wellFormed_new]
  refine .call (.call (.call (.call (.call (.call (reachable_opened htypes) (.polymorphic _ _))
    (.forgeById _ _ _)) (.forgeNew _ _)) (.forgeNew _ _)) (.put ?_ ?_)) (.put ?_ ?_)
  all_goals decide +kernel

/-- The graph after the members were removed again. -/
def vacated : Graph MemoryStore :=
  (Collection.remove ⟨0⟩ "PLH1" (Collection.remove ⟨0⟩ "ann" assorted).2).2

/-- The author and the article are members, and the guest cannot become one, even of the empty
collection. -/
theorem assorted_hold : Graph.Reachable MemoryStore.Filed assorted ∧
    assorted.Files (assorted.collection ⟨0⟩) "PLH1" ⟨1⟩ ∧
    (vacated.collection ⟨0⟩).members.entries = [] ∧
    (vacated.collection ⟨0⟩).membership = .ofEntity (some "node") ∧
    ∀ g', ¬ Returns (Collection.put ⟨0⟩ ⟨2⟩) assorted () g' := by
  obtain ⟨hfiles, hsettles, hguards, -⟩ := collections_hold (c := ⟨0⟩) reachable_assorted
    (by decide +kernel) (by decide +kernel) (by decide +kernel)
  obtain ⟨hput, -, -⟩ := hguards ⟨2⟩
  have hnode : (assorted.collection ⟨0⟩).membership = .ofEntity (some "node") := rfl
  have hleads : assorted.Leads MemoryStore.Filed vacated :=
    .call (.call .refl (.remove (by decide +kernel) _)) (.remove (by decide +kernel) _)
  refine ⟨reachable_assorted, (hfiles "PLH1" ⟨1⟩ (.inl (by decide +kernel))).1, by decide +kernel,
    ?_, fun g' hreturns => ?_⟩
  · rcases hsettles vacated hleads with hsame | ⟨hopen, -⟩
    · rw [hsame, hnode]
    · rw [hnode] at hopen
      cases hopen
  · have hadmits := hput.accepted.mp ⟨(), g', hreturns⟩
    rw [hnode] at hadmits
    rcases hadmits with hopen | hentity
    · cases hopen
    · have hguest : (assorted.model ⟨2⟩).modelType.entityType = "user" := by decide +kernel
      exact absurd (Option.some.inj hentity) (by rw [hguest]; decide)

end Library

end RecordGraph
