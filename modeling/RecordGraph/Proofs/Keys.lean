/-
# Keys tell models apart

A model is filed under its key, which is fixed when the model is forged: the identifier of its
record, or a placeholder of its session if the record has none. Identifiers come from the store
and from callers, placeholders from a counter of the session. Nothing keeps the two apart, so an
identifier may be spelled like a placeholder.

Short of that, keys do what they are for. Two models of a session that have one key are the same
model or wrap the same stored record, and a model that is put to a collection only takes the
place of such a one. The main statement is `keys_identify`.
-/
import RecordGraph.Proofs.Saving.Records
import RecordGraph.Proofs.Upholding.Histories
import RecordGraph.Proofs.WrittenLogic

namespace RecordGraph

variable {σ : Type}

namespace Graph

/-- The key is a placeholder that the session has given out. -/
def GaveOut (g : Graph σ) (s : Session) (key : String) : Prop :=
  ∃ n, 0 < n ∧ n ≤ (g.session s).placeholders ∧ key = g.placeholder s n

instance (g : Graph σ) (s : Session) (key : String) : Decidable (g.GaveOut s key) :=
  decidable_of_iff (∃ n < (g.session s).placeholders + 1, 0 < n ∧ key = g.placeholder s n)
    ⟨fun ⟨n, hlt, hpos, hkey⟩ => ⟨n, hpos, Nat.le_of_lt_succ hlt, hkey⟩,
      fun ⟨n, hpos, hle, hkey⟩ => ⟨n, Nat.lt_succ_of_le hle, hpos, hkey⟩⟩

/-- The identifier of the first model is spelled like the key of the second one, which is a
placeholder of its session. -/
def Clashes (g : Graph σ) (m n : Model) : Prop :=
  (g.model m).record.id = some (g.model n).key ∧
    g.GaveOut (g.model n).session (g.model n).key

instance (g : Graph σ) (m n : Model) : Decidable (g.Clashes m n) :=
  inferInstanceAs (Decidable (_ ∧ _))

/-- The model may be a member of a collection with this data: it stands under its key or under
its identifier, and the collection admits its type. -/
def Files (g : Graph σ) (d : CollectionData) (key : String) (x : Model) : Prop :=
  g.HasModel x ∧ (key = (g.model x).key ∨ (g.model x).record.id = some key) ∧
    d.membership.Admits (g.model x).modelType

/-- The model wraps a record of the entity type of its type. -/
def Typed (g : Graph σ) (m : Model) : Prop :=
  (g.model m).record.entityType = (g.model m).modelType.entityType

/-- What is known of the keys of a graph: where they come from, and what they are used for. -/
structure Labelled (g : Graph σ) : Prop where
  /-- A model is of a session that is there. -/
  known : ∀ m, g.HasModel m → (g.model m).session.number < g.sessions.size
  /-- A key that is not the identifier is a placeholder. -/
  origin : ∀ m, g.HasModel m → (g.model m).record.id = some (g.model m).key ∨
    g.GaveOut (g.model m).session (g.model m).key
  /-- No placeholder is used for two models. -/
  apart : ∀ m n, g.HasModel m → g.HasModel n → m ≠ n →
    (g.model m).session = (g.model n).session → (g.model m).key = (g.model n).key →
    (g.model m).record.id = some (g.model m).key ∨ (g.model n).record.id = some (g.model n).key
  /-- Members are filed as they may be. -/
  filed : ∀ c, g.HasCollection c → ∀ key x, (g.collection c).members.get? key = some x →
    g.Files (g.collection c) key x

/-- Placeholders of a session differ in their numbers. -/
theorem placeholder_inj {g : Graph σ} {s : Session} {i j : Nat}
    (h : g.placeholder s i = g.placeholder s j) : i = j :=
  Text.toString_inj ((String.append_right_inj _).mp h)

theorem GaveOut.later {g g' : Graph σ} {s : Session} {key : String} (h : g.GaveOut s key)
    (hconfig : (g'.session s).config = (g.session s).config)
    (hcount : (g.session s).placeholders ≤ (g'.session s).placeholders) : g'.GaveOut s key := by
  obtain ⟨n, hpos, hle, hkey⟩ := h
  exact ⟨n, hpos, Nat.le_trans hle hcount, by rw [hkey, placeholder, placeholder, hconfig]⟩

/-! ## Forging -/

section Wrapped

variable {g : Graph σ} {s : Session} {t : ModelType} {key : String} {r : Record} {m : Model}

theorem model_wrapped_of_hasModel (hm : g.HasModel m) :
    (g.wrapped s t key r).model m = g.model m := by
  rw [wrapped, model_setSession, model_addModel, if_neg hm.ne_nextModel]

theorem model_wrapped_next (g : Graph σ) (s : Session) (t : ModelType) (key : String)
    (r : Record) : (g.wrapped s t key r).model g.nextModel =
      ⟨s, t, key, r, OrderedMap.empty, OrderedMap.empty⟩ := by
  rw [wrapped, model_setSession, model_addModel, if_pos rfl]

theorem hasModel_wrapped (hm : (g.wrapped s t key r).HasModel m) :
    g.HasModel m ∨ m = g.nextModel :=
  (hasModel_addModel g _ m).mp hm

theorem GaveOut.wrapped {own : Session} {given : String} (h : g.GaveOut own given) :
    (g.wrapped s t key r).GaveOut own given := by
  refine h.later ?_ (Nat.le_of_eq ?_)
  all_goals
    rw [Graph.wrapped, session_setSession]
    split
    · rename_i hsame
      rw [hsame]
    · rfl

end Wrapped

/-! ## What lasts -/

/-- Sessions and models stay. A model keeps its session, its type and its key, and its identifier
once it has one; no placeholder is taken back. -/
structure Continues (g g' : Graph σ) : Prop where
  sessions : g.sessions.size ≤ g'.sessions.size
  gave : ∀ s key, s.number < g.sessions.size → g.GaveOut s key → g'.GaveOut s key
  made : ∀ m, g.HasModel m → g'.HasModel m
  session : ∀ m, g.HasModel m → (g'.model m).session = (g.model m).session
  modelType : ∀ m, g.HasModel m → (g'.model m).modelType = (g.model m).modelType
  key : ∀ m, g.HasModel m → (g'.model m).key = (g.model m).key
  id : ∀ m, g.HasModel m → ∀ id, (g.model m).record.id = some id →
    (g'.model m).record.id = some id

namespace Continues

variable {g g' : Graph σ}

theorem of_models (hsessions : g.sessions.size ≤ g'.sessions.size)
    (hgave : ∀ s key, s.number < g.sessions.size → g.GaveOut s key → g'.GaveOut s key)
    (hmodels : g'.models = g.models) : g.Continues g' where
  sessions := hsessions
  gave := hgave
  made m hm := by rwa [HasModel, hmodels]
  session m _ := by rw [model, model, hmodels]
  modelType m _ := by rw [model, model, hmodels]
  key m _ := by rw [model, model, hmodels]
  id m _ id hid := by rwa [model, hmodels]

theorem opened (g : Graph σ) (config : Config) : g.Continues
    { g with sessions := g.sessions.push ⟨config, 0, OrderedMap.empty, []⟩ } := by
  refine .of_models (by simp) (fun s key hs hgave => ?_) rfl
  have hsame : Graph.session { g with
      sessions := g.sessions.push ⟨config, 0, OrderedMap.empty, []⟩ } s = g.session s := by
    rw [Graph.session, Cells.get_push, if_neg (Nat.ne_of_lt hs)]
    rfl
  exact hgave.later (congrArg _ hsame) (Nat.le_of_eq (congrArg _ hsame.symm))

theorem setSession (s : Session) {d : SessionData} (hconfig : d.config = (g.session s).config)
    (hcount : (g.session s).placeholders ≤ d.placeholders) : g.Continues (g.setSession s d) := by
  refine .of_models (Cells.size_le_size_set _ _ _) (fun t key _ hgave => ?_) rfl
  by_cases hst : s = t
  · subst hst
    exact hgave.later (by simpa using hconfig) (by simpa using hcount)
  · have hsame : (g.setSession s d).session t = g.session t := by
      rw [session_setSession, if_neg hst]
    exact hgave.later (congrArg _ hsame) (Nat.le_of_eq (congrArg _ hsame.symm))

theorem setModel {m : Model} {d : ModelData} (hm : g.HasModel m)
    (hsession : d.session = (g.model m).session) (htype : d.modelType = (g.model m).modelType)
    (hkey : d.key = (g.model m).key) (hstays : (g.model m).record.StaysAt d.record) :
    g.Continues (g.setModel m d) := by
  have hkept : ∀ n, ((g.setModel m d).model n).session = (g.model n).session ∧
      ((g.setModel m d).model n).modelType = (g.model n).modelType ∧
      ((g.setModel m d).model n).key = (g.model n).key ∧
      ∀ id, (g.model n).record.id = some id → ((g.setModel m d).model n).record.id = some id := by
    intro n
    rw [model_setModel]
    by_cases hmn : m = n
    · rw [if_pos hmn, ← hmn]
      exact ⟨hsession, htype, hkey, hstays.id⟩
    · rw [if_neg hmn]
      exact ⟨rfl, rfl, rfl, fun _ hid => hid⟩
  exact ⟨Nat.le_refl _, fun _ _ _ hgave => hgave, fun n => (hasModel_setModel hm n).mpr,
    fun n _ => (hkept n).1, fun n _ => (hkept n).2.1, fun n _ => (hkept n).2.2.1,
    fun n _ => (hkept n).2.2.2⟩

theorem wrapped (g : Graph σ) (s : Session) (t : ModelType) (key : String) (r : Record) :
    g.Continues (g.wrapped s t key r) where
  sessions := Cells.size_le_size_set _ _ _
  gave _ _ _ hgave := hgave.wrapped
  made m hm := (hasModel_addModel g _ m).mpr (.inl hm)
  session m hm := by rw [model_wrapped_of_hasModel hm]
  modelType m hm := by rw [model_wrapped_of_hasModel hm]
  key m hm := by rw [model_wrapped_of_hasModel hm]
  id m hm id hid := by rwa [model_wrapped_of_hasModel hm]

theorem trans {g'' : Graph σ} (first : g.Continues g') (second : g'.Continues g'') :
    g.Continues g'' where
  sessions := Nat.le_trans first.sessions second.sessions
  gave s key hs hgave := second.gave s key (Nat.lt_of_lt_of_le hs first.sessions)
    (first.gave s key hs hgave)
  made m hm := second.made m (first.made m hm)
  session m hm := (second.session m (first.made m hm)).trans (first.session m hm)
  modelType m hm := (second.modelType m (first.made m hm)).trans (first.modelType m hm)
  key m hm := (second.key m (first.made m hm)).trans (first.key m hm)
  id m hm id hid := second.id m (first.made m hm) id (first.id m hm id hid)

/-- Every write lets sessions and models be what they are. -/
theorem step (h : g.Step g') : g.Continues g' := by
  cases h with
  | store store => exact .of_models (Nat.le_refl _) (fun _ _ _ hgave => hgave) rfl
  | opened config => exact .opened g config
  | session s d hconfig hcount => exact .setSession s hconfig hcount
  | forged s t r =>
      cases hid : r.id with
      | some id =>
          rw [Model.forge_of_id hid]
          exact .wrapped g s t id r
      | none =>
          rw [Model.forge_of_new hid]
          have hcounted : g.Continues (g.counted s) := .setSession s rfl (Nat.le_succ _)
          exact hcounted.trans (.wrapped _ s t _ r)
  | model hm hsession htype hkey hstays => exact .setModel hm hsession htype hkey hstays
  | made s membership => exact .of_models (Nat.le_refl _) (fun _ _ _ hgave => hgave) rfl
  | collection hc hchange => exact .of_models (Nat.le_refl _) (fun _ _ _ hgave => hgave) rfl

end Continues

theorem Files.later {g g' : Graph σ} {d : CollectionData} {key : String} {x : Model}
    (h : g.Files d key x) (hlater : g.Continues g') : g'.Files d key x := by
  obtain ⟨hx, hplace, hadmits⟩ := h
  unfold Files
  rw [hlater.key x hx, hlater.modelType x hx]
  exact ⟨hlater.made x hx, hplace.imp_right (hlater.id x hx key), hadmits⟩

/-- A collection of a type admits its models only: no other type has its name. -/
theorem WellFormed.modelType_of_admits {g : Graph σ} (hg : g.WellFormed) {c : Collection}
    (hc : g.HasCollection c) {m : Model} (hm : g.HasModel m) {own : ModelType}
    (hown : (g.collection c).membership = .ofType own)
    (hadmits : (g.collection c).membership.Admits (g.model m).modelType) :
    (g.model m).modelType = own := by
  rw [hown] at hadmits
  have hname : own.name = (g.model m).modelType.name := hadmits
  have hregistered := (hg.collections c hc).admits own hown
  rw [hname, (hg.models m hm).typed] at hregistered
  exact Except.ok.inj hregistered

/-- What one collection admits is of one entity type. -/
theorem WellFormed.entityType_eq_of_admits {g : Graph σ} (hg : g.WellFormed) {c : Collection}
    (hc : g.HasCollection c) {m n : Model} (hm : g.HasModel m) (hn : g.HasModel n)
    (hadmits : (g.collection c).membership.Admits (g.model m).modelType)
    (hadmits' : (g.collection c).membership.Admits (g.model n).modelType) :
    (g.model m).modelType.entityType = (g.model n).modelType.entityType := by
  cases hmembership : (g.collection c).membership with
  | ofType own =>
      rw [hg.modelType_of_admits hc hm hmembership hadmits,
        hg.modelType_of_admits hc hn hmembership hadmits']
  | ofEntity entityType =>
      rw [hmembership] at hadmits hadmits'
      exact Option.some.inj ((show entityType = _ from hadmits).symm.trans hadmits')

/-- What may be written to a collection leaves its members filed as they may be. -/
theorem Changes.files {g : Graph σ} {d d' : CollectionData} (h : g.Changes d d')
    (hd : ∀ key x, d.members.get? key = some x → g.Files d key x) :
    ∀ key x, d'.members.get? key = some x → g.Files d' key x := by
  cases h with
  | decided hm hopen =>
      -- while nothing is decided there are no members
      intro key x hx
      have hadmits := (hd key x hx).2.2
      rw [hopen] at hadmits
      cases hadmits
  | joined hm hadmits => exact OrderedMap.forall_get?_insert hd ⟨hm, .inl rfl, hadmits⟩
  | noted hm hadmits => exact hd
  | fetched hm hadmits => exact OrderedMap.forall_get?_insert hd ⟨hm, .inl rfl, hadmits⟩
  | removed key => exact fun other x hx => hd other x (OrderedMap.get?_of_get?_erase hx)
  | sorted le => exact fun key x hx => hd key x (OrderedMap.get?_of_get?_sortBy hx)
  | saved => exact hd
  | rekeyed hm hid =>
      intro key x hx
      obtain ⟨before, hbefore, rfl⟩ := OrderedMap.get?_of_get?_renameKeys hx
      obtain ⟨hmade, hplace, hadmits⟩ := hd before x hbefore
      refine ⟨hmade, ?_, hadmits⟩
      unfold RecordGraph.rekeyed
      split
      · rename_i hold
        subst hold
        obtain rfl := Option.some.inj (hbefore.symm.trans hm)
        exact .inr hid
      · exact hplace

namespace Labelled

variable {g g' : Graph σ}

theorem new (store : σ) (registry : Registry) : (Graph.new store registry).Labelled where
  known _ hm := absurd hm (Nat.not_lt_zero _)
  origin _ hm := absurd hm (Nat.not_lt_zero _)
  apart _ _ hm := absurd hm (Nat.not_lt_zero _)
  filed _ hc := absurd hc (Nat.not_lt_zero _)

/-! ## What each write keeps -/

/-- No model was made, and all that there are went on. -/
theorem of_same_models (h : g.Labelled) (hlater : g.Continues g')
    (hmade : ∀ m, g'.HasModel m → g.HasModel m)
    (hfiled : ∀ c, g'.HasCollection c → ∀ key x, (g'.collection c).members.get? key = some x →
      g'.Files (g'.collection c) key x) : g'.Labelled where
  known m hm := by
    rw [hlater.session m (hmade m hm)]
    exact Nat.lt_of_lt_of_le (h.known m (hmade m hm)) hlater.sessions
  origin m hm := by
    have hm := hmade m hm
    rw [hlater.session m hm, hlater.key m hm]
    exact (h.origin m hm).imp (hlater.id m hm _) (hlater.gave _ _ (h.known m hm))
  apart m n hm hn hmn hsame hkeys := by
    have hm := hmade m hm
    have hn := hmade n hn
    rw [hlater.session m hm, hlater.session n hn] at hsame
    rw [hlater.key m hm, hlater.key n hn] at hkeys
    rw [hlater.key m hm, hlater.key n hn]
    exact (h.apart m n hm hn hmn hsame hkeys).imp (hlater.id m hm _) (hlater.id n hn _)
  filed := hfiled

/-- A model is added under its identifier, or under a placeholder that no other model has got. -/
theorem wrapped (h : g.Labelled) (s : Session) (t : ModelType) {key : String} {r : Record}
    (hkey : r.id = some key ∨ g.GaveOut s key ∧ ∀ m, g.HasModel m → (g.model m).session = s →
      (g.model m).key = key → (g.model m).record.id = some key) :
    (g.wrapped s t key r).Labelled := by
  have hmodel : ∀ m, g.HasModel m → (g.wrapped s t key r).model m = g.model m :=
    fun m hm => model_wrapped_of_hasModel hm
  have hnext := g.model_wrapped_next s t key r
  have hclaim : ∀ m, g.HasModel m → (g.model m).session = s → (g.model m).key = key →
      r.id = some key ∨ (g.model m).record.id = some key := by
    intro m hm hsession hsame
    exact hkey.imp_right fun hnew => hnew.2 m hm hsession hsame
  refine ⟨fun m hm => ?_, fun m hm => ?_, fun m n hm hn hmn hsame hkeys => ?_,
    fun c hc key' x hx => ?_⟩
  · rcases hasModel_wrapped hm with hold | rfl
    · rw [hmodel m hold]
      exact Nat.lt_of_lt_of_le (h.known m hold) (Cells.size_le_size_set _ _ _)
    · rw [hnext]
      exact Cells.lt_size_set _ _ _
  · rcases hasModel_wrapped hm with hold | rfl
    · rw [hmodel m hold]
      exact (h.origin m hold).imp_right .wrapped
    · rw [hnext]
      exact hkey.imp_right fun hnew => hnew.1.wrapped
  · rcases hasModel_wrapped hm with holdm | rfl <;> rcases hasModel_wrapped hn with holdn | rfl
    · rw [hmodel m holdm, hmodel n holdn] at hsame hkeys ⊢
      exact h.apart m n holdm holdn hmn hsame hkeys
    · rw [hmodel m holdm, hnext] at hsame hkeys ⊢
      rw [hkeys]
      exact (hclaim m holdm hsame hkeys).symm
    · rw [hmodel n holdn, hnext] at hsame hkeys ⊢
      rw [← hkeys]
      exact hclaim n holdn hsame.symm hkeys.symm
    · exact absurd rfl hmn
  · obtain ⟨hx, hplace⟩ := h.filed c hc key' x hx
    unfold Files
    rw [hmodel x hx]
    exact ⟨(hasModel_addModel g _ x).mpr (.inl hx), hplace⟩

/-- A placeholder that was just counted is new. -/
theorem forged (h : g.Labelled) (s : Session) (t : ModelType) (r : Record) :
    Labelled (Model.forge s t r g).2 := by
  cases hid : r.id with
  | some id =>
      rw [Model.forge_of_id hid]
      exact h.wrapped s t (.inl hid)
  | none =>
      rw [Model.forge_of_new hid]
      have hlater : g.Continues (g.counted s) := .setSession s rfl (Nat.le_succ _)
      have hcounted : (g.counted s).Labelled := h.of_same_models hlater (fun _ hm => hm)
        fun c hc key x hx => (h.filed c hc key x hx).later hlater
      have hnumber : ((g.counted s).session s).placeholders = (g.session s).placeholders + 1 := by
        simp [counted]
      have hsame : ∀ n, (g.counted s).placeholder s n = g.placeholder s n := by
        simp [counted, placeholder]
      refine hcounted.wrapped s t (.inr
        ⟨⟨_, Nat.succ_pos _, Nat.le_of_eq hnumber.symm, (hsame _).symm⟩, ?_⟩)
      intro m hm hsession hkey
      rcases h.origin m hm with hid | ⟨n, -, hle, hused⟩
      · exact hkey ▸ hid
      · have hmodel : (g.counted s).model m = g.model m := rfl
        rw [hmodel] at hsession hkey
        rw [hsession] at hle hused
        have hn := placeholder_inj (hkey.symm.trans hused)
        omega

/-- Every write keeps what is known of keys. -/
theorem step (h : g.Labelled) (hstep : g.Step g') : g'.Labelled := by
  have hlater := Continues.step hstep
  have hfiled := hstep.forall_collections
    (P := fun g d => ∀ key x, d.members.get? key = some x → g.Files d key x)
    (fun _ _ => by simp) (fun c _ hc hchange => hchange.files (h.filed c hc))
    (fun _ hd key x hx => (hd key x hx).later hlater) h.filed
  cases hstep with
  | store store => exact h.of_same_models hlater (fun _ hm => hm) hfiled
  | opened config => exact h.of_same_models hlater (fun _ hm => hm) hfiled
  | session s d hconfig hcount => exact h.of_same_models hlater (fun _ hm => hm) hfiled
  | forged s t r => exact h.forged s t r
  | model hm hsession htype hkey hstays =>
      exact h.of_same_models hlater (fun n => (hasModel_setModel hm n).mp) hfiled
  | made s membership => exact h.of_same_models hlater (fun _ hm => hm) hfiled
  | collection hc hchange => exact h.of_same_models hlater (fun _ hm => hm) hfiled

/-! ## What keys tell -/

variable {m n : Model}

/-- A model whose identifier is the key of another one wraps the same record, or clashes. -/
theorem sameRecord_or_clashes (h : g.Labelled) (hn : g.HasModel n)
    (hentity : (g.model m).record.entityType = (g.model n).record.entityType)
    (hid : (g.model m).record.id = some (g.model n).key) :
    g.SameRecord m n ∨ g.Clashes m n := by
  rcases h.origin n hn with hown | hgave
  · exact .inl ⟨by rw [hid, Option.isSome_some], hid.trans hown.symm, hentity⟩
  · exact .inr ⟨hid, hgave⟩

theorem eq_or_sameRecord_or_clashes (h : g.Labelled) (hm : g.HasModel m) (hn : g.HasModel n)
    (hsession : (g.model m).session = (g.model n).session)
    (hentity : (g.model m).record.entityType = (g.model n).record.entityType)
    (hkey : (g.model m).key = (g.model n).key) :
    m = n ∨ g.SameRecord m n ∨ g.Clashes m n ∨ g.Clashes n m := by
  by_cases hmn : m = n
  · exact .inl hmn
  · refine .inr ?_
    rcases h.apart m n hm hn hmn hsession hkey with hid | hid
    · exact (h.sameRecord_or_clashes hn hentity (hkey ▸ hid)).imp_right .inl
    · rcases h.sameRecord_or_clashes hm hentity.symm (hkey ▸ hid) with hsame | hclash
      · exact .inl ⟨hsame.2.1 ▸ hsame.1, hsame.2.1.symm, hentity⟩
      · exact .inr (.inr hclash)

/-- A collection that has members admits what is put to it as it is. -/
theorem admits_of_put {c : Collection} (hput : Returns (c.put m) g () g')
    {t : ModelType} (ht : (g.collection c).membership.Admits t) :
    (g.collection c).membership.Admits (g.model m).modelType := by
  obtain ⟨_, between, haccept, -⟩ := returns_bind.mp hput
  obtain ⟨hadmitted, hopen | hsame⟩ := Collection.admits_of_accept haccept
  · rw [hopen] at ht
    cases ht
  · rwa [hsame] at hadmitted

/-- A model that is put to a collection leaves a member where it is, or takes its place. -/
theorem of_put (h : g.Labelled) (hg : g.WellFormed) {c : Collection} (hc : g.HasCollection c)
    (hm : g.HasModel m) (hput : Returns (c.put m) g () g') {key : String} {x : Model}
    (hx : (g.collection c).members.get? key = some x) :
    (g'.collection c).members.get? key = some x ∨ (g'.collection c).members.get? key = some m ∧
      ((g.model x).session = (g.model m).session → g.Typed x → g.Typed m →
        x = m ∨ g.SameRecord x m ∨ g.Clashes x m ∨ g.Clashes m x) := by
  obtain ⟨hmade, hplace, hfiled⟩ := h.filed c hc key x hx
  have hadmitted := admits_of_put hput hfiled
  obtain ⟨membership, rfl⟩ := Collection.returns_put hput
  rw [collection_setCollection, if_pos rfl, OrderedMap.get?_insert]
  by_cases hkey : (g.model m).key = key
  · rw [if_pos hkey]
    refine .inr ⟨rfl, fun hsession hx hm' => ?_⟩
    have hentity : (g.model x).record.entityType = (g.model m).record.entityType := by
      rw [hx, hm', hg.entityType_eq_of_admits hc hmade hm hfiled hadmitted]
    rcases hplace with hown | hid
    · exact h.eq_or_sameRecord_or_clashes hmade hm hsession hentity (hown.symm.trans hkey.symm)
    · exact .inr ((h.sameRecord_or_clashes hm hentity (hkey ▸ hid)).imp_right .inl)
  · rw [if_neg hkey]
    exact .inl hx

end Labelled

/-! ## Histories -/

/-- Every history keeps what is known of keys, over a store that keeps identifiers. -/
theorem Reachable.labelled [RecordStore σ] {Kept : σ → Prop} {g : Graph σ}
    (hkept : RecordStore.Keeps Kept) (hids : RecordStore.KeepsIds Kept) (h : Reachable Kept g) :
    g.Labelled := by
  induction h with
  | new _ _ => exact .new _ _
  | call hbefore hx ih =>
      exact ((hx.proceeds hkept (hbefore.sound hkept)).moves hids).induct
        (fun _ _ hstep hlabelled => hlabelled.step hstep) ih
  | store _ _ ih => exact ih.step (.store _)

end Graph

/-- The store in memory keeps identifiers. -/
theorem MemoryStore.keepsIds : RecordStore.KeepsIds MemoryStore.Filed := by
  intro r s stored _ hsaved
  have hrun : MemoryStore.save r s = (.ok stored, (MemoryStore.save r s).2) := Prod.ext hsaved rfl
  obtain ⟨id, rfl, hid, -⟩ := MemoryStore.save_eq hrun
  exact ⟨fun own hown => (hid own hown).symm ▸ rfl, rfl⟩

/-- Whatever was forged, loaded, put and saved over a store in memory, two models of one session
and one entity type that have one key are the same model or wrap the same stored record; and a
model that is put to a collection leaves every member in its place, or takes the place of such a
one. It is otherwise only where the identifier of one of the two is spelled like a placeholder
that the session has given out as the key of the other. -/
theorem keys_identify {g : Graph MemoryStore} (hg : Graph.Reachable MemoryStore.Filed g) :
    (∀ m n, g.HasModel m → g.HasModel n → (g.model m).session = (g.model n).session →
      (g.model m).record.entityType = (g.model n).record.entityType →
      (g.model m).key = (g.model n).key →
        m = n ∨ g.SameRecord m n ∨ g.Clashes m n ∨ g.Clashes n m) ∧
    ∀ c m g', g.HasCollection c → g.HasModel m → Returns (c.put m) g () g' →
      ∀ key x, (g.collection c).members.get? key = some x →
        (g'.collection c).members.get? key = some x ∨
        (g'.collection c).members.get? key = some m ∧
          ((g.model x).session = (g.model m).session → g.Typed x → g.Typed m →
            x = m ∨ g.SameRecord x m ∨ g.Clashes x m ∨ g.Clashes m x) := by
  have hlabelled := hg.labelled MemoryStore.keeps_filed MemoryStore.keepsIds
  have hwellFormed := (hg.sound MemoryStore.keeps_filed).wellFormed
  exact ⟨fun _ _ hm hn => hlabelled.eq_or_sameRecord_or_clashes hm hn,
    fun _ _ _ hc hm hput _ _ => hlabelled.of_put hwellFormed hc hm hput⟩

namespace Library

/-- The library with an author that is stored like the first placeholder of the session. -/
def crowded : Graph MemoryStore :=
  let stored := (store.seed ((Record.new "node" "author").withId "PLH1")).2
  (Session.start ⟨"PLH", .and, none, false⟩ (Graph.new stored (registry [author, article]))).2

/-- Some author forged from the store, and put to a collection of authors. -/
def onShelf (id : String) : Graph MemoryStore :=
  let g := (Model.forgeById session "author" id crowded).2
  let g := (Collection.forModelType session "author" g).2
  (Collection.put ⟨0⟩ ⟨0⟩ g).2

theorem reachable_onShelf {id : String}
    (hm : (Collection.forModelType session "author"
      (Model.forgeById session "author" id crowded).2).2.HasModel ⟨0⟩)
    (hc : (Collection.forModelType session "author"
      (Model.forgeById session "author" id crowded).2).2.HasCollection ⟨0⟩) :
    Graph.Reachable MemoryStore.Filed (onShelf id) := by
  have htypes : ∀ t ∈ [author, article], t.WellFormed := by
    simp [wellFormed_author, wellFormed_article]
  exact .call (.call (.call (.call (.new (filed_store.seed _) (wellFormed_registry htypes))
    (.start _)) (.forgeById _ _ _)) (.ofType _ _)) (.put hc hm)

/-- The graph after one more model was made of a stored author. -/
def twice : Graph MemoryStore := (Model.forgeById session "author" "ann" (onShelf "ann")).2

theorem reachable_twice : Graph.Reachable MemoryStore.Filed twice :=
  .call (reachable_onShelf (by decide +kernel) (by decide +kernel)) (.forgeById _ _ _)

/-- Two models of a stored author have one key, and one takes the place of the other. -/
theorem twice_one_author : Graph.Reachable MemoryStore.Filed twice ∧
    twice.SameRecord ⟨0⟩ ⟨1⟩ ∧
    ((Collection.put ⟨0⟩ ⟨1⟩ twice).2.collection ⟨0⟩).members.get? "ann" = some ⟨1⟩ := by
  have hkeys := keys_identify reachable_twice
  have hnone : ∀ key, ¬twice.GaveOut session key := by
    rintro key ⟨n, hpos, hle, -⟩
    have hcount : (twice.session session).placeholders = 0 := by decide +kernel
    omega
  refine ⟨reachable_twice, ?_, ?_⟩
  · rcases hkeys.1 ⟨0⟩ ⟨1⟩ (by decide +kernel) (by decide +kernel) (by decide +kernel)
      (by decide +kernel) (by decide +kernel) with hsame | hsame | ⟨-, hgave⟩ | ⟨-, hgave⟩
    · cases hsame
    · exact hsame
    · exact absurd hgave (hnone _)
    · exact absurd hgave (hnone _)
  · rcases hkeys.2 ⟨0⟩ ⟨1⟩ _ (by decide +kernel) (by decide +kernel)
      (returns_of_isOk (by decide +kernel) ()) "ann" ⟨0⟩ (by decide +kernel) with hold | ⟨hnew, -⟩
    · exact absurd hold (by decide +kernel)
    · exact hnew

/-- The graph after the author that is stored like a placeholder was put to the collection, and
an unsaved one was made. -/
def clashing : Graph MemoryStore := (Model.forgeNew session "author" (onShelf "PLH1")).2

theorem reachable_clashing : Graph.Reachable MemoryStore.Filed clashing :=
  .call (reachable_onShelf (by decide +kernel) (by decide +kernel)) (.forgeNew _ _)

/-- An identifier may be spelled like a placeholder. Then a stored author and an unsaved one of
one session have one key, and the unsaved one drives the stored one out of the collection. -/
theorem clashing_one_key : Graph.Reachable MemoryStore.Filed clashing ∧
    clashing.HasModel ⟨0⟩ ∧ clashing.HasModel ⟨1⟩ ∧
    (clashing.model ⟨0⟩).session = (clashing.model ⟨1⟩).session ∧
    (clashing.model ⟨0⟩).record.entityType = (clashing.model ⟨1⟩).record.entityType ∧
    (clashing.model ⟨0⟩).key = (clashing.model ⟨1⟩).key ∧
    ¬(clashing.SameRecord ⟨0⟩ ⟨1⟩ ∨ (⟨0⟩ : Model) = ⟨1⟩) ∧
    (clashing.collection ⟨0⟩).members.entries = [("PLH1", ⟨0⟩)] ∧
    (Collection.put ⟨0⟩ ⟨1⟩ clashing).1.toOption = some () ∧
    ((Collection.put ⟨0⟩ ⟨1⟩ clashing).2.collection ⟨0⟩).members.entries = [("PLH1", ⟨1⟩)] := by
  refine ⟨reachable_clashing, ?_⟩
  decide +kernel

end Library

end RecordGraph
