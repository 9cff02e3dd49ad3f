/-
# What a deletion removes

The records that hang below the one of a model, at any distance, are removed with it, each
before the record on which it hangs. A deletion comes to an end exactly where nothing that hangs
below the record hangs below itself. It looks up what hangs along one relationship once, before
it deletes any of it, so that a record which hangs along the relationship and below another one
that does may be deleted with that one, and then again.
-/
import RecordGraph.Proofs.CheckedRegistries
import RecordGraph.Proofs.Deleting.Depths
import RecordGraph.Proofs.Fetching.Transparency

namespace RecordGraph

open Relation

/-! ## Conditions that can be decided -/

namespace Registry

variable {registry : Registry} {t : ModelType}

/-- The registered types, each with its name. -/
theorem get_name_iff : registry.get t.name = .ok t ↔ (t.name, t) ∈ registry.types.entries :=
  get_eq_ok.trans OrderedMap.get?_eq_some_iff

instance (registry : Registry) : Decidable registry.CascadesStepwise :=
  decidable_of_iff (∀ e ∈ registry.types.entries, e.1 = e.2.name →
      ∀ name ∈ e.2.cascades, pathSteps name = [name]) <| by
    constructor
    · exact fun h t ht => h (t.name, t) (get_name_iff.mp ht) rfl
    · rintro h ⟨typeName, t⟩ he (rfl : typeName = t.name)
      exact h t (get_name_iff.mpr he)

end Registry

instance (s : MemoryStore) (registry : Registry) : Decidable (s.TellsTypesApart registry) :=
  decidable_of_iff (∀ e ∈ registry.types.entries, e.1 = e.2.name →
      ∀ f ∈ registry.types.entries, f.1 = f.2.name → e.2.entityType = f.2.entityType →
      ∀ r ∈ (s.recordsOf e.2.entityType).values,
        (Condition.eq bundleField (.text e.2.bundle)).holds r = true →
        (Condition.eq bundleField (.text f.2.bundle)).holds r = true → e.1 = f.1) <| by
    constructor
    · rintro h ⟨t, entityType, id⟩ ⟨u, otherEntityType, otherId⟩ r hx hy hkey
      obtain ⟨rfl, rfl⟩ := Prod.mk.injEq .. ▸ hkey
      obtain rfl : entityType = t.entityType := hx.entityType
      have hname : t.name = u.name := h (t.name, t) (Registry.get_name_iff.mp hx.registered) rfl
        (u.name, u) (Registry.get_name_iff.mp hy.registered) rfl hy.entityType r
        (OrderedMap.mem_values_iff.mpr ⟨id, hx.stored⟩) hx.bundle hy.bundle
      obtain rfl : t = u := Except.ok.inj (hx.registered.symm.trans (hname ▸ hy.registered))
      rfl
    · rintro h ⟨name, t⟩ ht (rfl : name = t.name) ⟨other, u⟩ hu (rfl : other = u.name) hentity r hr
        hbundle hotherBundle
      obtain ⟨id, hid⟩ := OrderedMap.mem_values_iff.mp hr
      have hsame : (⟨t, t.entityType, id⟩ : Node) = ⟨u, t.entityType, id⟩ := h _ _ r
        ⟨rfl, Registry.get_name_iff.mpr ht, hid, hbundle⟩
        ⟨hentity, Registry.get_name_iff.mpr hu, hid, hotherBundle⟩ rfl
      exact congrArg (fun x => x.type.name) hsame

/-! ## Types told apart by their bundles -/

/-- A text that spells no number is equal to no other text. -/
theorem Value.eq_of_looselyEqual {s t : String} (ht : (Value.text t).asNumber? = none)
    (h : Value.looselyEqual (.text s) (.text t) = true) : s = t := by
  rw [looselyEqual, Bool.or_eq_true] at h
  rcases h with hsame | horder
  · simpa [same] using hsame
  · unfold compare? at horder
    rw [ht] at horder
    cases (Value.text s).asNumber? <;> simpa using horder

theorem Condition.eq_of_holds_bundle {bundle : String} {r : Record}
    (hbundle : (Value.text bundle).asNumber? = none)
    (h : (Condition.eq bundleField (.text bundle)).holds r = true) : r.bundle = bundle := by
  refine Value.eq_of_looselyEqual hbundle ?_
  simpa [holds, eq, new, valuesAt_bundleField, Operator.holdsOf] using h

/-- With a registry that was built, stored records pass for nodes of one type only, unless the
bundles of its types spell numbers, which conditions compare as such. -/
theorem MemoryStore.tellsTypesApart_of_build {types : List ModelType} {registry : Registry}
    (h : Registry.build types = .ok registry)
    (hbundles : ∀ t ∈ registry.types.values, (Value.text t.bundle).asNumber? = none)
    (s : MemoryStore) : s.TellsTypesApart registry := by
  rintro ⟨t, entityType, id⟩ ⟨u, otherEntityType, otherId⟩ r hx hy hkey
  obtain ⟨rfl, rfl⟩ := Prod.mk.injEq .. ▸ hkey
  have ht := Registry.mem_values_of_get hx.registered
  have hu := Registry.mem_values_of_get hy.registered
  obtain rfl : t = u := by
    refine (Registry.checked_of_build h).bundles t ht u hu (hx.entityType.symm.trans hy.entityType) ?_
    exact (Condition.eq_of_holds_bundle (hbundles t ht) hx.bundle).symm.trans
      (Condition.eq_of_holds_bundle (hbundles u hu) hy.bundle)
  rfl

/-! ## Deletions -/

/-- Where foreign keys are texts, the far records that hang on one are those whose key has its
identifier. -/
theorem Node.hangsAlong_iff_of_texts {registry : Registry} {s : MemoryStore} {x y : Node}
    {name : String} (htexts : ∀ resolved, registry.resolve x.type.name name = .ok resolved →
      ∀ r, y.Stands registry s r → ∀ v ∈ r.valuesAt resolved.foreignKey.path, v.IsText) :
    HangsAlong registry s name x y ↔
      ∃ resolved r, registry.resolve x.type.name name = .ok resolved ∧
        resolved.farTypes = [y.type.name] ∧ y.Stands registry s r ∧
        x.id ∈ r.referenceIds resolved.foreignKey.field resolved.foreignKey.column := by
  constructor
  · rintro ⟨resolved, r, hresolved, hfar, hy, -, hid⟩
    exact ⟨resolved, r, hresolved, hfar, hy, hid⟩
  · rintro ⟨resolved, r, hresolved, hfar, hy, hid⟩
    refine ⟨resolved, r, hresolved, hfar, hy, ?_, hid⟩
    exact Condition.holds_inList_of_mem
      (Record.text_mem_of_mem_referenceIds (htexts resolved hresolved r hy) hid)
      (List.mem_singleton.mpr rfl)

/-- A record that is stored passes for a node of a registered type. -/
theorem Node.exists_stands_of_any {registry : Registry} {s : MemoryStore} {x : Node}
    (hentity : x.entityType = x.type.entityType) (htype : registry.get x.type.name = .ok x.type)
    {p : Record → Bool} (hrecord : ((s.recordsOf x.entityType).get? x.id).any (fun r =>
      (Condition.eq bundleField (.text x.type.bundle)).holds r && p r) = true) :
    ∃ r, x.Stands registry s r ∧ p r = true := by
  cases hstored : (s.recordsOf x.entityType).get? x.id with
  | none => simp [hstored] at hrecord
  | some r =>
      rw [hstored, Option.any_some, Bool.and_eq_true] at hrecord
      exact ⟨r, ⟨hentity, htype, hstored, hrecord.1⟩, hrecord.2⟩

/-- A record that is stored hangs on another one. -/
theorem Node.hangs_of_any {registry : Registry} {s : MemoryStore} {x y : Node} (name : String)
    {resolved : Resolved} (hname : name ∈ x.type.cascades)
    (hresolved : registry.resolve x.type.name name = .ok resolved)
    (hfar : resolved.farTypes = [y.type.name]) (hentity : y.entityType = y.type.entityType)
    (htype : registry.get y.type.name = .ok y.type)
    (hrecord : ((s.recordsOf y.entityType).get? y.id).any (fun r =>
      (Condition.eq bundleField (.text y.type.bundle)).holds r &&
        (((Condition.inList resolved.foreignKey.path []).required.withValue
            (Value.texts [x.id])).holds r &&
          decide (x.id ∈ r.referenceIds resolved.foreignKey.field resolved.foreignKey.column)))
      = true) : Hangs registry s x y := by
  obtain ⟨r, hy, hboth⟩ := exists_stands_of_any hentity htype hrecord
  rw [Bool.and_eq_true, decide_eq_true_eq] at hboth
  exact ⟨name, hname, resolved, r, hresolved, hfar, hy, hboth.1, hboth.2⟩

/-- What hangs on a record has nothing hanging on it if no far type cascades. -/
theorem Node.branches_of_leaves {registry : Registry} {x : Node}
    (hleaves : ∀ name ∈ x.type.cascades, ∀ resolved,
      registry.resolve x.type.name name = .ok resolved → ∀ far ∈ resolved.farTypes, ∀ t,
        registry.get far = .ok t → t.cascades = []) (s : MemoryStore) :
    Branches registry s x := by
  have hnone : ∀ y, Hangs registry s x y → ∀ z, ¬ Hangs registry s y z := by
    rintro y ⟨name, hname, resolved, r, hresolved, hfar, hy, -⟩ z ⟨other, hother, -⟩
    rw [hleaves name hname resolved hresolved y.type.name (by simp [hfar]) y.type hy.registered]
      at hother
    cases hother
  intro y hy name hname a b ha _ hbelow
  obtain ⟨c, hc, -⟩ := TransGen.head'_iff.mp hbelow
  rcases ReflTransGen.cases_head hy with rfl | ⟨z, hz, hback⟩
  · exact hnone a ⟨name, hname, ha⟩ c hc
  · rcases ReflTransGen.cases_head hback with rfl | ⟨w, hw, -⟩
    · exact hnone z hz a ⟨name, hname, ha⟩
    · exact hnone z hz w hw

namespace Model

variable {g : Graph MemoryStore} {m : Model}

/-- A deletion that answers, however deep it may go, has gone round in no circle. -/
theorem not_below_self_of_returns {depth : Nat} {g' : Graph MemoryStore} (hg : g.WellFormed)
    (hfiled : g.store.Filed) (hm : g.HasModel m) (hstored : (g.model m).record.isNew = false)
    (hsteps : g.registry.CascadesStepwise) (happart : g.store.TellsTypesApart g.registry)
    (h : Returns (m.deleteWithin depth) g () g') {y : Node}
    (hy : Node.Below g.registry g.store (g.node m) y) : ¬ Node.Below g.registry g.store y y := by
  cases erasesAll_deleteWithin depth g g' m hg hfiled hm h with
  | unsaved hnew => simp [hnew] at hstored
  | stored _ _ hnoted =>
      refine (hnoted.inOrder hsteps).not_below_self happart (fun _ hz => hz.stands) hy.stands ?_
      exact (hnoted.mem_iff hsteps happart (hg.typed m hm)).mpr ⟨y, hy, rfl⟩

end Model

open Model in
/-- Deleting a stored model ends if nothing that hangs below its record hangs below itself: what
stood at the bottom would make no difference. It ends only then. A deletion that answers removes
the record and those that hang below it, and no others, and each of them before the records on
which it hangs. None is deleted twice unless, of the records that hang along one relationship on
one record, one hangs below another. -/
theorem delete_removes_descendants {g : Graph MemoryStore} {m : Model} (hg : g.WellFormed)
    (hfiled : g.store.Filed) (hm : g.HasModel m) (hstored : (g.model m).record.isNew = false)
    (hsteps : g.registry.CascadesStepwise) (happart : g.store.TellsTypesApart g.registry) :
    ((∀ y, Node.Below g.registry g.store (g.node m) y → ¬ Node.Below g.registry g.store y y) →
      ∀ bottom, deleteDownTo bottom (g.store.total + 2) m g = m.delete g) ∧
    (∀ depth g', Returns (m.deleteWithin depth) g () g' →
      ∀ y, Node.Below g.registry g.store (g.node m) y → ¬ Node.Below g.registry g.store y y) ∧
    ∀ g', Returns m.delete g () g' → ∃ log, g.store.Takes (log ++ [(g.node m).key]) g'.store ∧
      (∀ k, k ∈ log ↔ ∃ y, Node.Below g.registry g.store (g.node m) y ∧ y.key = k) ∧
      (∀ y z, Node.Below g.registry g.store (g.node m) y → Node.Hangs g.registry g.store y z →
        ∀ before after, log = before ++ y.key :: after → z.key ∈ before) ∧
      (Node.Branches g.registry g.store (g.node m) → log.Nodup) ∧
      ((∃ r, (g.node m).Stands g.registry g.store r) → (g.node m).key ∉ log) := by
  refine ⟨fun hacyclic bottom => deleteDownTo_eq_delete bottom hsteps happart hg hfiled hm
    hacyclic, fun depth g' h y hy => not_below_self_of_returns hg hfiled hm hstored hsteps happart
      h hy, fun g' h => ?_⟩
  cases erasesAll_delete g g' m hg hfiled hm h with
  | unsaved hnew => simp [hnew] at hstored
  | @stored _ log _ hdeletes hnoted =>
      have hmem := fun k => hnoted.mem_iff (k := k) hsteps happart (hg.typed m hm)
      have horder := hnoted.inOrder hsteps
      refine ⟨log, hdeletes.takes, hmem, fun y z hy hz before after hlog => ?_,
        hnoted.nodup hsteps happart, hnoted.key_not_mem hsteps happart⟩
      exact horder.before happart (fun _ hw => hw.stands) hlog hy.stands hz

namespace Library

/-- What the store answers during a deletion can be evaluated. -/
theorem delete_brief (m : Model) :
    m.delete = @Model.delete MemoryStore MemoryStore.brief m := by
  rw [MemoryStore.brief_eq]

/-- The graph of a store in which one record is wrapped. -/
def opening (types : List ModelType) (rs : List Record) (typeName id : String) :
    Graph MemoryStore :=
  (Model.forgeById session typeName id
    (Session.start Config.standard (Graph.new (filled rs) (registry types))).2).2

theorem reachable_opening {types : List ModelType} (htypes : ∀ t ∈ types, t.WellFormed)
    (rs : List Record) (typeName id : String) :
    Graph.Reachable MemoryStore.Filed (opening types rs typeName id) :=
  .call (.call (.new (filed_filled _) (wellFormed_registry htypes)) (.start _)) (.forgeById _ _ _)

/-- A binder, with which its sheets go. -/
def binder : ModelType := (ModelType.new "binder" "node" "binder").declare
  ((Relationship.referenced "sheets" "sheet" "binder").cascading true)

/-- A sheet, which has no parts. -/
def sheet : ModelType := (ModelType.new "sheet" "node" "sheet").declare
  (.field "binder" "part_of" "binder")

theorem wellFormed_binding : ∀ t ∈ [binder, sheet], t.WellFormed := by
  simp [binder, sheet, (ModelType.wellFormed_new _ _ _).declare]

/-- A sheet or a page as it is stored. -/
def bound (bundle id : String) (wholes : List String) (c : Cardinality) : Record :=
  ((Record.new "node" bundle).withId id).setReferenceIds "part_of" "target_id" wholes c

/-- A binder with two sheets, beside a sheet of another one. -/
def minutes : Graph MemoryStore :=
  opening [binder, sheet] [bound "binder" "minutes" [] .single,
    bound "sheet" "first" ["minutes"] .single, bound "sheet" "second" ["minutes"] .single,
    bound "sheet" "stray" ["accounts"] .single] "binder" "minutes"

/-- No sheet of the binder hangs below another one. -/
theorem branches_minutes :
    Node.Branches minutes.registry minutes.store (minutes.node ⟨0⟩) := by
  refine Node.branches_of_leaves ?_ _
  have hnames : (minutes.node ⟨0⟩).type.cascades = ["sheets"] := by decide +kernel
  have hresolved := eq_ok_of_isOk (x := minutes.registry.resolve (minutes.node ⟨0⟩).type.name
    "sheets") (by decide +kernel) default
  have hfars : ((minutes.registry.resolve (minutes.node ⟨0⟩).type.name
    "sheets").toOption.getD default).farTypes = ["sheet"] := by decide +kernel
  have hsheet := eq_ok_of_isOk (x := minutes.registry.get "sheet") (by decide +kernel) default
  rintro name hname resolved hresolve far hfar t ht
  rw [hnames, List.mem_singleton] at hname
  subst hname
  obtain rfl := Except.ok.inj (hresolve.symm.trans hresolved)
  rw [hfars, List.mem_singleton] at hfar
  subst hfar
  obtain rfl := Except.ok.inj (ht.symm.trans hsheet)
  decide +kernel

/-- The graph after the binder was deleted. -/
def shredded : Graph MemoryStore := (Model.delete ⟨0⟩ minutes).2

/-- The binder goes with its sheets, each once, and comes to an end with it. -/
theorem shredded_minutes :
    Returns (Model.delete ⟨0⟩) minutes () shredded ∧
      (∀ bottom, Model.deleteDownTo bottom (minutes.store.total + 2) ⟨0⟩ minutes =
        Model.delete ⟨0⟩ minutes) ∧
      ∃ log, minutes.store.Takes (log ++ [("node", "minutes")]) shredded.store ∧
        (∀ k, k ∈ log ↔ ∃ y, Node.Below minutes.registry minutes.store (minutes.node ⟨0⟩) y ∧
          y.key = k) ∧ (log ++ [("node", "minutes")]).Nodup := by
  have hsound : Graph.Sound MemoryStore.Filed minutes :=
    (reachable_opening wellFormed_binding _ _ _).sound MemoryStore.keeps_filed
  have hm : minutes.HasModel ⟨0⟩ := by decide +kernel
  have hdelete : Returns (Model.delete ⟨0⟩) minutes () shredded := by
    refine returns_of_fst_eq_ok ?_
    rw [delete_brief]
    decide +kernel
  have hkey : (minutes.node ⟨0⟩).key = ("node", "minutes") := by decide +kernel
  have hstands : ∃ r, (minutes.node ⟨0⟩).Stands minutes.registry minutes.store r := by
    obtain ⟨r, hstands, -⟩ := Node.exists_stands_of_any (s := minutes.store)
      (x := minutes.node ⟨0⟩) (p := fun _ => true) (by decide +kernel)
      (hsound.wellFormed.typed ⟨0⟩ hm) (by decide +kernel)
    exact ⟨r, hstands⟩
  obtain ⟨hends, hcircles, hremoves⟩ := delete_removes_descendants hsound.wellFormed hsound.store
    hm (by decide +kernel) (by decide +kernel) (by decide +kernel)
  obtain ⟨log, htakes, hmem, -, honce, hlast⟩ := hremoves shredded hdelete
  rw [hkey] at htakes hlast
  refine ⟨hdelete, hends (hcircles _ _ (Model.returns_delete_iff.mp hdelete)), log, htakes, hmem,
    ?_⟩
  refine List.nodup_append.mpr ⟨honce branches_minutes, by simp, ?_⟩
  rintro k hk _ hkey' rfl
  rw [List.mem_singleton.mp hkey'] at hk
  exact hlast hstands hk

/-- A page, which may be part of several pages; its own parts go with it. -/
def page : ModelType :=
  ((ModelType.new "page" "node" "page").declare
    ((Relationship.field "wholes" "part_of" "page").withCardinality .multiple)).declare
    ((Relationship.referenced "parts" "page" "wholes").cascading true)

/-- A page, with which go the pages of a relationship whose name reads as a path. -/
def folder : ModelType :=
  (((ModelType.new "page" "node" "page").declare
    ((Relationship.field "wholes" "part_of" "page").withCardinality .multiple)).declare
    (Relationship.referenced "parts" "page" "wholes")).declare
    ((Relationship.referenced "parts.parts" "page" "wholes").cascading true)

/-- A book with a chapter, and with a note that is part of both. -/
def book : Graph MemoryStore :=
  opening [page] [bound "page" "book" [] .multiple, bound "page" "chapter" ["book"] .multiple,
    bound "page" "note" ["book", "chapter"] .multiple] "page" "book"

/-- A page that is part of itself. -/
def loop : Graph MemoryStore :=
  opening [page] [bound "page" "loop" ["loop"] .multiple] "page" "loop"

/-- A page with a part, along the relationship whose name reads as a path. -/
def folded : Graph MemoryStore :=
  opening [folder] [bound "page" "book" [] .multiple, bound "page" "note" ["book"] .multiple] "page"
    "book"

/-- A tray, with which go its slips and its folders. -/
def tray : ModelType := ((ModelType.new "tray" "node" "tray").declare
  ((Relationship.referenced "slips" "slip" "tray").cascading true)).declare
  ((Relationship.referenced "dossiers" "dossier" "tray").cascading true)

/-- A slip, whose bundle spells a number. -/
def slip : ModelType := (ModelType.new "slip" "node" "1").declare
  (.field "tray" "part_of" "tray")

/-- A dossier, whose bundle spells the same number; its memos go with it. -/
def dossier : ModelType := ((ModelType.new "dossier" "node" "01").declare
  (.field "tray" "part_of" "tray")).declare
  ((Relationship.referenced "memos" "memo" "dossier").cascading true)

/-- A memo, which has no parts. -/
def memo : ModelType := (ModelType.new "memo" "node" "memo").declare
  (.field "dossier" "part_of" "dossier")

/-- A tray with a record that passes for a slip and for a dossier, and a memo of the latter. -/
def mixed : Graph MemoryStore :=
  opening [tray, slip, dossier, memo] [bound "tray" "tray" [] .single,
    bound "1" "both" ["tray"] .single, bound "memo" "memo" ["both"] .single] "tray" "tray"

/-- All relationships of the first model resolve. -/
def Resolves (g : Graph MemoryStore) : Prop :=
  ∀ name ∈ (g.model ⟨0⟩).modelType.relationships.keys,
    (g.registry.resolve (g.model ⟨0⟩).modelType.name name).isOk = true

instance (g : Graph MemoryStore) : Decidable (Resolves g) :=
  inferInstanceAs (Decidable (∀ name ∈ (g.model ⟨0⟩).modelType.relationships.keys,
    (g.registry.resolve (g.model ⟨0⟩).modelType.name name).isOk = true))

theorem wellFormed_page : page.WellFormed := ((ModelType.wellFormed_new _ _ _).declare _).declare _

theorem wellFormed_folder : folder.WellFormed :=
  (((ModelType.wellFormed_new _ _ _).declare _).declare _).declare _

theorem reachable_book : Graph.Reachable MemoryStore.Filed book :=
  reachable_opening (by simpa using wellFormed_page) _ _ _

theorem reachable_loop : Graph.Reachable MemoryStore.Filed loop :=
  reachable_opening (by simpa using wellFormed_page) _ _ _

theorem reachable_folded : Graph.Reachable MemoryStore.Filed folded :=
  reachable_opening (by simpa using wellFormed_folder) _ _ _

theorem reachable_mixed : Graph.Reachable MemoryStore.Filed mixed := by
  refine reachable_opening ?_ _ _ _
  simp [tray, slip, dossier, memo, (ModelType.wellFormed_new _ _ _).declare,
    ((ModelType.wellFormed_new _ _ _).declare _).declare]

/-- The memo hangs below the tray. -/
theorem memo_below_tray : ∃ y, Node.Below mixed.registry mixed.store (mixed.node ⟨0⟩) y ∧
    y.key = ("node", "memo") := by
  have htypes : ∀ name ∈ ["dossier", "memo"],
      ((mixed.registry.get name).toOption.getD default).name = name ∧
        (mixed.registry.get name).isOk = true := by decide +kernel
  have hget : ∀ name ∈ ["dossier", "memo"], mixed.registry.get
      ((mixed.registry.get name).toOption.getD default).name =
        .ok ((mixed.registry.get name).toOption.getD default) := by
    intro name hname
    obtain ⟨hsame, hok⟩ := htypes name hname
    rw [hsame]
    exact eq_ok_of_isOk hok default
  have hfirst : Node.Hangs mixed.registry mixed.store (mixed.node ⟨0⟩)
      ⟨(mixed.registry.get "dossier").toOption.getD default, "node", "both"⟩ :=
    Node.hangs_of_any "dossiers" (by decide +kernel) (eq_ok_of_isOk (by decide +kernel) default)
      (by decide +kernel) (by decide +kernel) (hget "dossier" (by simp)) (by decide +kernel)
  have hsecond : Node.Hangs mixed.registry mixed.store
      ⟨(mixed.registry.get "dossier").toOption.getD default, "node", "both"⟩
      ⟨(mixed.registry.get "memo").toOption.getD default, "node", "memo"⟩ :=
    Node.hangs_of_any "memos" (by decide +kernel) (eq_ok_of_isOk (by decide +kernel) default)
      (by decide +kernel) (by decide +kernel) (hget "memo" (by simp)) (by decide +kernel)
  exact ⟨_, .tail (.single hfirst) hsecond, rfl⟩

/-- A page that is part of itself is never deleted, however deep the deletion may go. -/
theorem loop_not_deleted (depth : Nat) (g' : Graph MemoryStore) :
    ¬ Returns (Model.deleteWithin depth ⟨0⟩) loop () g' := by
  intro h
  have hsound := reachable_loop.sound MemoryStore.keeps_filed
  have hm : loop.HasModel ⟨0⟩ := by decide +kernel
  have hhangs : Node.Hangs loop.registry loop.store (loop.node ⟨0⟩) (loop.node ⟨0⟩) :=
    Node.hangs_of_any "parts" (by decide +kernel)
      (eq_ok_of_isOk (by decide +kernel) default) (by decide +kernel) (by decide +kernel)
      (hsound.wellFormed.typed ⟨0⟩ hm) (by decide +kernel)
  exact Model.not_below_self_of_returns hsound.wellFormed hsound.store hm (by decide +kernel)
    (by decide +kernel) (by decide +kernel) h (.single hhangs) (.single hhangs)

/-- The graph after the book was deleted. -/
def torn : Graph MemoryStore := (Model.delete ⟨0⟩ book).2

/-- The graph after the page was deleted whose relationship reads as a path. -/
def refolded : Graph MemoryStore := (Model.delete ⟨0⟩ folded).2

/-- The graph after the tray was deleted. -/
def emptied : Graph MemoryStore := (Model.delete ⟨0⟩ mixed).2

/-- A note that hangs on a book and on a chapter of it is deleted with the chapter, and then
again. A page that is part of itself is never deleted. A relationship whose name reads as a path
is not followed, so that what hangs along it stays. And a record that passes for two types is
deleted as of the first one, so that what hangs on it as of the other one stays. -/
theorem book_not_deleted_once :
    (Graph.Reachable MemoryStore.Filed book ∧ Resolves book ∧
      Returns (Model.delete ⟨0⟩) book () torn ∧ torn.store.deleted =
        [("node", "note"), ("node", "chapter"), ("node", "note"), ("node", "book")]) ∧
    (Graph.Reachable MemoryStore.Filed loop ∧ Resolves loop ∧
      (∀ depth g', ¬ Returns (Model.deleteWithin depth ⟨0⟩) loop () g') ∧
      (Model.delete ⟨0⟩ loop).1 = .error (.endlessCascade "loop")) ∧
    (Graph.Reachable MemoryStore.Filed folded ∧ Resolves folded ∧
      Returns (Model.delete ⟨0⟩) folded () refolded ∧
      refolded.store.deleted = [("node", "book")] ∧
      ∃ y, Node.Below folded.registry folded.store (folded.node ⟨0⟩) y ∧
        y.key = ("node", "note")) ∧
    (Graph.Reachable MemoryStore.Filed mixed ∧ Resolves mixed ∧
      Returns (Model.delete ⟨0⟩) mixed () emptied ∧
      emptied.store.deleted = [("node", "both"), ("node", "tray")] ∧
      ∃ y, Node.Below mixed.registry mixed.store (mixed.node ⟨0⟩) y ∧
        y.key = ("node", "memo")) := by
  have hbelow : Node.Hangs folded.registry folded.store (folded.node ⟨0⟩)
      ⟨(folded.node ⟨0⟩).type, "node", "note"⟩ :=
    Node.hangs_of_any "parts.parts" (by decide +kernel)
      (eq_ok_of_isOk (by decide +kernel) default) (by decide +kernel) (by decide +kernel)
      ((reachable_folded.sound MemoryStore.keeps_filed).wellFormed.typed ⟨0⟩ (by decide +kernel))
      (by decide +kernel)
  refine ⟨⟨reachable_book, by decide +kernel, returns_of_fst_eq_ok ?_, ?_⟩,
    ⟨reachable_loop, by decide +kernel, loop_not_deleted, ?_⟩,
    ⟨reachable_folded, by decide +kernel, returns_of_fst_eq_ok ?_, ?_, _, .single hbelow, rfl⟩,
    reachable_mixed, by decide +kernel, returns_of_fst_eq_ok ?_, ?_, memo_below_tray⟩
  · rw [delete_brief]
    decide +kernel
  · rw [torn, delete_brief]
    decide +kernel
  · rw [delete_brief]
    decide +kernel
  · rw [delete_brief]
    decide +kernel
  · rw [refolded, delete_brief]
    decide +kernel
  · rw [delete_brief]
    decide +kernel
  · rw [emptied, delete_brief]
    decide +kernel

end Library

end RecordGraph
