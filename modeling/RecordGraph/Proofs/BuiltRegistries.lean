/-
# Which registries are built

Types are registered one after the other, each against those before it, and only then is it
checked where their relationships point. So the order in which types are given plays no part:
what has to hold is said of all of them together. A registry that is built files the given
types and no others, both by name and by bundle.
-/
import RecordGraph.Proofs.Registries

namespace RecordGraph.Registry

variable {g g' : Registry} {types : List ModelType} {t : ModelType} {r : Relationship}

/-! ## What types need to make a registry -/

/-- The records that a type describes, by entity type and bundle. -/
def bundleKey (t : ModelType) : String × String := (t.entityType, t.bundle)

/-- Neither a name nor a bundle is taken by two of the types. -/
structure Distinct (types : List ModelType) : Prop where
  names : (types.map (·.name)).Nodup
  bundles : (types.map bundleKey).Nodup

/-- A relationship of a type points where it may, among some types. -/
structure Points (types : List ModelType) (t : ModelType) (r : Relationship) : Prop where
  /-- Every target is one of the types. -/
  known : ∀ target ∈ r.targets, ∃ far ∈ types, far.name = target
  /-- Types to choose from share an entity type. -/
  together : r.isPolymorphic = true → ∀ far ∈ types, ∀ other ∈ types, far.name ∈ r.targets →
    other.name ∈ r.targets → far.entityType = other.entityType
  /-- A relationship of a tree stays within the entity type. -/
  within : staysWithin r = true → ∀ far ∈ types, far.name ∈ r.targets →
    far.entityType = t.entityType

/-- Types that make a registry together. -/
structure Consistent (types : List ModelType) : Prop extends Distinct types where
  points : ∀ t ∈ types, ∀ r ∈ t.relationships.values, Points types t r

theorem Points.congr {types' : List ModelType} (h : Points types t r)
    (hsame : ∀ u, u ∈ types' ↔ u ∈ types) : Points types' t r := by
  obtain ⟨hknown, htogether, hwithin⟩ := h
  simp only [← hsame] at hknown htogether hwithin
  exact ⟨hknown, htogether, hwithin⟩

/-- The order of the types plays no part. -/
theorem Consistent.perm {types' : List ModelType} (h : Consistent types)
    (hperm : types.Perm types') : Consistent types' where
  names := (hperm.map _).nodup_iff.mp h.names
  bundles := (hperm.map _).nodup_iff.mp h.bundles
  points := by
    intro t ht r hr
    exact (h.points t (hperm.mem_iff.mpr ht) r hr).congr fun _ => hperm.mem_iff.symm

/-! ## Registries that list some types -/

/-- The registry files these types, each under its name, in this order. -/
def Lists (g : Registry) (types : List ModelType) : Prop :=
  g.types.entries = types.map fun t => (t.name, t)

theorem lists_empty : empty.Lists [] := rfl

namespace Lists

theorem unique (h : g.Lists types) (h' : g'.Lists types) : g = g' := by
  cases g
  cases g'
  exact congrArg Registry.mk (OrderedMap.ext (h.trans h'.symm))

theorem keys (h : g.Lists types) : g.types.keys = types.map (·.name) := by
  rw [OrderedMap.keys, h, List.map_map]
  rfl

theorem values (h : g.Lists types) : g.types.values = types := by
  rw [OrderedMap.values, h, List.map_map]
  exact List.map_id types

theorem get_iff (h : g.Lists types) {name : String} :
    g.get name = .ok t ↔ t ∈ types ∧ t.name = name := by
  rw [get_eq_ok, OrderedMap.get?_eq_some_iff, h, List.mem_map]
  constructor
  · rintro ⟨u, hu, hpair⟩
    obtain ⟨rfl, rfl⟩ := Prod.mk.inj hpair
    exact ⟨hu, rfl⟩
  · rintro ⟨ht, rfl⟩
    exact ⟨t, ht, rfl⟩

theorem typeForBundle?_eq_none (h : g.Lists types) {entityType bundle : String} :
    g.typeForBundle? entityType bundle = none ↔ (entityType, bundle) ∉ types.map bundleKey := by
  rw [typeForBundle?, h.values, List.find?_eq_none, List.mem_map]
  simp [ModelType.describes, bundleKey]

/-- Types of distinct bundles are found by their bundles, and nothing else is. -/
theorem typeForBundle?_iff (h : g.Lists types) (hbundles : (types.map bundleKey).Nodup)
    {entityType bundle : String} : g.typeForBundle? entityType bundle = some t ↔
      t ∈ types ∧ t.entityType = entityType ∧ t.bundle = bundle := by
  rw [typeForBundle?, h.values]
  constructor
  · intro hfound
    have hdescribes := List.find?_some hfound
    simp only [ModelType.describes, Bool.and_eq_true, decide_eq_true_eq] at hdescribes
    exact ⟨List.mem_of_find?_eq_some hfound, hdescribes⟩
  · rintro ⟨ht, rfl, rfl⟩
    cases hfound : types.find? (·.describes t.entityType t.bundle) with
    | none =>
        have hnot := List.find?_eq_none.mp hfound t ht
        simp [ModelType.describes] at hnot
    | some other =>
        have hdescribes := List.find?_some hfound
        simp only [ModelType.describes, Bool.and_eq_true, decide_eq_true_eq] at hdescribes
        have hsame : bundleKey other = bundleKey t := Prod.ext hdescribes.1 hdescribes.2
        rw [List.inj_on_of_nodup_map hbundles (List.mem_of_find?_eq_some hfound) ht hsame]

theorem contains_iff (h : g.Lists types) {name : String} :
    g.contains name = true ↔ name ∈ types.map (·.name) := by
  rw [← h.keys]
  exact OrderedMap.contains_iff_mem_keys _ _

theorem insert (h : g.Lists types) (hname : t.name ∉ types.map (·.name)) :
    Lists ⟨g.types.insert t.name t⟩ (types ++ [t]) := by
  rw [Lists, OrderedMap.entries_insert_of_not_mem (h.keys ▸ hname), h, List.map_append]
  rfl

/-- A registry takes one more type exactly if its name and its bundle are new. -/
theorem register_iff (h : g.Lists types) : (∃ g', g.register t = .ok g') ↔
    t.name ∉ types.map (·.name) ∧ bundleKey t ∉ types.map bundleKey := by
  have hbundle : g.typeForBundle? t.entityType t.bundle = none ↔ _ := h.typeForBundle?_eq_none
  rw [← h.contains_iff, bundleKey, ← hbundle]
  unfold register
  split
  · rename_i htaken
    simp [htaken]
  · rename_i hfree
    split
    · rename_i other hother
      simp [hother]
    · rename_i hnone
      simp [hfree, hnone]

theorem register (h : g.Lists types) (hregister : g.register t = .ok g') :
    g'.Lists (types ++ [t]) := by
  have hname := (h.register_iff.mp ⟨g', hregister⟩).1
  unfold Registry.register at hregister
  split at hregister
  · cases hregister
  · split at hregister
    · cases hregister
    · exact Except.ok.inj hregister ▸ h.insert hname

end Lists

theorem nodup_map_concat {α β : Type} {f : α → β} {xs : List α} {x : α} :
    ((xs ++ [x]).map f).Nodup ↔ (xs.map f).Nodup ∧ f x ∉ xs.map f := by
  rw [List.map_append, List.map_singleton, ← List.concat_eq_append, List.nodup_concat, and_comm]

namespace Distinct

theorem of_append {rest : List ModelType} (h : Distinct (types ++ rest)) : Distinct types :=
  ⟨(List.map_append ▸ h.names).of_append_left, (List.map_append ▸ h.bundles).of_append_left⟩

theorem concat_iff : Distinct (types ++ [t]) ↔ Distinct types ∧
    t.name ∉ types.map (·.name) ∧ bundleKey t ∉ types.map bundleKey := by
  constructor
  · rintro ⟨hnames, hbundles⟩
    rw [nodup_map_concat] at hnames hbundles
    exact ⟨⟨hnames.1, hbundles.1⟩, hnames.2, hbundles.2⟩
  · rintro ⟨⟨hnames, hbundles⟩, hname, hbundle⟩
    exact ⟨nodup_map_concat.mpr ⟨hnames, hname⟩, nodup_map_concat.mpr ⟨hbundles, hbundle⟩⟩

end Distinct

/-- A registry takes further types exactly if they are distinct from its own and from each
other; it then lists them after its own. -/
theorem foldlM_register_iff {rest : List ModelType} (h : g.Lists types)
    (hdistinct : Distinct types) : rest.foldlM register g = .ok g' ↔
      Distinct (types ++ rest) ∧ g'.Lists (types ++ rest) := by
  induction rest generalizing g types with
  | nil =>
      rw [List.append_nil, List.foldlM_nil, except_pure_eq_ok]
      constructor
      · rintro rfl
        exact ⟨hdistinct, h⟩
      · exact fun ⟨_, hlists⟩ => hlists.unique h
  | cons t rest ih =>
      rw [List.foldlM_cons, except_bind_eq_ok, List.append_cons]
      constructor
      · rintro ⟨between, hregister, hrest⟩
        have hnew := h.register_iff.mp ⟨between, hregister⟩
        exact (ih (h.register hregister) (Distinct.concat_iff.mpr ⟨hdistinct, hnew⟩)).mp hrest
      · rintro ⟨hall, hlists⟩
        have hnew := (Distinct.concat_iff.mp hall.of_append).2
        obtain ⟨between, hregister⟩ := h.register_iff.mpr hnew
        exact ⟨between, hregister, (ih (h.register hregister) hall.of_append).mpr ⟨hall, hlists⟩⟩

/-! ## Where relationships point -/

theorem exists_targetEntityTypes_iff : (∃ entityTypes, g.targetEntityTypes r = .ok entityTypes) ↔
    ∀ target ∈ r.targets, ∃ far, g.get target = .ok far := by
  constructor
  · rintro ⟨entityTypes, h⟩ target htarget
    refine except_foldlM_established h htarget (fun _ => ∃ far, g.get target = .ok far) ?_ ?_
    · intro found found' hturn
      split at hturn
      · cases hturn
      · exact ⟨_, get_eq_ok.mpr ‹_›⟩
    · exact fun _ _ _ _ hfar _ => hfar
  · intro h
    have hfold : ∃ entityTypes, g.targetEntityTypes r = .ok entityTypes ∧ True := by
      refine exists_except_foldlM (fun _ => True) trivial fun target htarget found _ => ?_
      obtain ⟨far, hfar⟩ := h target htarget
      simp [get_eq_ok.mp hfar]
    obtain ⟨entityTypes, hfound, -⟩ := hfold
    exact ⟨entityTypes, hfound⟩

/-- What is found are the entity types of the targets, each once. -/
theorem targetEntityTypes_spec {entityTypes : List String}
    (h : g.targetEntityTypes r = .ok entityTypes) : entityTypes.Nodup ∧
      ∀ entityType ∈ entityTypes, ∃ target ∈ r.targets, ∃ far, g.get target = .ok far ∧
        far.entityType = entityType := by
  refine except_foldlM_invariant h (fun found => found.Nodup ∧ ∀ entityType ∈ found,
    ∃ target ∈ r.targets, ∃ far, g.get target = .ok far ∧ far.entityType = entityType)
    ⟨List.nodup_nil, by simp⟩ ?_
  rintro target htarget found found' ⟨hnodup, hfound⟩ hturn
  split at hturn
  · cases hturn
  · rename_i far hfar
    obtain rfl := Except.ok.inj hturn
    split
    · exact ⟨hnodup, hfound⟩
    · rename_i hnew
      rw [List.contains_iff_mem] at hnew
      refine ⟨?_, ?_⟩
      · rw [← List.concat_eq_append, List.nodup_concat]
        exact ⟨hnew, hnodup⟩
      · intro entityType hmem
        rcases List.mem_append.mp hmem with hold | hlast
        · exact hfound entityType hold
        · exact ⟨target, htarget, far, get_eq_ok.mpr hfar, (List.mem_singleton.mp hlast).symm⟩

/-- All targets are registered, and their entity types are among those that were found. -/
theorem mem_targetEntityTypes {r : Relationship} {entityTypes : List String}
    (h : g.targetEntityTypes r = .ok entityTypes) {target : String} (htarget : target ∈ r.targets)
    {far : ModelType} (hfar : g.get target = .ok far) : far.entityType ∈ entityTypes := by
  refine except_foldlM_established h htarget (far.entityType ∈ ·) ?_ ?_
  · intro found found' hturn
    simp only [get_eq_ok.mp hfar, Except.ok.injEq] at hturn
    subst hturn
    split
    · rename_i hcontains
      simpa using hcontains
    · simp
  · intro other _ found found' hfound hturn
    split at hturn
    · cases hturn
    · obtain rfl := Except.ok.inj hturn
      split <;> simp [hfound]

/-- Distinct members of a list are no two exactly if all members are the same. -/
theorem not_one_lt_length_iff {xs : List String} (h : xs.Nodup) :
    ¬ 1 < xs.length ↔ ∀ x ∈ xs, ∀ y ∈ xs, x = y := by
  rcases xs with _ | ⟨first, _ | ⟨second, rest⟩⟩
  · simp
  · simp
  · have hne : first ≠ second := by
      rintro rfl
      simp at h
    simp only [List.length_cons]
    constructor
    · omega
    · exact fun hsame => absurd (hsame first (by simp) second (by simp)) hne

/-- A relationship passes if its targets are known and neither of the two rules is broken. -/
theorem checkRelationship_eq_ok : g.checkRelationship t r = .ok () ↔
    ∃ entityTypes, g.targetEntityTypes r = .ok entityTypes ∧
      (r.isPolymorphic = true → ¬ 1 < entityTypes.length) ∧
      (staysWithin r = true → ∀ entityType ∈ entityTypes, entityType = t.entityType) := by
  simp only [checkRelationship, except_bind_eq_ok]
  refine exists_congr fun entityTypes => and_congr_right fun _ => ?_
  have hfew : (r.isPolymorphic = true → ¬ 1 < entityTypes.length) ↔
      ¬ (r.isPolymorphic && decide (1 < entityTypes.length)) = true := by
    simp
  have hstays : (staysWithin r = true → ∀ entityType ∈ entityTypes, entityType = t.entityType) ↔
      ¬ (staysWithin r && !entityTypes.all fun x => decide (x = t.entityType)) = true := by
    simp
  rw [hfew, hstays]
  split
  · rename_i hseveral
    simp [hseveral]
  · rename_i hseveral
    split
    · rename_i hleaves
      simp [hleaves]
    · rename_i hleaves
      simp [hseveral, hleaves]

/-- A relationship is accepted exactly if it points where it may. -/
theorem Lists.checkRelationship_iff (h : g.Lists types) :
    g.checkRelationship t r = .ok () ↔ Points types t r := by
  have hknown : (∃ entityTypes, g.targetEntityTypes r = .ok entityTypes) ↔
      ∀ target ∈ r.targets, ∃ far ∈ types, far.name = target := by
    rw [exists_targetEntityTypes_iff]
    simp only [h.get_iff]
  have hmem {entityTypes : List String} (hfound : g.targetEntityTypes r = .ok entityTypes)
      (entityType : String) : entityType ∈ entityTypes ↔
        ∃ far ∈ types, far.name ∈ r.targets ∧ far.entityType = entityType := by
    constructor
    · intro hentity
      obtain ⟨target, htarget, far, hfar, hsame⟩ :=
        (targetEntityTypes_spec hfound).2 entityType hentity
      obtain ⟨hin, rfl⟩ := h.get_iff.mp hfar
      exact ⟨far, hin, htarget, hsame⟩
    · rintro ⟨far, hin, htarget, rfl⟩
      exact mem_targetEntityTypes hfound htarget (h.get_iff.mpr ⟨hin, rfl⟩)
  rw [checkRelationship_eq_ok]
  constructor
  · rintro ⟨entityTypes, hfound, hfew, hstays⟩
    have hnodup := (targetEntityTypes_spec hfound).1
    refine ⟨hknown.mp ⟨entityTypes, hfound⟩, ?_, ?_⟩
    · intro hpolymorphic far hfar other hother hfarTarget hotherTarget
      exact (not_one_lt_length_iff hnodup).mp (hfew hpolymorphic)
        _ ((hmem hfound _).mpr ⟨far, hfar, hfarTarget, rfl⟩)
        _ ((hmem hfound _).mpr ⟨other, hother, hotherTarget, rfl⟩)
    · intro hwithin far hfar htarget
      exact hstays hwithin _ ((hmem hfound _).mpr ⟨far, hfar, htarget, rfl⟩)
  · rintro ⟨htargets, htogether, hwithin⟩
    obtain ⟨entityTypes, hfound⟩ := hknown.mpr htargets
    have hnodup := (targetEntityTypes_spec hfound).1
    refine ⟨entityTypes, hfound, ?_, ?_⟩
    · intro hpolymorphic
      rw [not_one_lt_length_iff hnodup]
      intro one hone two htwo
      obtain ⟨far, hfar, hfarTarget, rfl⟩ := (hmem hfound one).mp hone
      obtain ⟨other, hother, hotherTarget, rfl⟩ := (hmem hfound two).mp htwo
      exact htogether hpolymorphic far hfar other hother hfarTarget hotherTarget
    · intro hstays entityType hentity
      obtain ⟨far, hfar, htarget, rfl⟩ := (hmem hfound entityType).mp hentity
      exact hwithin hstays far hfar htarget

theorem Lists.checkType_iff (h : g.Lists types) :
    g.checkType t = .ok () ↔ ∀ r ∈ t.relationships.values, Points types t r := by
  rw [checkType, except_forM_eq_ok]
  exact forall₂_congr fun r _ => h.checkRelationship_iff

/-! ## Building -/

/-- The registry of some types lists them, and they are consistent. -/
theorem build_eq_ok_iff : build types = .ok g ↔ Consistent types ∧ g.Lists types := by
  have hfill {filled : Registry} : types.foldlM Registry.register empty = .ok filled ↔
      Distinct types ∧ filled.Lists types :=
    foldlM_register_iff lists_empty ⟨List.nodup_nil, List.nodup_nil⟩
  have hpoints (h : g.Lists types) : g.types.values.forM g.checkType = .ok () ↔
      ∀ t ∈ types, ∀ r ∈ t.relationships.values, Points types t r := by
    rw [except_forM_eq_ok, h.values]
    exact forall₂_congr fun t _ => h.checkType_iff
  simp only [build, except_bind_eq_ok, except_pure_eq_ok]
  constructor
  · rintro ⟨filled, hfilled, ⟨⟩, hchecked, rfl⟩
    obtain ⟨hdistinct, hlists⟩ := hfill.mp hfilled
    exact ⟨⟨hdistinct, (hpoints hlists).mp hchecked⟩, hlists⟩
  · rintro ⟨hconsistent, hlists⟩
    exact ⟨g, hfill.mpr ⟨hconsistent.toDistinct, hlists⟩, (), (hpoints hlists).mpr
      hconsistent.points, rfl⟩

/-- A registry that was built from well-formed types is well formed. -/
theorem wellFormed_build (htypes : ∀ t ∈ types, t.WellFormed) (h : build types = .ok g) :
    g.WellFormed := by
  intro name t hfound
  obtain ⟨ht, hname⟩ := (build_eq_ok_iff.mp h).2.get_iff.mp (get_eq_ok.mpr hfound)
  exact ⟨hname, htypes t ht⟩

/-- Types of distinct names can be listed. -/
theorem exists_lists (h : (types.map (·.name)).Nodup) : ∃ g : Registry, g.Lists types :=
  ⟨⟨⟨types.map fun t : ModelType => (t.name, t), by rwa [List.map_map]⟩⟩, rfl⟩

theorem exists_build_iff : (∃ g, build types = .ok g) ↔ Consistent types := by
  constructor
  · rintro ⟨g, hbuild⟩
    exact (build_eq_ok_iff.mp hbuild).1
  · intro hconsistent
    obtain ⟨g, hlists⟩ := exists_lists hconsistent.names
    exact ⟨g, build_eq_ok_iff.mpr ⟨hconsistent, hlists⟩⟩

/-- A registry is built exactly if its types are consistent, in whatever order they are given.
It then finds every type by its name and by its bundle, and no bundle leads anywhere else. -/
theorem build_iff (types : List ModelType) :
    ((∃ g, build types = .ok g) ↔ Consistent types) ∧
      ∀ g, build types = .ok g →
        (∀ t ∈ types, g.typeForBundle? t.entityType t.bundle = some t ∧ g.get t.name = .ok t) ∧
        ∀ entityType bundle t, g.typeForBundle? entityType bundle = some t →
          t ∈ types ∧ t.entityType = entityType ∧ t.bundle = bundle ∧ g.get t.name = .ok t := by
  refine ⟨exists_build_iff, fun g hbuild => ?_⟩
  obtain ⟨hconsistent, hlists⟩ := build_eq_ok_iff.mp hbuild
  have hget {t : ModelType} (ht : t ∈ types) : g.get t.name = .ok t :=
    hlists.get_iff.mpr ⟨ht, rfl⟩
  constructor
  · intro t ht
    exact ⟨(hlists.typeForBundle?_iff hconsistent.bundles).mpr ⟨ht, rfl, rfl⟩, hget ht⟩
  · intro entityType bundle t hfound
    obtain ⟨ht, hentity, hbundle⟩ := (hlists.typeForBundle?_iff hconsistent.bundles).mp hfound
    exact ⟨ht, hentity, hbundle, hget ht⟩

/-- Chapters stand in volumes and cite volumes and other chapters. -/
def chapter : ModelType :=
  (((ModelType.new "chapter" "node" "chapter").declare (.parent "volume" "in" "volume")).declare
    (.polymorphicField "sources" "cited" ["volume", "chapter"])).declare
    (.field "writer" "by" "person")

/-- Volumes hold chapters. -/
def volume : ModelType :=
  (ModelType.new "volume" "node" "volume").declare (.child "chapters" "chapter" "volume")

/-- A chapter is registered before the types that it points at, and all of them are found. -/
theorem build_chapters : ∃ g, build [chapter, volume, .new "person" "user" "person"] = .ok g ∧
    Consistent [chapter, volume, .new "person" "user" "person"] ∧
    (g.typeForBundle? "node" "chapter" = some chapter ∧ g.get "chapter" = .ok chapter) ∧
    g.get "volume" = .ok volume := by
  have hbuild := eq_ok_of_isOk (x := build [chapter, volume, .new "person" "user" "person"])
    (by decide +kernel) default
  obtain ⟨hiff, hfound⟩ := build_iff [chapter, volume, .new "person" "user" "person"]
  obtain ⟨hthere, hback⟩ := hfound _ hbuild
  have hvolume := (hthere volume (by simp)).1
  exact ⟨_, hbuild, hiff.mp ⟨_, hbuild⟩, hthere chapter (by simp),
    (hback "node" "volume" volume hvolume).2.2.2⟩

/-- Whether a registry is built does not depend on the order in which its types are given. -/
theorem exists_build_iff_of_perm {types' : List ModelType} (hperm : types.Perm types') :
    (∃ g, build types = .ok g) ↔ ∃ g, build types' = .ok g := by
  rw [exists_build_iff, exists_build_iff]
  exact ⟨fun h => h.perm hperm, fun h => h.perm hperm.symm⟩

/-! ## Names by bundle -/

/-- The names of the types by their bundles, as a dictionary beside that of the types by name. -/
def directory (g : Registry) : OrderedMap (String × String) String :=
  OrderedMap.ofList (g.types.values.map fun t => (bundleKey t, t.name))

/-- The type of a bundle is the one that the two dictionaries lead to one after the other. -/
theorem typeForBundle?_eq_directory (h : build types = .ok g) (entityType bundle : String) :
    g.typeForBundle? entityType bundle =
      (g.directory.get? (entityType, bundle)).bind g.types.get? := by
  obtain ⟨hconsistent, hlists⟩ := build_eq_ok_iff.mp h
  have hentries : g.directory.entries = types.map fun t => (bundleKey t, t.name) := by
    rw [directory, hlists.values]
    refine OrderedMap.entries_ofList ?_
    rw [List.map_map]
    exact hconsistent.bundles
  refine Option.ext fun t => ?_
  rw [hlists.typeForBundle?_iff hconsistent.bundles, Option.bind_eq_some_iff]
  simp only [OrderedMap.get?_eq_some_iff (m := g.directory), hentries, List.mem_map, ← get_eq_ok,
    hlists.get_iff, Prod.mk.injEq, bundleKey]
  constructor
  · rintro ⟨ht, hkey⟩
    exact ⟨t.name, ⟨t, ht, hkey, rfl⟩, ht, rfl⟩
  · rintro ⟨name, ⟨u, hu, hkey, rfl⟩, ht, hname⟩
    obtain rfl := List.inj_on_of_nodup_map hconsistent.names ht hu hname
    exact ⟨ht, hkey⟩

end RecordGraph.Registry
