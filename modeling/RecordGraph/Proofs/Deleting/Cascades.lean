/-
# What hangs on a record

Deletions cascade along relationships whose far records hold the foreign key. Which records
hang on which is read off the store, and deleting one of them takes it out of the relation and
leaves the rest as it is. So the log of a deletion can be judged against the store in which the
deletion began: whatever is noted hangs somewhere below the record, and stands behind all that
hangs on it.

A relationship leads to records of one model type, by a condition on their bundle that compares
loosely. Nodes are therefore told apart by type, too; `TellsTypesApart` says that a record
cannot be reached as of two types.
-/
import Mathlib.Logic.Relation
import RecordGraph.Proofs.Deleting.Frames
import RecordGraph.Proofs.MemoryStores
import RecordGraph.Proofs.Registries

namespace RecordGraph

open Relation

/-- Entity type and identifier of a record, as deletions are noted. -/
abbrev RecordKey := String × String

/-! ## Taking records out -/

/-- The store in `s'` is the one in `s` without the records of the log, which was noted. -/
structure MemoryStore.Takes (s : MemoryStore) (log : List RecordKey) (s' : MemoryStore) :
    Prop where
  deleted : s'.deleted = s.deleted ++ log
  get? : ∀ entityType id, (s'.recordsOf entityType).get? id =
    if (entityType, id) ∈ log then none else (s.recordsOf entityType).get? id

namespace MemoryStore.Takes

variable {s s' s'' : MemoryStore} {log log' : List RecordKey}

theorem of_records (hrecords : s'.records = s.records) (hdeleted : s'.deleted = s.deleted) :
    s.Takes [] s' := by
  refine ⟨by simp [hdeleted], fun entityType id => ?_⟩
  rw [recordsOf, recordsOf, hrecords, if_neg List.not_mem_nil]

theorem refl (s : MemoryStore) : s.Takes [] s := of_records rfl rfl

theorem trans (first : s.Takes log s') (second : s'.Takes log' s'') :
    s.Takes (log ++ log') s'' := by
  refine ⟨by rw [second.deleted, first.deleted, List.append_assoc], fun entityType id => ?_⟩
  rw [second.get?, first.get?]
  by_cases hfirst : (entityType, id) ∈ log
  · simp [hfirst]
  · by_cases hsecond : (entityType, id) ∈ log'
    · simp [hsecond]
    · simp [hfirst, hsecond]

theorem delete {r : Record} {id : String} (hid : r.id = some id) :
    s.Takes [(r.entityType, id)] (MemoryStore.delete r s).2 := by
  have hempty : (OrderedMap.empty : OrderedMap String Record).erase id = OrderedMap.empty := rfl
  have herased : ∀ entityType, (MemoryStore.delete r s).2.recordsOf entityType =
      if entityType = r.entityType then (s.recordsOf entityType).erase id
      else s.recordsOf entityType := by
    intro entityType
    simp only [MemoryStore.delete, hid, recordsOf]
    by_cases hentity : entityType = r.entityType
    · subst hentity
      cases hrecords : s.records.get? r.entityType with
      | none => simp [hrecords, hempty]
      | some byId => simp
    · cases hrecords : s.records.get? r.entityType with
      | none => simp [hentity]
      | some byId => simp [hentity, Ne.symm hentity]
  refine ⟨by simp [MemoryStore.delete, hid], fun entityType other => ?_⟩
  rw [herased]
  by_cases hentity : entityType = r.entityType
  · simp [hentity, eq_comm]
  · simp [hentity]

/-- A deletion that fails takes out nothing. -/
theorem exists_delete (r : Record) (s : MemoryStore) :
    ∃ log, s.Takes log (MemoryStore.delete r s).2 := by
  cases hid : r.id with
  | none => exact ⟨[], by simpa [MemoryStore.delete, hid] using refl s⟩
  | some id => exact ⟨_, delete hid⟩

theorem get?_eq_some (h : s.Takes log s') {entityType id : String} {r : Record} :
    (s'.recordsOf entityType).get? id = some r ↔
      (s.recordsOf entityType).get? id = some r ∧ (entityType, id) ∉ log := by
  rw [h.get?]
  by_cases hmem : (entityType, id) ∈ log
  · simp [hmem]
  · simp [hmem]

theorem filed (h : s.Takes log s') (hs : s.Filed) : s'.Filed :=
  fun entityType id r hr => hs entityType id r (h.get?_eq_some.mp hr).1

end MemoryStore.Takes

namespace MemoryStore

/-- The calls made to fetch leave the records and the log of deletions alone. -/
theorem covers_same : RecordStore.Covers fun s s' : MemoryStore =>
    s'.records = s.records ∧ s'.deleted = s.deleted where
  refl _ := ⟨rfl, rfl⟩
  trans first second := ⟨second.1.trans first.1, second.2.trans first.2⟩
  execute q s := by
    refine ⟨records_execute q s, ?_⟩
    change (MemoryStore.execute q s).2.deleted = s.deleted
    unfold MemoryStore.execute
    split
    · rfl
    · rfl
  loadMultiple _ _ _ := ⟨rfl, rfl⟩

/-- All that deletions do to the store is to take records out. -/
theorem covers_takes : RecordStore.Covers fun s s' : MemoryStore => ∃ log, s.Takes log s' where
  refl s := ⟨[], .refl s⟩
  trans := by
    rintro s t u ⟨log, first⟩ ⟨log', second⟩
    exact ⟨log ++ log', first.trans second⟩
  execute q s := ⟨[], .of_records (covers_same.execute q s).1 (covers_same.execute q s).2⟩
  loadMultiple entityType ids s := ⟨[], .of_records rfl rfl⟩

end MemoryStore

/-! ## Nodes -/

/-- A record as deletions see it: wrapped in a type, under its entity type and identifier. -/
structure Node where
  /-- The type in which it is wrapped. -/
  type : ModelType
  /-- Its entity type. -/
  entityType : String
  /-- Its identifier. -/
  id : String

namespace Node

/-- How the deletion of the node is noted. -/
def key (x : Node) : RecordKey := (x.entityType, x.id)

/-- The node cascades along a name with several steps, which is followed as a path. Where that
leads to depends on what happens to be loaded on the way. -/
def Roams (x : Node) : Prop := ∃ name ∈ x.type.cascades, pathSteps name ≠ [name]

/-- The stored record `r` passes for the node: its type is registered, and the condition on the
bundle of the type holds. -/
structure Stands (registry : Registry) (s : MemoryStore) (x : Node) (r : Record) : Prop where
  entityType : x.entityType = x.type.entityType
  registered : registry.get x.type.name = .ok x.type
  stored : (s.recordsOf x.entityType).get? x.id = some r
  bundle : (Condition.eq bundleField (.text x.type.bundle)).holds r = true

/-- The far node `y` is found for `x` along a relationship: the query for the identifier of `x`
selects its record, and the foreign key of the record names that identifier. -/
def HangsAlong (registry : Registry) (s : MemoryStore) (name : String) (x y : Node) : Prop :=
  ∃ resolved r, registry.resolve x.type.name name = .ok resolved ∧
    resolved.farTypes = [y.type.name] ∧ y.Stands registry s r ∧
    ((Condition.inList resolved.foreignKey.path []).required.withValue
      (Value.texts [x.id])).holds r = true ∧
    x.id ∈ r.referenceIds resolved.foreignKey.field resolved.foreignKey.column

/-- The node `y` is found for `x` along a relationship along which deletions cascade. -/
def Hangs (registry : Registry) (s : MemoryStore) (x y : Node) : Prop :=
  ∃ name ∈ x.type.cascades, HangsAlong registry s name x y

/-- The node `y` hangs on `x`, or on what hangs below it. -/
abbrev Below (registry : Registry) (s : MemoryStore) : Node → Node → Prop :=
  TransGen (Hangs registry s)

/-- A deletion of `x` may note the key: it is that of a node below it, or there is no telling,
since `x` or a node below it cascades along a path. -/
def Reaches (registry : Registry) (s : MemoryStore) (x : Node) (k : RecordKey) : Prop :=
  (∃ y, Below registry s x y ∧ y.key = k) ∨
    ∃ y, ReflTransGen (Hangs registry s) x y ∧ y.Roams

/-- No two nodes that hang along one relationship on `x`, or on a node below it, are one below
the other. -/
def Branches (registry : Registry) (s : MemoryStore) (x : Node) : Prop :=
  ∀ y, ReflTransGen (Hangs registry s) x y → ∀ name ∈ y.type.cascades, ∀ a b,
    HangsAlong registry s name y a → HangsAlong registry s name y b → ¬ Below registry s a b

end Node

/-- No relationship along which deletions cascade has a name with several steps. -/
def Registry.CascadesStepwise (registry : Registry) : Prop :=
  ∀ t, registry.get t.name = .ok t → ∀ name ∈ t.cascades, pathSteps name = [name]

/-- No stored record passes for nodes of two types. -/
def MemoryStore.TellsTypesApart (s : MemoryStore) (registry : Registry) : Prop :=
  ∀ (x y : Node) r, x.Stands registry s r → y.Stands registry s r → x.key = y.key → x = y

namespace Node

variable {registry : Registry} {s s' : MemoryStore} {log : List RecordKey} {x y z : Node}
  {name : String}

theorem not_roams (hsteps : registry.CascadesStepwise)
    (hx : registry.get x.type.name = .ok x.type) : ¬ x.Roams :=
  fun ⟨name, hname, hpath⟩ => hpath (hsteps x.type hx name hname)

theorem Stands.eq_of_key_eq (happart : s.TellsTypesApart registry) {r r' : Record}
    (hx : x.Stands registry s r) (hy : y.Stands registry s r') (hkey : x.key = y.key) : x = y := by
  obtain ⟨hentity, hid⟩ := Prod.mk.injEq .. ▸ hkey
  have hsame : some r = some r' := by
    rw [← hx.stored, ← hy.stored, hentity, hid]
  obtain rfl := Option.some.inj hsame
  exact happart x y r hx hy hkey

theorem HangsAlong.stands (h : HangsAlong registry s name x y) : ∃ r, y.Stands registry s r := by
  obtain ⟨_, r, _, _, hy, _⟩ := h
  exact ⟨r, hy⟩

theorem Below.stands (h : Below registry s x y) : ∃ r, y.Stands registry s r := by
  obtain ⟨_, -, _, -, hlast⟩ := TransGen.tail'_iff.mp h
  exact hlast.stands

/-! ## Without the records of a log -/

theorem stands_of_takes (h : s.Takes log s') {r : Record} :
    y.Stands registry s' r ↔ y.Stands registry s r ∧ y.key ∉ log := by
  constructor
  · intro hy
    obtain ⟨hstored, hkey⟩ := h.get?_eq_some.mp hy.stored
    exact ⟨⟨hy.entityType, hy.registered, hstored, hy.bundle⟩, hkey⟩
  · rintro ⟨hy, hkey⟩
    exact ⟨hy.entityType, hy.registered, h.get?_eq_some.mpr ⟨hy.stored, hkey⟩, hy.bundle⟩

theorem hangsAlong_of_takes (h : s.Takes log s') :
    HangsAlong registry s' name x y ↔ HangsAlong registry s name x y ∧ y.key ∉ log := by
  constructor
  · rintro ⟨resolved, r, hresolved, hfar, hy, hasked, hid⟩
    obtain ⟨hy, hkey⟩ := (stands_of_takes h).mp hy
    exact ⟨⟨resolved, r, hresolved, hfar, hy, hasked, hid⟩, hkey⟩
  · rintro ⟨⟨resolved, r, hresolved, hfar, hy, hasked, hid⟩, hkey⟩
    exact ⟨resolved, r, hresolved, hfar, (stands_of_takes h).mpr ⟨hy, hkey⟩, hasked, hid⟩

/-- What hangs on a node is gone or hangs on it still, and nothing new does. -/
theorem hangs_of_takes (h : s.Takes log s') :
    Hangs registry s' x y ↔ Hangs registry s x y ∧ y.key ∉ log := by
  simp only [Hangs, hangsAlong_of_takes h]
  constructor
  · rintro ⟨name, hname, hhangs, hkey⟩
    exact ⟨⟨name, hname, hhangs⟩, hkey⟩
  · rintro ⟨⟨name, hname, hhangs⟩, hkey⟩
    exact ⟨name, hname, hhangs, hkey⟩

theorem Hangs.of_takes (h : s.Takes log s') (hhangs : Hangs registry s' x y) :
    Hangs registry s x y :=
  ((hangs_of_takes h).mp hhangs).1

theorem Below.of_takes (h : s.Takes log s') (hbelow : Below registry s' x y) :
    Below registry s x y :=
  TransGen.mono (fun _ _ => Hangs.of_takes h) _ _ hbelow

theorem Reaches.of_takes (h : s.Takes log s') {k : RecordKey} (hk : Reaches registry s' x k) :
    Reaches registry s x k := by
  rcases hk with ⟨y, hbelow, hkey⟩ | ⟨y, hy, hroams⟩
  · exact .inl ⟨y, hbelow.of_takes h, hkey⟩
  · exact .inr ⟨y, ReflTransGen.mono (fun _ _ => Hangs.of_takes h) _ _ hy, hroams⟩

/-- Where nothing cascades, nothing is reached. -/
theorem Reaches.cascades_ne_nil {k : RecordKey} (hk : Reaches registry s x k) :
    x.type.cascades ≠ [] := by
  have hfirst : ∃ name, name ∈ x.type.cascades := by
    rcases hk with ⟨y, hbelow, -⟩ | ⟨y, hy, hroams⟩
    · obtain ⟨_, ⟨name, hname, -⟩, -⟩ := TransGen.head'_iff.mp hbelow
      exact ⟨name, hname⟩
    · rcases ReflTransGen.cases_head hy with rfl | ⟨_, ⟨name, hname, -⟩, -⟩
      · obtain ⟨name, hname, -⟩ := hroams
        exact ⟨name, hname⟩
      · exact ⟨name, hname⟩
  obtain ⟨name, hname⟩ := hfirst
  exact List.ne_nil_of_mem hname

theorem Branches.of_takes (h : s.Takes log s') (hx : Branches registry s x) :
    Branches registry s' x := by
  intro y hy name hname a b ha hb hbelow
  exact hx y (ReflTransGen.mono (fun _ _ => Hangs.of_takes h) _ _ hy) name hname a b
    ((hangsAlong_of_takes h).mp ha).1 ((hangsAlong_of_takes h).mp hb).1 (hbelow.of_takes h)

theorem Branches.of_hangs (hx : Branches registry s x) (hy : Hangs registry s x y) :
    Branches registry s y :=
  fun z hz => hx z (.head hy hz)

/-- What can be reached from a node that hangs on another one can be reached from this one. -/
theorem Reaches.of_hangs {k : RecordKey} (hy : Hangs registry s x y)
    (hk : Reaches registry s y k) : Reaches registry s x k := by
  rcases hk with ⟨z, hbelow, hkey⟩ | ⟨z, hz, hroams⟩
  · exact .inl ⟨z, .head hy hbelow, hkey⟩
  · exact .inr ⟨z, .head hy hz, hroams⟩

end Node

theorem MemoryStore.TellsTypesApart.of_takes {registry : Registry} {s s' : MemoryStore}
    {log : List RecordKey} (h : s.Takes log s') (hs : s.TellsTypesApart registry) :
    s'.TellsTypesApart registry :=
  fun x y r hx hy => hs x y r ((Node.stands_of_takes h).mp hx).1 ((Node.stands_of_takes h).mp hy).1

end RecordGraph
