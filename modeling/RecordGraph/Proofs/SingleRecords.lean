/-
# The first record and the first model

The first record of a query is asked for by the query itself with its range cut to one record.
The start of the range stays, its length does not matter: a query whose range is empty answers
no records and still has a first one. Apart from that the first record is the first one that the
query answers, whatever it asks for and whatever the store holds.

For models the record is wrapped afterwards. The query for models of several types leaves out
records of a bundle that it has no type for, and for the first model it looks at the first record
only. So first model and first record belong together where the first selected record has a type,
or none of the selected records has one.

An access policy sees the range. What is said here is about policies that do not look at it.
-/
import RecordGraph.Proofs.AccessPolicies
import RecordGraph.Proofs.ModelQueries
import RecordGraph.Proofs.Paging

namespace RecordGraph

/-! ## Ranges -/

/-- The range, if there is one, takes at least one record and takes the first one from here. -/
def OpensAt (range : Option (Nat × Nat)) (start : Nat) : Prop :=
  range = none ∧ start = 0 ∨ ∃ n, range = some (start, n + 1)

theorem StoreQuery.head?_slice {α : Type} {q : StoreQuery} {start : Nat}
    (h : OpensAt q.range start) (xs : List α) : (q.slice xs).head? = xs[start]? := by
  unfold slice
  obtain ⟨hrange, rfl⟩ | ⟨n, hrange⟩ := h
  · rw [hrange, List.head?_eq_getElem?]
  · rw [hrange, List.head?_take, if_neg (Nat.succ_ne_zero n), List.head?_drop]

/-- A range that takes a record at all opens at its start. -/
theorem opensAt_start {range : Option (Nat × Nat)} (h : ∀ start, range ≠ some (start, 0)) :
    OpensAt range ((range.map Prod.fst).getD 0) := by
  rcases range with _ | ⟨start, _ | n⟩
  · exact .inl ⟨rfl, rfl⟩
  · exact absurd rfl (h start)
  · exact .inr ⟨n, rfl⟩

/-! ## Access policies -/

/-- The policy leaves the entity type alone and does not look at the range: it hands the range
on as it is, or decides on it by itself. -/
structure AccessPolicy.BlindToRanges (p : AccessPolicy) : Prop where
  entityType : ∀ q rewritten, p.apply q = .ok rewritten → rewritten.entityType = q.entityType
  range : (∀ q range, p.apply (q.cutTo range) = (·.cutTo range) <$> p.apply q) ∨
    ∀ q range, p.apply (q.cutTo range) = p.apply q

variable {σ : Type}

/-- The policy that a query asks for, if it asks for one and the session knows it, does not look
at ranges. -/
def Session.BlindToRanges (s : Session) (g : Graph σ) (q : Query) : Prop :=
  ∀ name policy, q.accessPolicy = some name → (g.session s).policies.get? name = some policy →
    policy.BlindToRanges

/-- With such a policy the range is handed on to the store, or is not looked at. -/
theorem Session.BlindToRanges.prepare {s : Session} {g : Graph σ} {q : Query}
    (h : s.BlindToRanges g q) {built : StoreQuery} (hbuilt : q.build = .ok built) :
    (∀ noted, (s.prepare built g).1 = .ok noted → noted.entityType = q.entityType) ∧
    ((∀ range, (s.prepare (built.cutTo range) g).1 = (·.cutTo range) <$> (s.prepare built g).1) ∨
      ∀ range, (s.prepare (built.cutTo range) g).1 = (s.prepare built g).1) := by
  obtain ⟨hentity, -, -, hpolicy, -⟩ := Query.kept_of_build hbuilt
  have htagged : ∀ range, (built.cutTo range).hasTag accessPolicyTag =
      built.hasTag accessPolicyTag := fun _ => rfl
  have hnamed : ∀ range, (built.cutTo range).accessPolicy = built.accessPolicy := fun _ => rfl
  simp only [prepare_eq, htagged, hnamed]
  split
  · rw [hpolicy]
    cases hname : q.accessPolicy with
    | none => exact ⟨fun noted hnoted => (by cases hnoted), .inl fun _ => rfl⟩
    | some name =>
        simp only
        cases hknown : (g.session s).policies.get? name with
        | none => exact ⟨fun noted hnoted => (by cases hnoted), .inl fun _ => rfl⟩
        | some policy =>
            have hblind := h name policy hname hknown
            exact ⟨fun noted hnoted => (hblind.entityType built noted hnoted).trans hentity,
              hblind.range.imp (fun hrange => hrange built) fun hrange => hrange built⟩
  · exact ⟨fun noted hnoted => by rw [← Except.ok.inj hnoted, hentity], .inl fun _ => rfl⟩

/-! ## Records -/

namespace Query

variable {s : Session} {g : Graph MemoryStore} {q : Query}

theorem fetch_fst_of_error {e : Error} (h : q.build = .error e) : (q.fetch s g).1 = .error e := by
  have hbuild : Action.ofExcept q.build g = (.error e, g) := by rw [h]; rfl
  unfold fetch fetchIds
  rw [run_bind_of_error (run_bind_of_error hbuild _)]

/-- What a query that can be built is answered with on the store in memory, or why it is not. -/
theorem fetch_fst_of_build {built : StoreQuery} (h : q.build = .ok built) : (q.fetch s g).1 =
    (s.prepare built g).1 >>= fun noted =>
      if noted.countOnly then .error (.store .countQuery)
      else .ok (g.store.returned q.entityType noted) := by
  have hbuild : Returns (Action.ofExcept q.build) g built g := returns_ofExcept.mpr ⟨rfl, h⟩
  unfold fetch fetchIds
  rw [run_bind, hbuild.run_bind, Session.execute, run_bind]
  rcases hprepare : s.prepare built g with ⟨answer, between⟩
  cases answer with
  | error e => rfl
  | ok noted =>
      obtain rfl := Session.returns_prepare (show Returns (s.prepare built) g noted between from
        hprepare)
      change _ = if noted.countOnly then _ else _
      by_cases hcount : noted.countOnly = true
      · have hrefused : MemoryStore.execute noted between.store =
            (.error (.store .countQuery), between.store) := by
          rw [MemoryStore.execute, if_pos hcount]
        have hcall : Action.call (RecordStore.execute noted) between =
            (.error (.store .countQuery), between) := run_call hrefused
        rw [if_pos hcount]
        simp only [hcall]
      · have hanswered :=
          MemoryStore.execute_of_selects (Bool.eq_false_iff.mpr hcount) between.store
        have hcall : Action.call (RecordStore.execute noted) between = _ :=
          returns_call.mpr ⟨_, hanswered, rfl⟩
        have hrecords := MemoryStore.records_execute noted between.store
        rw [if_neg hcount, MemoryStore.returned]
        simp only [hcall]
        split
        · rename_i hempty
          rw [List.isEmpty_iff.mp hempty]
          rfl
        · change Except.ok (List.filterMap (MemoryStore.recordsOf _ _).get? _) = _
          simp only [MemoryStore.recordsOf, hrecords]

/-- Ranges that open at one place let the same first record through. -/
theorem head?_fetch_cutTo (hfiled : g.store.Filed) (hblind : s.BlindToRanges g q) {start : Nat}
    {range other : Option (Nat × Nat)} (hrange : OpensAt range start)
    (hother : OpensAt other start) :
    List.head? <$> ((q.cutTo range).fetch s g).1 =
      List.head? <$> ((q.cutTo other).fetch s g).1 := by
  cases hbuild : q.build with
  | error e =>
      have hfails : ∀ range, ((q.cutTo range).fetch s g).1 = .error e := fun range =>
        fetch_fst_of_error (by rw [build_cutTo, hbuild]; rfl)
      rw [hfails, hfails]
  | ok built =>
      rw [fetch_fst_of_build (build_cutTo_of_build hbuild range),
        fetch_fst_of_build (build_cutTo_of_build hbuild other)]
      obtain ⟨hentity, hcut | hsame⟩ := hblind.prepare hbuild
      · rw [hcut, hcut]
        cases hprepare : (s.prepare built g).1 with
        | error e => rfl
        | ok noted =>
            have hfirst : ∀ range, OpensAt range start →
                (g.store.returned q.entityType (noted.cutTo range)).head? =
                  (g.store.select noted)[start]? := by
              intro range hopens
              rw [← hentity noted hprepare,
                ← StoreQuery.head?_slice (q := noted.cutTo range) hopens]
              exact congrArg List.head? (hfiled.returned_eq (noted.cutTo range))
            change List.head? <$> (if noted.countOnly then _ else _) =
              List.head? <$> (if noted.countOnly then _ else _)
            split
            · rfl
            · exact congrArg Except.ok ((hfirst range hrange).trans (hfirst other hother).symm)
      · rw [hsame, hsame]
        rfl

theorem fetchSingle_fst (q : Query) (s : Session) (g : Graph MemoryStore) :
    (q.fetchSingle s g).1 = List.head? <$> ((q.withLimit 1).fetch s g).1 := by
  unfold fetchSingle
  rw [run_bind]
  rcases (q.withLimit 1).fetch s g with ⟨answer, after⟩
  cases answer with
  | error e => rfl
  | ok rs => rfl

/-- The first record is that of the query with any other length of its range. -/
theorem fetchSingle_of_limit (hfiled : g.store.Filed) (hblind : s.BlindToRanges g q) (n : Nat) :
    (q.fetchSingle s g).1 = List.head? <$> ((q.withLimit (n + 1)).fetch s g).1 := by
  rw [fetchSingle_fst]
  exact head?_fetch_cutTo hfiled hblind (.inr ⟨0, rfl⟩) (.inr ⟨n, rfl⟩)

/-- The first record is that of the query if its range takes a record at all. -/
theorem fetchSingle_of_range (hfiled : g.store.Filed) (hblind : s.BlindToRanges g q)
    (hrange : ∀ start, q.range ≠ some (start, 0)) :
    (q.fetchSingle s g).1 = List.head? <$> (q.fetch s g).1 := by
  rw [fetchSingle_fst]
  exact head?_fetch_cutTo hfiled hblind (.inr ⟨0, rfl⟩) (opensAt_start hrange)

end Query

/-! ## Models -/

/-- Either the first of the records has a type to be wrapped in, or none of them has one. -/
def Wrapping.TypesFirst (w : Wrapping) (rs : List Record) : Prop :=
  ∀ r, rs.head? = some r → (w.typeFor? r).isSome = true ∨ ∀ other ∈ rs, w.typeFor? other = none

/-- With one type there is a type for every record. -/
theorem Wrapping.typesFirst_one (t : ModelType) (rs : List Record) : (one t).TypesFirst rs :=
  fun _ _ => .inl rfl

/-- What a model is forged with: its type, its key and its record. -/
def Graph.face (g : Graph σ) (m : Model) : ModelType × String × Record :=
  ((g.model m).modelType, (g.model m).key, (g.model m).record)

theorem Graph.WrapsRecord.face_eq {g : Graph σ} {w : Wrapping} {m : Model} {t : ModelType}
    {id : String} (h : g.WrapsRecord w m) (ht : w.typeFor? (g.model m).record = some t)
    (hid : (g.model m).record.id = some id) : g.face m = (t, id, (g.model m).record) := by
  rw [face, h.key id hid, Option.some.inj (h.typeFor.symm.trans ht)]

/-- What the store brings back carries its identifier. -/
theorem MemoryStore.Filed.exists_id_of_mem_returned {store : MemoryStore} (h : store.Filed)
    {entityType : String} {q : StoreQuery} {r : Record} (hr : r ∈ store.returned entityType q) :
    ∃ id, r.id = some id := by
  obtain ⟨id, -, hget⟩ := List.mem_filterMap.mp hr
  exact ⟨id, (h entityType id r hget).1⟩

namespace ModelQuery

variable {q : ModelQuery} {s : Session} {g : Graph MemoryStore}

/-- Wrapping one record and wrapping several that begin with it show the same first model. -/
theorem face_wrap_eq {r : Record} {rest : List Record} {made : Option Model} {ms : List Model}
    {g₁ g₁' g₂ g₂' : Graph σ} (hone : Returns (q.wrap s r) g₁ made g₁')
    (hall : Returns (q.wrapAll s (r :: rest)) g₂ ms g₂') {id : String} (hid : r.id = some id)
    (htypes : q.wrapping.TypesFirst (r :: rest)) :
    made.map g₁'.face = (ms.map g₂'.face).head? := by
  obtain ⟨-, -, hmade, hnone⟩ := returns_wrap hone
  obtain ⟨-, -, hwraps, hrecords⟩ := returns_wrapAll hall
  rcases htypes r rfl with htyped | huntyped
  · obtain ⟨t, ht⟩ := Option.isSome_iff_exists.mp htyped
    cases made with
    | none =>
        rw [hnone rfl] at ht
        cases ht
    | some m =>
        obtain ⟨hm, hrecord⟩ := hmade m rfl
        rw [List.filter_cons, if_pos htyped] at hrecords
        obtain ⟨first, others, rfl, hfirst, -⟩ := List.map_eq_cons_iff.mp hrecords
        have hone := hm.2.2.face_eq (by rw [hrecord]; exact ht) (by rw [hrecord]; exact hid)
        have hall := (hwraps first (by simp)).2.2.face_eq (by rw [hfirst]; exact ht)
          (by rw [hfirst]; exact hid)
        rw [Option.map_some, List.map_cons, List.head?_cons, hone, hall, hrecord, hfirst]
  · have hempty : ms = [] := by
      rw [← List.map_eq_nil_iff, hrecords, List.filter_eq_nil_iff]
      intro other hother
      simp [huntyped other hother]
    cases made with
    | none => rw [hempty]; rfl
    | some m =>
        have htype := (hmade m rfl).1.2.2.typeFor
        rw [(hmade m rfl).2, huntyped r (by simp)] at htype
        cases htype

/-- The first model is that of the first record. -/
theorem face_fetchSingleModel (hfiled : g.store.Filed) (hblind : s.BlindToRanges g q.query)
    (hrange : ∀ start, q.query.range ≠ some (start, 0))
    (htypes : ∀ rs, (q.query.fetch s g).1 = .ok rs → q.wrapping.TypesFirst rs) :
    Option.map (q.fetchSingleModel s g).2.face <$> (q.fetchSingleModel s g).1 =
      (fun ms => (ms.map (q.fetchModels s g).2.face).head?) <$> (q.fetchModels s g).1 := by
  have hsingle := Query.fetchSingle_of_range hfiled hblind hrange
  cases hfetch : (q.query.fetch s g).1 with
  | error e =>
      rw [hfetch] at hsingle
      have hmodels : q.fetchModels s g = (.error e, (q.query.fetch s g).2) :=
        run_bind_of_error (Prod.ext hfetch rfl) _
      have hmodel : q.fetchSingleModel s g = (.error e, (q.query.fetchSingle s g).2) :=
        run_bind_of_error (Prod.ext hsingle rfl) _
      rw [hmodels, hmodel]
      rfl
  | ok rs =>
      rw [hfetch] at hsingle
      have hfetched := returns_of_fst_eq_ok hfetch
      have hpicked : Returns (q.query.fetchSingle s) g rs.head? _ := returns_of_fst_eq_ok hsingle
      obtain ⟨ms, g₂, hall⟩ := q.succeeds_wrapAll s rs (q.query.fetch s g).2
      have hmodels : q.fetchModels s g = (.ok ms, g₂) :=
        returns_bind.mpr ⟨rs, _, hfetched, hall⟩
      obtain ⟨-, noted, -, -, -, -, hreturned⟩ := Query.exists_noted hfetched
      rw [hmodels]
      cases rs with
      | nil =>
          have hmodel : q.fetchSingleModel s g = (.ok none, (q.query.fetchSingle s g).2) :=
            returns_bind.mpr ⟨none, _, hpicked, returns_pure.mpr ⟨rfl, rfl⟩⟩
          obtain ⟨-, -, -, hrecords⟩ := returns_wrapAll hall
          obtain rfl := List.map_eq_nil_iff.mp hrecords
          rw [hmodel]
          rfl
      | cons r rest =>
          obtain ⟨made, g₁, hone⟩ := q.succeeds_wrap s r (q.query.fetchSingle s g).2
          have hmodel : q.fetchSingleModel s g = (.ok made, g₁) :=
            returns_bind.mpr ⟨some r, _, hpicked, hone⟩
          obtain ⟨id, hid⟩ := hfiled.exists_id_of_mem_returned
            (show r ∈ g.store.returned q.query.entityType noted by rw [← hreturned]; simp)
          rw [hmodel]
          exact congrArg Except.ok (face_wrap_eq hone hall hid (htypes _ hfetch))

/-- Whatever the store holds and a query asks for, its first record is the first one of the same
query with any other length of its range than zero. If the query's own range takes a record at
all, its first record is the first one that it answers; and its first model shows what the first
model shows that it wraps, if the first of the records has a type to be wrapped in or none of them
has one. A query that fails in one way fails in the other. -/
theorem single_is_first (hfiled : g.store.Filed) (hblind : s.BlindToRanges g q.query) :
    (∀ n, (q.query.fetchSingle s g).1 =
      List.head? <$> ((q.query.withLimit (n + 1)).fetch s g).1) ∧
    ((∀ start, q.query.range ≠ some (start, 0)) →
      (q.query.fetchSingle s g).1 = List.head? <$> (q.query.fetch s g).1 ∧
      ((∀ rs, (q.query.fetch s g).1 = .ok rs → q.wrapping.TypesFirst rs) →
        Option.map (q.fetchSingleModel s g).2.face <$> (q.fetchSingleModel s g).1 =
          (fun ms => (ms.map (q.fetchModels s g).2.face).head?) <$> (q.fetchModels s g).1)) :=
  ⟨Query.fetchSingle_of_limit hfiled hblind, fun hrange =>
    ⟨Query.fetchSingle_of_range hfiled hblind hrange,
      face_fetchSingleModel hfiled hblind hrange⟩⟩

end ModelQuery

namespace Library

/-- What a query for records answers can be evaluated. -/
theorem fetch_brief (q : Query) (s : Session) :
    q.fetch s = @Query.fetch MemoryStore MemoryStore.brief q s := by
  rw [MemoryStore.brief_eq]

/-- The type of all orders. -/
def order : ModelType := ModelType.new "order" "order" "order"

/-- An order of Bob's and one of Ann's. -/
def twoOrders : MemoryStore :=
  (orders.seed (((Record.new "order" "order").withId "desk").set "owner" (.text "ann"))).2

/-- The two orders, with a session that shows Ann hers. -/
def ordered : Graph MemoryStore :=
  ([ownOrders].forM session.registerPolicy
    (Session.start ⟨"PLH", .and, none, false⟩ (Graph.new twoOrders (registry [order]))).2).2

/-- The first five of Ann's orders. -/
def owned : ModelQuery :=
  ⟨.one order, ((Query.new "order").withAccessPolicy "own_orders").withRange 0 5⟩

theorem get?_policies_ordered :
    (ordered.session session).policies.get? "own_orders" = some ownOrders := by
  have hregistered : Returns ([ownOrders].forM session.registerPolicy)
      (Session.start ⟨"PLH", .and, none, false⟩ (Graph.new twoOrders (registry [order]))).2
      ⟨⟩ ordered := returns_of_isOk (by decide +kernel) ⟨⟩
  rw [Session.policies_registerPolicy hregistered]
  rfl

/-- The policy adds to what an order must meet and does nothing else. -/
theorem ownOrders_blindToRanges : ownOrders.BlindToRanges where
  entityType q rewritten h := by
    obtain rfl := Except.ok.inj h
    rfl
  range := .inl fun _ _ => rfl

/-- Ann's first order is the desk, not Bob's lamp, as a record and as a model. -/
theorem owned_first :
    (owned.query.fetchSingle session ordered).1.toOption.map (·.bind Record.id) =
      some (some "desk") ∧
    ((owned.fetchModels session ordered).1.toOption.map fun ms =>
      (ms.map fun m => ((owned.fetchModels session ordered).2.face m).2.1).head?) =
        some (some "desk") ∧
    Option.map (owned.fetchSingleModel session ordered).2.face <$>
      (owned.fetchSingleModel session ordered).1 =
        (fun ms => (ms.map (owned.fetchModels session ordered).2.face).head?) <$>
          (owned.fetchModels session ordered).1 := by
  have hfiled : ordered.store.Filed := (MemoryStore.filed_empty.seed _).seed _
  have hblind : session.BlindToRanges ordered owned.query := by
    rintro name policy hname hknown
    obtain rfl : "own_orders" = name := Option.some.inj hname
    obtain rfl := Option.some.inj (get?_policies_ordered.symm.trans hknown)
    exact ownOrders_blindToRanges
  have hrange : ∀ start, owned.query.range ≠ some (start, 0) := by
    intro start hzero
    cases hzero
  obtain ⟨-, hfirst⟩ := ModelQuery.single_is_first hfiled hblind
  obtain ⟨hrecord, hmodel⟩ := hfirst hrange
  refine ⟨?_, ?_, hmodel fun rs _ => Wrapping.typesFirst_one order rs⟩
  · rw [hrecord, fetch_brief]
    decide +kernel
  · rw [ModelQuery.fetchModels, fetch_brief]
    decide +kernel

/-- The query for the versions on an empty page. -/
def emptyPage : Query := (Query.new "node").withRange 0 0

/-- The query for prints alone. It selects drafts too, as their bundle spells the same number. -/
def prints : ModelQuery := (ModelQuery.ofTypes [print]).toOption.getD default

/-- A policy that refuses to answer all records at once. -/
def pagesOnly : AccessPolicy :=
  ⟨"pages", fun q => if q.range.isNone then .error (.store .countQuery) else .ok q⟩

/-- The versions, with a session that knows this policy. -/
def pagedOnly : Graph MemoryStore := ([pagesOnly].forM session.registerPolicy released).2

/-- The query for all versions under this policy. -/
def allPaged : Query := (Query.new "node").withAccessPolicy "pages"

/-- An empty page has a first record. A draft that is selected before a print leaves the query
for prints without a first model. And a policy that looks at ranges may show the first record
alone. -/
theorem first_of_nothing :
    ((emptyPage.fetch session released).1.toOption.map (·.map Record.id) = some [] ∧
      (emptyPage.fetchSingle session released).1.toOption.map (·.bind Record.id) =
        some (some "cells")) ∧
    ((prints.fetchModels session released).1.toOption.map List.length = some 1 ∧
      (prints.fetchSingleModel session released).1.toOption.map Option.isSome = some false) ∧
    ((allPaged.fetch session pagedOnly).1.isOk = false ∧
      (allPaged.fetchSingle session pagedOnly).1.isOk = true) := by
  simp only [ModelQuery.fetchModels, ModelQuery.fetchSingleModel, Query.fetchSingle, fetch_brief]
  decide +kernel

end Library

end RecordGraph
