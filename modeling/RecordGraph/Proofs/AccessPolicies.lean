/-
# Access policies on the way to the store

Whether a policy is applied is read off a tag of the query; which one it is stands in a field
of its own. Everything that makes a store query keeps the two in step, with one exception: a
document may name a policy and leave the tag out, and the query read from it reaches the store
as it is. So the law of this module is about queries that were made from documents in step,
among other things, and says that a policy that is named is never passed over.

Nothing is assumed about what a policy makes of a query, nor about the store.
-/
import RecordGraph.Document.Query
import RecordGraph.Proofs.OrderedMaps
import RecordGraph.Proofs.QueryMeaning
import RecordGraph.Proofs.Upholding.Histories

namespace RecordGraph

/-! ## Name and tag in step -/

namespace StoreQuery

/-- A query that names an access policy is tagged for it. -/
def InStep (q : StoreQuery) : Prop :=
  ∀ name, q.accessPolicy = some name → q.hasTag accessPolicyTag = true

/-- The queries that can be made: built up step by step, built from a query with layers, or read
from one of the documents at hand. -/
inductive Made (documents : Value → Prop) : StoreQuery → Prop
  /-- All records of an entity type. -/
  | new (entityType : String) : Made documents (.new entityType)
  /-- What a record must meet can be set to anything. -/
  | withRoot {q : StoreQuery} (h : Made documents q) (root : PredicateGroup) :
      Made documents { q with root := root }
  /-- One more path to sort by. -/
  | sort {q : StoreQuery} (h : Made documents q) (path : String) (d : SortDirection) :
      Made documents (q.sort path d)
  /-- Another range. -/
  | withRange {q : StoreQuery} (h : Made documents q) (start length : Nat) :
      Made documents (q.withRange start length)
  /-- Only the number of records. -/
  | count {q : StoreQuery} (h : Made documents q) : Made documents q.count
  /-- One more tag. -/
  | addTag {q : StoreQuery} (h : Made documents q) (tag : String) : Made documents (q.addTag tag)
  /-- An access policy, in place of the one before. -/
  | withAccessPolicy {q : StoreQuery} (h : Made documents q) (policy : String) :
      Made documents (q.withAccessPolicy policy)
  /-- A query with layers, however it was put together. -/
  | build {q : Query} {built : StoreQuery} (h : q.build = .ok built) : Made documents built
  /-- A document. -/
  | decoded {v : Value} {q : StoreQuery} (hv : documents v) (h : ofDocument? v = some q) :
      Made documents q

theorem hasTag_addTag {q : StoreQuery} {tag : String} (h : q.hasTag tag = true) (other : String) :
    (q.addTag other).hasTag tag = true := by
  simp only [hasTag, addTag, List.contains_iff_mem, mem_insertText] at h ⊢
  exact .inr h

theorem InStep.addTag {q : StoreQuery} (h : q.InStep) (tag : String) : (q.addTag tag).InStep :=
  fun name hname => hasTag_addTag (h name hname) tag

theorem inStep_withAccessPolicy (q : StoreQuery) (policy : String) :
    (q.withAccessPolicy policy).InStep :=
  fun _ _ => hasTag_withAccessPolicy q policy

/-- A built query is tagged for the policy that its query names. -/
theorem inStep_of_build {q : Query} {built : StoreQuery} (h : q.build = .ok built) :
    built.InStep := by
  have htagged : ∀ (tags : List String) (plain : StoreQuery), plain.InStep →
      (tags.foldl StoreQuery.addTag plain).InStep := by
    intro tags
    induction tags with
    | nil => exact fun plain hplain => hplain
    | cons tag rest ih => exact fun plain hplain => ih _ (hplain.addTag tag)
  unfold Query.build at h
  rw [except_bind_eq_ok] at h
  obtain ⟨root, -, hanswer⟩ := h
  rw [except_pure_eq_ok] at hanswer
  rw [hanswer]
  apply htagged
  cases q.accessPolicy with
  | none =>
      intro name hname
      cases hname
  | some policy => exact inStep_withAccessPolicy _ policy

/-- What is made from documents in step is in step. -/
theorem Made.inStep {documents : Value → Prop}
    (hdocuments : ∀ v, documents v → ∀ q, ofDocument? v = some q → q.InStep)
    {q : StoreQuery} (h : q.Made documents) : q.InStep := by
  induction h with
  | new entityType =>
      intro name hname
      cases hname
  | withRoot _ _ ih => exact ih
  | sort _ _ _ ih => exact ih
  | withRange _ _ _ ih => exact ih
  | count _ ih => exact ih
  | addTag _ tag ih => exact ih.addTag tag
  | withAccessPolicy _ policy _ => exact inStep_withAccessPolicy _ policy
  | build h => exact inStep_of_build h
  | decoded hv h => exact hdocuments _ hv _ h

end StoreQuery

/-! ## The policies of a session -/

namespace AccessPolicy

/-- The policy that a name stands for after several were registered one after the other: the
last one of that name. -/
def named? (ps : List AccessPolicy) (name : String) : Option AccessPolicy :=
  ps.reverse.find? (·.name == name)

theorem get?_insertAll_name (ps : List AccessPolicy) (name : String) :
    (OrderedMap.empty.insertAll AccessPolicy.name ps).get? name = named? ps name := by
  induction ps using List.reverseRecOn with
  | nil => rfl
  | append_singleton ps p ih =>
      have hlast : named? (ps ++ [p]) name = if p.name = name then some p else named? ps name := by
        rw [named?, List.reverse_append, List.reverse_singleton, List.singleton_append,
          List.find?_cons]
        by_cases hname : p.name = name
        · simp [hname]
        · simp [beq_false_of_ne hname, hname, named?]
      rw [OrderedMap.insertAll_concat, OrderedMap.get?_insert, ih, hlast]

theorem named?_eq_none_iff {ps : List AccessPolicy} {name : String} :
    named? ps name = none ↔ ∀ p ∈ ps, p.name ≠ name := by
  simp [named?]

end AccessPolicy

section Running

variable {σ : Type} {g g' : Graph σ} {s : Session}

/-- Registering policies files them by name. -/
theorem Session.policies_registerPolicy {ps : List AccessPolicy}
    (h : Returns (ps.forM s.registerPolicy) g ⟨⟩ g') : (g'.session s).policies =
      (g.session s).policies.insertAll AccessPolicy.name ps := by
  refine h.forM_invariant (fun done t => (t.session s).policies =
    (g.session s).policies.insertAll AccessPolicy.name done) rfl ?_
  intro done p rest t t' _ hdone hturn
  rw [registerPolicy, returns_update] at hturn
  rw [hturn, Graph.session_setSession, if_pos rfl, OrderedMap.insertAll_concat, hdone]

/-- What becomes of a query in step that names a policy. -/
theorem Session.run_prepare {q : StoreQuery} (hstep : q.InStep) {name : String}
    (hname : q.accessPolicy = some name) {ps : List AccessPolicy}
    (hpolicies : (g.session s).policies = OrderedMap.empty.insertAll AccessPolicy.name ps) :
    s.prepare q g = ((match AccessPolicy.named? ps name with
      | none => .error (.configuration (.unknownPolicy name))
      | some policy => policy.apply q), g) := by
  have hknown : (g.session s).policies.get? name = AccessPolicy.named? ps name := by
    rw [hpolicies, AccessPolicy.get?_insertAll_name]
  rw [prepare_eq, if_pos (hstep name hname)]
  cases hnamed : AccessPolicy.named? ps name with
  | none => simp only [hname, hknown, hnamed]
  | some policy => simp only [hname, hknown, hnamed]

variable [RecordStore σ]

/-- However a query is run, the store gets one call, for another query. -/
def Session.RunsAs (s : Session) (q rewritten : StoreQuery) (g : Graph σ) : Prop :=
  s.execute q g = Action.call (RecordStore.execute rewritten) g ∧
    s.count q g = Action.call (RecordStore.count rewritten) g ∧
      ∀ a, s.aggregate q a g = Action.call (RecordStore.aggregate rewritten a) g

/-- However a query is run, it fails and nothing is called or changed. -/
def Session.Refuses (s : Session) (q : StoreQuery) (e : Error) (g : Graph σ) : Prop :=
  s.execute q g = (.error e, g) ∧ s.count q g = (.error e, g) ∧
    ∀ a, s.aggregate q a g = (.error e, g)

theorem Session.runsAs_of_prepare {q rewritten : StoreQuery}
    (h : s.prepare q g = (.ok rewritten, g)) : s.RunsAs q rewritten g := by
  refine ⟨?_, ?_, fun a => ?_⟩
  · rw [execute, run_bind, h]
  · rw [count, run_bind, h]
  · rw [aggregate, run_bind, h]

theorem Session.refuses_of_prepare {q : StoreQuery} {e : Error}
    (h : s.prepare q g = (.error e, g)) : s.Refuses q e g := by
  refine ⟨?_, ?_, fun a => ?_⟩
  · rw [execute, run_bind, h]
  · rw [count, run_bind, h]
  · rw [aggregate, run_bind, h]

/-- A query goes to the store as the policy of that name rewrote it. It does not go there if the
policy fails or there is none. -/
def Session.Applies (s : Session) (ps : List AccessPolicy) (name : String) (q : StoreQuery)
    (g : Graph σ) : Prop :=
  (∃ policy rewritten, AccessPolicy.named? ps name = some policy ∧
      policy.apply q = .ok rewritten ∧ s.RunsAs q rewritten g) ∨
    (∃ policy e, AccessPolicy.named? ps name = some policy ∧
      policy.apply q = .error e ∧ s.Refuses q e g) ∨
    ((∀ p ∈ ps, p.name ≠ name) ∧ s.Refuses q (.configuration (.unknownPolicy name)) g)

/-- A query that names an access policy reaches the store only as the policy registered under
that name rewrote it, if the documents that queries are read from name no policy without the
tag. -/
theorem Session.applies_named_policy {documents : Value → Prop}
    (hdocuments : ∀ v, documents v → ∀ q, StoreQuery.ofDocument? v = some q → q.InStep)
    {q : StoreQuery} (hmade : q.Made documents) {name : String}
    (hname : q.accessPolicy = some name) {ps : List AccessPolicy}
    (hpolicies : (g.session s).policies = OrderedMap.empty.insertAll AccessPolicy.name ps) :
    s.Applies ps name q g := by
  have hprepare := run_prepare (hmade.inStep hdocuments) hname hpolicies
  cases hfound : AccessPolicy.named? ps name with
  | none =>
      rw [hfound] at hprepare
      exact .inr (.inr ⟨AccessPolicy.named?_eq_none_iff.mp hfound, refuses_of_prepare hprepare⟩)
  | some policy =>
      rw [hfound] at hprepare
      cases happly : policy.apply q with
      | ok rewritten =>
          exact .inl ⟨policy, rewritten, hfound, happly, runsAs_of_prepare (happly ▸ hprepare)⟩
      | error e =>
          exact .inr (.inl ⟨policy, e, hfound, happly, refuses_of_prepare (happly ▸ hprepare)⟩)

end Running

namespace Library

/-- Everybody gets the orders that they own; here that is Ann. -/
def ownOrders : AccessPolicy :=
  ⟨"own_orders", fun q => .ok (q.add (.compare "owner" .equal (.text "ann")))⟩

/-- An order of Bob's. -/
def orders : MemoryStore :=
  (MemoryStore.empty.seed (((Record.new "order" "order").withId "lamp").set "owner"
    (.text "bob"))).2

/-- The order, with a session that has not been told of a policy. -/
def counter : Graph MemoryStore :=
  (Session.start ⟨"PLH", .and, none, false⟩ (Graph.new orders Registry.empty)).2

/-- The order, with a session that knows the policy. -/
def policed : Graph MemoryStore := ([ownOrders].forM session.registerPolicy counter).2

theorem policies_policed : (policed.session session).policies =
    OrderedMap.empty.insertAll AccessPolicy.name [ownOrders] := by
  have hregistered : Returns ([ownOrders].forM session.registerPolicy) counter ⟨⟩ policed :=
    returns_of_isOk (by decide +kernel) ⟨⟩
  exact Session.policies_registerPolicy hregistered

/-- A document that asks for all orders under the policy. -/
def request (tags : List String) : Value :=
  StoreQuery.toDocument ⟨"order", PredicateGroup.empty .and, [], none, false, tags,
    some "own_orders"⟩

/-- The query read from such a document. -/
def requested (tags : List String) : StoreQuery :=
  (StoreQuery.ofDocument? (request tags)).getD default

theorem ofDocument?_request (tags : List String)
    (h : (StoreQuery.ofDocument? (request tags)).isSome = true) :
    StoreQuery.ofDocument? (request tags) = some (requested tags) := by
  rw [requested, Option.getD_eq_iff.mpr (.inl (Option.some_get h).symm), Option.some_get]

/-- A tagged document that asks for the number of orders does not have Bob's order counted. -/
theorem requested_policed :
    (requested [accessPolicyTag]).count.accessPolicy = some "own_orders" ∧
      session.Applies [ownOrders] "own_orders" (requested [accessPolicyTag]).count policed ∧
      (session.count (requested [accessPolicyTag]).count policed).1.toOption = some 0 := by
  have hread := ofDocument?_request [accessPolicyTag] (by decide +kernel)
  have hnames : (requested [accessPolicyTag]).accessPolicy = some "own_orders" := by
    decide +kernel
  have htagged : (requested [accessPolicyTag]).hasTag accessPolicyTag = true := by
    decide +kernel
  have hmade : (requested [accessPolicyTag]).count.Made (· = request [accessPolicyTag]) :=
    .count (.decoded rfl hread)
  refine ⟨hnames, Session.applies_named_policy ?_ hmade hnames policies_policed,
    by decide +kernel⟩
  rintro v rfl q hq name -
  obtain rfl := Option.some.inj (hread.symm.trans hq)
  exact htagged

/-- A document without the tag gets Bob's order. -/
theorem requested_not_policed :
    ¬ ∀ (q : StoreQuery) (name : String) (ps : List AccessPolicy) (s : Session)
      (g : Graph MemoryStore), q.Made (fun _ => True) → q.accessPolicy = some name →
        (g.session s).policies = OrderedMap.empty.insertAll AccessPolicy.name ps →
          s.Applies ps name q g := by
  intro hpoliced
  have hread := ofDocument?_request [] (by decide +kernel)
  obtain ⟨policy, rewritten, hfound, happly, hexecute, -⟩ | ⟨policy, e, hfound, happly, -⟩ |
      ⟨hunknown, -⟩ := hpoliced (requested []) "own_orders" [ownOrders] session policed
    (.decoded trivial hread) (by decide +kernel) policies_policed
  · obtain rfl : ownOrders = policy := Option.some.inj hfound
    obtain rfl := Except.ok.inj happly
    exact absurd (congrArg (fun answer => answer.1.toOption) hexecute) (by decide +kernel)
  · obtain rfl : ownOrders = policy := Option.some.inj hfound
    cases happly
  · exact hunknown ownOrders (by simp) rfl

end Library

end RecordGraph
