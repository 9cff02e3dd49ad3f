/-
# What a built query selects

A query is built by appending predicates to a group, in three layers: the owner's base
conditions, the callers' conditions under their logic, and blocks of conditions. This module
reads the result back record by record: each layer narrows what the layers before it select,
and the callers' layer is the truth value of its compiled logic.

Nothing here depends on how the logic text is spelled; only its compiled form matters.
-/
import RecordGraph.Proofs.FilledGroups

namespace RecordGraph

/-! ## Conditions -/

/-- Whether a record meets a condition. A record without a value in the field meets only a
denial, and that only if the field may be absent. -/
def Condition.holds (c : Condition) (r : Record) : Bool :=
  if (r.valuesAt c.field).isEmpty then c.operator.isNegation && c.fieldMayBeAbsent
  else c.operator.holdsOf (r.valuesAt c.field) c.value

/-- The predicate of a condition selects the records that meet the condition. -/
theorem Condition.holds_toPredicate (c : Condition) (r : Record) :
    c.toPredicate.holds r = c.holds r := by
  unfold toPredicate holds
  by_cases hwidened : (c.operator.isNegation && c.fieldMayBeAbsent) = true
  · by_cases hempty : (r.valuesAt c.field).isEmpty = true
    · simp [hwidened, hempty, Predicate.holds, Predicate.holdEach_eq_map, Conjunction.eval]
    · simp [hwidened, hempty, Predicate.holds, Predicate.holdEach_eq_map, Conjunction.eval]
  · by_cases hempty : (r.valuesAt c.field).isEmpty = true
    · simp [hwidened, hempty, Predicate.holds]
    · simp [hwidened, hempty, Predicate.holds]

namespace PredicateGroup

theorem holds_empty_and (r : Record) : (empty .and).holds r = true := by
  simp [holds_eq_eval, Conjunction.eval]

/-- What is appended to an AND group narrows it. -/
theorem holds_add_of_and {g : PredicateGroup} (hand : g.conjunction = .and) (p : Predicate)
    (r : Record) : (g.add p).holds r = (g.holds r && p.holds r) := by
  simp [holds_eq_eval, hand, Conjunction.eval]

end PredicateGroup

namespace StoreQuery

/-- Tagging a store query changes its tags only. -/
theorem foldl_addTag (tags : List String) (q : StoreQuery) : tags.foldl addTag q =
    { q with tags := tags.foldl (fun ts t => insertText t ts) q.tags } := by
  induction tags generalizing q with
  | nil => rfl
  | cons t rest ih => exact ih (q.addTag t)

theorem mem_foldl_insertText (tags : List String) (u : String) (ts : List String) :
    u ∈ tags.foldl (fun ts t => insertText t ts) ts ↔ u ∈ ts ∨ u ∈ tags := by
  induction tags generalizing ts with
  | nil => simp
  | cons t rest ih =>
      rw [List.foldl_cons, ih, mem_insertText, List.mem_cons]
      exact or_assoc.trans or_left_comm

end StoreQuery

/-! ## The layers of a query -/

namespace Query

/-- Whether a record meets the callers' condition at a position. -/
def conditionHolds (q : Query) (r : Record) (i : Nat) : Bool :=
  (q.conditions[i]?).any (·.holds r)

/-- The compiled logic over the callers' conditions. With neither conditions nor logic there
is no expression. -/
def callerLogic (q : Query) : Except Error (List Logic.Expr) :=
  if q.conditions.isEmpty && q.logic.isNone then .ok [] else q.callerGroup.compile

theorem callerLogic_eq_expressions (q : Query) : q.callerLogic = q.callerGroup.expressions := by
  rw [callerLogic, ConditionGroup.expressions, callerGroup, List.isEmpty_map]

/-- The base layer selects the records that meet every base condition. -/
theorem holds_base_layer {cs : List Condition} {g g' : PredicateGroup}
    (hand : g.conjunction = .and)
    (h : cs.foldlM (fun root c => c.applyOn root) g = .ok g') :
    g'.conjunction = .and ∧
      ∀ r, g'.holds r = true ↔ g.holds r = true ∧ ∀ c ∈ cs, c.holds r = true := by
  induction cs generalizing g with
  | nil =>
      obtain rfl : g = g' := Except.ok.inj h
      simp [hand]
  | cons c rest ih =>
      rw [List.foldlM_cons, except_bind_eq_ok] at h
      obtain ⟨between, happly, hrest⟩ := h
      have hadd := (Condition.applyOn_eq_ok.mp happly).2
      obtain ⟨hconj, hothers⟩ := ih (by rw [hadd]; exact hand) hrest
      refine ⟨hconj, fun r => ?_⟩
      rw [hothers r, hadd, PredicateGroup.holds_add_of_and hand, Condition.holds_toPredicate]
      simp [and_assoc]

/-- A caller's condition that the logic names adds its predicate, which is met where the
condition is. -/
theorem map_addedAt_callers {q : Query} {i : Nat} (hi : i < q.conditions.length)
    (hnamed : ∀ f, (ConditionEntry.fillings q.callerGroup.entries)[i]? = some f →
      f.Adds f.added) (r : Record) :
    (Logic.addedAt (ConditionEntry.fillings q.callerGroup.entries) i).map (·.holds r) =
      [q.conditionHolds r i] := by
  have hcondition : q.conditions[i]? = some q.conditions[i] := List.getElem?_eq_getElem hi
  have hfilling : (ConditionEntry.fillings q.callerGroup.entries)[i]? =
      some q.conditions[i].fill := by
    rw [ConditionEntry.fillings_eq_map, callerGroup, List.map_map, List.getElem?_map, hcondition,
      Option.map_some, Function.comp_apply, ConditionEntry.fill]
  have hadds := Condition.adds_fill (hnamed _ hfilling (PredicateGroup.empty .and))
  rw [Logic.addedAt, hfilling, Option.map_some, Option.getD_some, hadds.added_eq,
    List.map_singleton, Condition.holds_toPredicate, conditionHolds, hcondition, Option.any_some]

/-- The callers' layer selects, of an AND group, the records for which every expression of
the compiled logic is true. -/
theorem holds_caller_layer {q : Query} {g g' : PredicateGroup} (hand : g.conjunction = .and)
    (h : q.callerGroup.applyOn g = .ok g') :
    g'.conjunction = .and ∧ ∃ es, q.callerLogic = .ok es ∧
      ∀ r, g'.holds r = true ↔
        g.holds r = true ∧ ∀ e ∈ es, e.eval (q.conditionHolds r) = true := by
  obtain ⟨es, hes, rfl, hnamed⟩ := ConditionGroup.spliced_of_applyOn h
  refine ⟨hand, es, q.callerLogic_eq_expressions.trans hes, fun r => ?_⟩
  have hbound : ∀ i ∈ Logic.indicesOf es, i < q.conditions.length := by
    simpa [callerGroup] using ConditionGroup.indicesOf_lt_of_expressions hes
  have htruths : (Logic.spliceEach .group
      (Logic.addedAt (ConditionEntry.fillings q.callerGroup.entries)) es).map (·.holds r) =
        Logic.spliceEach Conjunction.eval (fun i => [q.conditionHolds r i]) es :=
    Logic.map_holds_spliceEach fun i hi => map_addedAt_callers (hbound i hi) (hnamed i hi) r
  -- a condition has one truth value, so the logic may name it under OR
  have hlogic : Conjunction.and.eval
      (Logic.spliceEach Conjunction.eval (fun i => [q.conditionHolds r i]) es) =
        Conjunction.and.eval (Logic.evalEach (q.conditionHolds r) es) :=
    Logic.eval_spliceEach es .and (by simp) (by simp)
  rw [PredicateGroup.holds_eq_eval, List.map_append, htruths, hand, Conjunction.eval_append,
    hlogic, ← hand, ← g.holds_eq_eval, Logic.evalEach_eq_map, hand]
  simp [Conjunction.eval]

/-- A block narrows an AND group to the records that the block alone selects. -/
theorem holds_block_layer {block : ConditionGroup} {g g' : PredicateGroup}
    (hand : g.conjunction = .and) (h : appendBlock block g = .ok g') :
    g'.conjunction = .and ∧ ∃ alone, block.applyOn (PredicateGroup.empty .and) = .ok alone ∧
      ∀ r, g'.holds r = true ↔ g.holds r = true ∧ alone.holds r = true := by
  unfold appendBlock at h
  rw [except_bind_eq_ok] at h
  obtain ⟨alone, halone, hanswer⟩ := h
  have hconj := ConditionGroup.conjunction_applyOn halone
  rw [except_pure_eq_ok] at hanswer
  by_cases hempty : alone.isEmpty = true
  · have hnone : alone.members = [] := List.isEmpty_iff.mp hempty
    rw [if_pos hempty] at hanswer
    subst hanswer
    refine ⟨hand, alone, halone, fun r => ?_⟩
    simp [alone.holds_eq_eval, hconj, hnone, Conjunction.eval]
  · rw [if_neg hempty] at hanswer
    subst hanswer
    refine ⟨hand, alone, halone, fun r => ?_⟩
    rw [PredicateGroup.holds_add_of_and hand, Bool.and_eq_true]
    rfl

/-- The blocks narrow an AND group to the records that each block alone selects. -/
theorem holds_block_layers {blocks : List ConditionGroup} {g g' : PredicateGroup}
    (hand : g.conjunction = .and)
    (h : blocks.foldlM (fun root block => appendBlock block root) g = .ok g') (r : Record) :
    g'.holds r = true ↔ g.holds r = true ∧ ∀ block ∈ blocks,
      ∃ alone, block.applyOn (PredicateGroup.empty .and) = .ok alone ∧ alone.holds r = true := by
  induction blocks generalizing g with
  | nil =>
      obtain rfl : g = g' := Except.ok.inj h
      simp
  | cons block rest ih =>
      rw [List.foldlM_cons, except_bind_eq_ok] at h
      obtain ⟨between, happend, hrest⟩ := h
      obtain ⟨hconj, alone, halone, hholds⟩ := holds_block_layer hand happend
      rw [ih hconj hrest, hholds r]
      simp [halone, and_assoc]

theorem buildRoot_of_build {q : Query} {built : StoreQuery} (h : q.build = .ok built) :
    q.buildRoot = .ok built.root := by
  unfold build at h
  rw [except_bind_eq_ok] at h
  obtain ⟨root, hroot, hanswer⟩ := h
  simp only [except_pure_eq_ok, StoreQuery.foldl_addTag] at hanswer
  rw [hroot, hanswer]
  cases q.accessPolicy with
  | none => rfl
  | some policy => rfl

/-- The root of a built query selects exactly the records that meet every base condition, for
which every expression of the compiled caller logic is true, and which each block selects on
its own. -/
theorem holds_root_iff {q : Query} {built : StoreQuery} (h : q.build = .ok built) (r : Record) :
    built.root.holds r = true ↔
      (∀ c ∈ q.baseConditions, c.holds r = true) ∧
      (∃ es, q.callerLogic = .ok es ∧ ∀ e ∈ es, e.eval (q.conditionHolds r) = true) ∧
      (∀ block ∈ q.groups, ∃ alone,
        block.applyOn (PredicateGroup.empty .and) = .ok alone ∧ alone.holds r = true) := by
  have hroot := buildRoot_of_build h
  unfold buildRoot at hroot
  simp only [except_bind_eq_ok] at hroot
  obtain ⟨base, hbase, callers, hcallers, hblocks⟩ := hroot
  obtain ⟨hconjBase, hholdsBase⟩ := holds_base_layer rfl hbase
  obtain ⟨hconjCallers, es, hlogic, hholdsCallers⟩ := holds_caller_layer hconjBase hcallers
  rw [holds_block_layers hconjCallers hblocks r, hholdsCallers r, hholdsBase r]
  simp [hlogic, PredicateGroup.holds_empty_and, and_assoc]

/-- Whether a record meets what the three layers of a query ask together: the owner's
conditions, the callers' logic and the blocks. -/
def meets (q : Query) (r : Record) : Bool :=
  q.baseConditions.all (·.holds r) &&
    q.callerLogic.toOption.any (fun es => es.all (·.eval (q.conditionHolds r))) &&
    q.groups.all fun block =>
      (block.applyOn (PredicateGroup.empty .and)).toOption.any (·.holds r)

theorem holds_root_eq_meets {q : Query} {built : StoreQuery} (h : q.build = .ok built)
    (r : Record) : built.root.holds r = q.meets r := by
  have hanswered : ∀ {α : Type} (x : Except Error α) (p : α → Bool),
      x.toOption.any p = true ↔ ∃ a, x = .ok a ∧ p a = true := by
    intro α x p
    cases x with
    | error e => simp [Except.toOption]
    | ok a => simp [Except.toOption]
  rw [Bool.eq_iff_iff, holds_root_iff h, meets]
  simp only [Bool.and_eq_true, List.all_eq_true, hanswered, and_assoc]

theorem base_of_meets {q : Query} {r : Record} (h : q.meets r = true) :
    q.baseConditions.all (·.holds r) = true := by
  rw [meets, Bool.and_eq_true, Bool.and_eq_true] at h
  exact h.1.1

/-- One more condition of the owner narrows the query by this condition. -/
theorem meets_addBase (q : Query) (c : Condition) (r : Record) :
    (q.addBase c).meets r = (q.meets r && c.holds r) := by
  have hbase : (q.addBase c).baseConditions.all (·.holds r) =
      (q.baseConditions.all (·.holds r) && c.holds r) := by
    simp [addBase]
  have hcallers : (q.addBase c).callerLogic = q.callerLogic := rfl
  have hholds : (q.addBase c).conditionHolds r = q.conditionHolds r := rfl
  have hblocks : (q.addBase c).groups = q.groups := rfl
  rw [meets, meets, hbase, hcallers, hholds, hblocks]
  ac_rfl

/-- A built query selects what its three layers select together. So nothing that a caller
adds, or that is copied from another query, lets in a record that the owner's base conditions
exclude. -/
theorem build_selects_within_base {q : Query} {built : StoreQuery} (h : q.build = .ok built)
    (r : Record) :
    (built.root.holds r = true ↔
      (∀ c ∈ q.baseConditions, c.holds r = true) ∧
      (∃ es, q.callerLogic = .ok es ∧ ∀ e ∈ es, e.eval (q.conditionHolds r) = true) ∧
      (∀ block ∈ q.groups, ∃ alone,
        block.applyOn (PredicateGroup.empty .and) = .ok alone ∧ alone.holds r = true)) ∧
    (∀ owner callers : Query, q = owner.copyFrom callers → built.root.holds r = true →
      ∀ c ∈ owner.baseConditions, c.holds r = true) := by
  refine ⟨holds_root_iff h r, ?_⟩
  rintro owner callers rfl hholds
  exact ((holds_root_iff h r).mp hholds).1

/-- Articles whose title or author is asked for by the logic of a copied query, and a block
that lets only unlocked ones pass. -/
def articleSearch : Query :=
  (ofBundle "node" "article").copyFrom
    { new "node" with
      conditions := [.eq "title" (.text "draft"), .ne "author" (.text "anna")]
      logic := some "OR(1,AND(2,7))"
      conjunction := .or
      groups := [⟨[.condition (.ne "locked" (.text "yes"))], none, .or⟩] }

/-- An article without a title, an author or a lock. -/
def bareArticle : Record := ⟨some "1", "node", "article", []⟩

/-- The search selects an article without fields, by its widened denials, but no page,
whatever the page's title. -/
theorem articleSearch_selects : ∃ built, articleSearch.build = .ok built ∧
    built.root.holds bareArticle = true ∧
    built.root.holds ⟨some "2", "node", "page", [("title", .text "draft")]⟩ = false := by
  have hbuilds : articleSearch.build.toOption.isSome = true := by decide +kernel
  have hlogic : articleSearch.callerLogic.toOption.any
      (fun es => es.all (·.eval (articleSearch.conditionHolds bareArticle))) = true := by
    decide +kernel
  have hblocks : articleSearch.groups.all (fun block =>
      (block.applyOn (PredicateGroup.empty .and)).toOption.any (·.holds bareArticle)) = true := by
    decide +kernel
  cases hbuild : articleSearch.build with
  | error e => simp [hbuild, Except.toOption] at hbuilds
  | ok built =>
      refine ⟨built, rfl, (build_selects_within_base hbuild bareArticle).1.mpr ⟨?_, ?_, ?_⟩, ?_⟩
      · have hbase : articleSearch.baseConditions.all (·.holds bareArticle) = true := by
          decide +kernel
        simpa using hbase
      · cases hcompiled : articleSearch.callerLogic with
        | error e => simp [hcompiled, Except.toOption] at hlogic
        | ok es => exact ⟨es, rfl, by simpa [hcompiled, Except.toOption] using hlogic⟩
      · intro block hblock
        have halone := List.all_eq_true.mp hblocks block hblock
        cases happly : block.applyOn (PredicateGroup.empty .and) with
        | error e => simp [happly, Except.toOption] at halone
        | ok alone => exact ⟨alone, rfl, by simpa [happly, Except.toOption] using halone⟩
      · rw [Bool.eq_false_iff]
        intro hholds
        have hbundle := (build_selects_within_base hbuild _).2 _ _ rfl hholds
          (.eq bundleField (.text "article")) (by simp [ofBundle, addBase])
        exact absurd hbundle (by decide +kernel)

end Query

end RecordGraph
