/-
# Queries with a caller's query copied onto them

What a caller sets in a query is copied by appending: the conditions of both stand in one list,
under one logic or one conjunction, and the base conditions stay with their owner. Logic
addresses conditions by their position in that list, so the copied query asks for what both
queries ask for only if one logic can speak for both. `JoinsWith` says when it can. Otherwise
the copied query follows the caller's logic, or else the owner's, or else the caller's
conjunction, over the conditions of both.
-/
import RecordGraph.Proofs.NumberedConditions
import RecordGraph.Proofs.QueryMeaning
import RecordGraph.Proofs.WrittenLogic

namespace RecordGraph

namespace Query

/-! ## The callers' part of a query -/

/-- Whether a record meets the callers' conditions under their logic. -/
def callersHold (q : Query) (r : Record) : Bool :=
  q.callerLogic.toOption.any fun es => es.all (·.eval (q.conditionHolds r))

/-- Whether a record meets each block of conditions. -/
def blocksHold (q : Query) (r : Record) : Bool :=
  q.groups.all fun block => (block.applyOn (PredicateGroup.empty .and)).toOption.any (·.holds r)

/-- Whether a record meets everything in a query that its callers set: their conditions under
their logic, and the blocks. -/
def meetsCallers (q : Query) (r : Record) : Bool := q.callersHold r && q.blocksHold r

theorem meets_eq_base_and_meetsCallers (q : Query) (r : Record) :
    q.meets r = (q.baseConditions.all (·.holds r) && q.meetsCallers r) :=
  Bool.and_assoc _ _ _

/-- A query that can be built has callers' logic that compiles. -/
theorem exists_callerLogic_of_build {q : Query} {built : StoreQuery} (h : q.build = .ok built) :
    ∃ es, q.callerLogic = .ok es := by
  have hroot := buildRoot_of_build h
  unfold buildRoot at hroot
  simp only [except_bind_eq_ok] at hroot
  obtain ⟨base, hbase, callers, hcallers, -⟩ := hroot
  obtain ⟨-, es, hlogic, -⟩ := holds_caller_layer (holds_base_layer rfl hbase).1 hcallers
  exact ⟨es, hlogic⟩

variable {own callers q : Query} {r : Record}

theorem callersHold_of_callerLogic {es : List Logic.Expr} (h : q.callerLogic = .ok es) :
    q.callersHold r = es.all (·.eval (q.conditionHolds r)) := by
  simp [callersHold, h, Except.toOption]

/-- Conditions without logic are combined by the conjunction; no conditions ask for nothing. -/
theorem callersHold_of_logic_eq_none (hlogic : q.logic = none)
    (hcompiles : ∃ es, q.callerLogic = .ok es) :
    q.callersHold r =
      (q.conditions.isEmpty || q.conjunction.eval (q.conditions.map (·.holds r))) := by
  obtain ⟨es, hes⟩ := hcompiles
  rw [callersHold_of_callerLogic hes]
  by_cases hnothing : q.conditions.isEmpty = true
  · simp only [callerLogic, hnothing, hlogic, Option.isNone_none, Bool.and_self, if_true,
      Except.ok.injEq] at hes
    simp [← hes, hnothing]
  · have hwritten : Logic.compile (Logic.defaultText q.conjunction q.conditions.length)
        q.conditions.length = .ok es := by
      simpa [callerLogic, hnothing, callerGroup, ConditionGroup.compile,
        ConditionGroup.compileLogic, hlogic] using hes
    have hsome : q.conditions.length ≠ 0 := by
      simpa [List.isEmpty_iff] using hnothing
    rw [Logic.compile_defaultText q.conjunction (Logic.le_wordMax_of_compile hwritten),
      Nat.min_self, if_neg hsome, Except.ok.injEq] at hwritten
    have hholds : Logic.evalEach (q.conditionHolds r)
        ((List.range q.conditions.length).map .condition) = q.conditions.map (·.holds r) := by
      rw [Logic.evalEach_eq_map, List.map_map]
      refine List.ext_getElem (by simp) fun i hi hi' => ?_
      simp only [List.length_map] at hi'
      simp [Logic.Expr.eval, conditionHolds, List.getElem?_eq_getElem hi']
    simp [← hwritten, Logic.Expr.eval, hholds, hnothing]

/-- Without conditions the callers' logic asks for nothing. -/
theorem callersHold_of_conditions_eq_nil (hconditions : q.conditions = [])
    (hcompiles : ∃ es, q.callerLogic = .ok es) : q.callersHold r = true := by
  obtain ⟨es, hes⟩ := hcompiles
  rw [callersHold_of_callerLogic hes]
  cases hlogic : q.logic with
  | none =>
      simp only [callerLogic, hconditions, hlogic, List.isEmpty_nil, Option.isNone_none,
        Bool.and_self, if_true, Except.ok.injEq] at hes
      simp [← hes]
  | some text =>
      have hcompiled : Logic.compile text 0 = .ok es := by
        simpa [callerLogic, hconditions, hlogic, callerGroup, ConditionGroup.compile,
          ConditionGroup.compileLogic] using hes
      simp [Logic.eq_nil_of_compile_zero hcompiled]

/-- The callers' part depends on the conditions and the logic only, and on the conjunction if
there is no logic. -/
theorem callersHold_congr {p : Query} (hconditions : p.conditions = q.conditions)
    (hlogic : p.logic = q.logic) (hconj : q.logic = none → p.conjunction = q.conjunction) :
    p.callersHold r = q.callersHold r := by
  have hholds : p.conditionHolds r = q.conditionHolds r := by
    funext i
    rw [conditionHolds, conditionHolds, hconditions]
  have hcompiled : p.callerLogic = q.callerLogic := by
    simp only [callerLogic, callerGroup, ConditionGroup.compile, ConditionGroup.compileLogic,
      hconditions, hlogic]
    cases hnone : q.logic with
    | none => rw [hconj hnone]
    | some text => rfl
  rw [callersHold, callersHold, hholds, hcompiled]

/-! ## Copying -/

/-- One logic can speak for the callers' parts of two queries: only one of the two has
conditions, and the logic or conjunction that is kept is the one for them; or neither has logic
and all conditions must hold anyway. -/
def JoinsWith (own callers : Query) : Prop :=
  (own.conditions = [] ∧ (own.logic = none ∨ callers.logic ≠ none)) ∨
  (callers.conditions = [] ∧ callers.logic = none ∧
    (own.logic ≠ none ∨ own.conjunction = callers.conjunction ∨ own.conditions.length ≤ 1)) ∨
  (own.logic = none ∧ callers.logic = none ∧ callers.conjunction = .and ∧
    (own.conjunction = .and ∨ own.conditions.length ≤ 1))

/-- Conjunctions agree on at most one condition. -/
theorem isEmpty_or_eval_of_length_le_one {cs : List Condition} (h : cs.length ≤ 1)
    (c d : Conjunction) : (cs.isEmpty || c.eval (cs.map (·.holds r))) =
      (cs.isEmpty || d.eval (cs.map (·.holds r))) := by
  match cs, h with
  | [], _ => rfl
  | [only], _ => cases c <;> cases d <;> simp [Conjunction.eval]

/-- A conjunction of no conditions holds. -/
theorem isEmpty_or_eval_and (cs : List Condition) :
    (cs.isEmpty || Conjunction.and.eval (cs.map (·.holds r))) = cs.all (·.holds r) := by
  cases cs <;> simp [Conjunction.eval]

/-- The callers' conditions of a copied query hold when those of both queries do, if one logic
speaks for both. -/
theorem JoinsWith.callersHold_copyFrom (h : own.JoinsWith callers)
    (hown : ∃ es, own.callerLogic = .ok es) (hcallers : ∃ es, callers.callerLogic = .ok es)
    (hcopied : ∃ es, (own.copyFrom callers).callerLogic = .ok es) :
    (own.copyFrom callers).callersHold r = (own.callersHold r && callers.callersHold r) := by
  rcases h with ⟨hnone, hkept⟩ | ⟨hnone, hlogic, hkept⟩ | ⟨hownLogic, hlogic, hand, hkept⟩
  · -- only the caller has conditions, and its logic is kept
    rw [callersHold_of_conditions_eq_nil hnone hown, Bool.true_and]
    refine callersHold_congr (by simp [copyFrom, hnone]) ?_ fun _ => rfl
    cases hcallersLogic : callers.logic with
    | none => simpa [copyFrom, hcallersLogic] using hkept
    | some text => simp [copyFrom, hcallersLogic]
  · -- only the owner has conditions
    have hconditions : (own.copyFrom callers).conditions = own.conditions := by
      simp [copyFrom, hnone]
    have hkeptLogic : (own.copyFrom callers).logic = own.logic := by
      simp [copyFrom, hlogic]
    rw [callersHold_of_conditions_eq_nil hnone hcallers, Bool.and_true]
    by_cases hconj : own.logic = none → callers.conjunction = own.conjunction
    · exact callersHold_congr hconditions hkeptLogic hconj
    · obtain ⟨hownLogic, hdiffer⟩ := Classical.not_imp.mp hconj
      have hshort : own.conditions.length ≤ 1 := by
        rcases hkept with hsome | hsame | hshort
        · exact absurd hownLogic hsome
        · exact absurd hsame.symm hdiffer
        · exact hshort
      rw [callersHold_of_logic_eq_none (hkeptLogic.trans hownLogic) hcopied,
        callersHold_of_logic_eq_none hownLogic hown, hconditions]
      exact isEmpty_or_eval_of_length_le_one hshort _ _
  · -- all conditions of both must hold
    have hnoLogic : (own.copyFrom callers).logic = none := by
      simp [copyFrom, hlogic, hownLogic]
    have hownAll : own.callersHold r = own.conditions.all (·.holds r) := by
      rw [callersHold_of_logic_eq_none hownLogic hown]
      rcases hkept with hownAnd | hshort
      · rw [hownAnd, isEmpty_or_eval_and]
      · rw [isEmpty_or_eval_of_length_le_one hshort _ .and, isEmpty_or_eval_and]
    calc (own.copyFrom callers).callersHold r
        = ((own.conditions ++ callers.conditions).isEmpty ||
            Conjunction.and.eval ((own.conditions ++ callers.conditions).map (·.holds r))) := by
          rw [callersHold_of_logic_eq_none hnoLogic hcopied, ← hand]
          rfl
      _ = (own.conditions.all (·.holds r) && callers.conditions.all (·.holds r)) := by
          rw [isEmpty_or_eval_and, List.all_append]
      _ = (own.callersHold r && callers.callersHold r) := by
          rw [hownAll, callersHold_of_logic_eq_none hlogic hcallers, hand, isEmpty_or_eval_and]

/-- Whether a record meets the conditions of two queries in one list, the owner's first: under
the caller's logic, or else the owner's, or else the caller's conjunction. -/
def mergedHold (own callers : Query) (r : Record) : Bool :=
  let merged := own.conditions ++ callers.conditions
  match callers.logic.or own.logic with
  | some text => (Logic.compile text merged.length).toOption.any fun es =>
      es.all (·.eval fun i => (merged[i]?).any (·.holds r))
  | none => merged.isEmpty || callers.conjunction.eval (merged.map (·.holds r))

theorem callersHold_copyFrom (hcopied : ∃ es, (own.copyFrom callers).callerLogic = .ok es) :
    (own.copyFrom callers).callersHold r = own.mergedHold callers r := by
  have hlogic : (own.copyFrom callers).logic = callers.logic.or own.logic := by
    cases hcallersLogic : callers.logic with
    | none => simp [copyFrom, hcallersLogic]
    | some text => simp [copyFrom, hcallersLogic]
  unfold mergedHold
  cases hkept : callers.logic.or own.logic with
  | none => exact callersHold_of_logic_eq_none (hlogic.trans hkept) hcopied
  | some text =>
      simp only [callersHold, callerLogic, hlogic, hkept, Option.isNone_some, Bool.and_false,
        Bool.false_eq_true, if_false, callerGroup, ConditionGroup.compile,
        ConditionGroup.compileLogic, Option.getD_some, List.length_map]
      rfl

theorem blocksHold_copyFrom :
    (own.copyFrom callers).blocksHold r = (own.blocksHold r && callers.blocksHold r) :=
  List.all_append

/-- The open articles. -/
def openArticles : Query :=
  (ofBundle "node" "article").addCondition (.eq "status" (.text "open"))

/-- What is titled as a draft, however it is combined with other conditions. -/
def drafts (c : Conjunction) : Query :=
  (new "node").addCondition (.eq "title" (.text "draft")) |>.withConjunction c

/-- A draft with a status. -/
def draftWith (status : String) : Record :=
  ⟨some "1", "node", "article", [("status", .text status), ("title", .text "draft")]⟩

theorem exists_build {q : Query} (h : q.build.toOption.isSome = true) :
    ∃ built, q.build = .ok built := by
  cases hbuild : q.build with
  | error e => simp [hbuild, Except.toOption] at h
  | ok built => exact ⟨built, rfl⟩

end Query

end RecordGraph
