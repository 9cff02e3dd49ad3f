/-
# The steps of a put

A model is put into a relationship in three steps: it is loaded there, the foreign key is written,
and the way back is loaded on it. The side that holds the key decides which of the last two comes
first. The equations are stated once here; a proof about a put goes through its steps and never
unfolds it.
-/
import RecordGraph.Graph.Putting
import RecordGraph.Proofs.Steps

namespace RecordGraph.Model

variable {σ : Type} {m far : Model} {r : Resolved} {name : String} {inverse : Option String}
  {t t' : Graph σ}

/-- Adds an identifier to a foreign key, if it is known. -/
def stamp (m : Model) (k : ForeignKey) (id : Option String) (c : Cardinality) : Action σ Unit :=
  match id with
  | some id => m.addReferenceId k id c
  | none => pure ()

/-- Loads a model under a name, as the single parent or into the collection. -/
def receive (x : Model) (single : Bool) (name : String) (y : Model) : Action σ Unit :=
  if single then x.setParent name y else (do (← x.children name).put y)

/-- Loads a model on the way back, if there is one. -/
def receiveBack (x : Model) (single : Bool) (inverse : Option String) (y : Model) :
    Action σ Unit :=
  match inverse with
  | some back => x.receive single back y
  | none => pure ()

/-- With the foreign key here, the far model is loaded, the key is written, and the far model
loads the way back. -/
theorem putParent_eq (m : Model) (r : Resolved) (name : String) (inverse : Option String)
    (far : Model) : (m.putParent r name inverse far : Action σ Unit) = (do
      (if r.holdsSingle then m.setParent name far else (do (← m.childrenOr name r).put far))
      m.stamp r.foreignKey (← far.id?) r.cardinality
      far.receiveBack false inverse m) := by
  unfold putParent
  cases r.holdsSingle with
  | true =>
      refine bind_congr fun _ => bind_congr fun id => ?_
      cases id <;> cases inverse <;> rfl
  | false =>
      refine Eq.trans ?_ (bind_assoc _ _ _).symm
      refine bind_congr fun _ => bind_congr fun _ => bind_congr fun id => ?_
      cases id <;> cases inverse <;> rfl

/-- With the foreign key on the far side, the far model is loaded, it loads the way back, and
its key is written. -/
theorem putChild_eq (m : Model) (r : Resolved) (name : String) (inverse : Option String)
    (far : Model) : (m.putChild r name inverse far : Action σ Unit) = (do
      (do (← m.childrenOr name r).put far)
      far.receiveBack (r.cardinality = .single) inverse m
      far.stamp r.foreignKey (← m.id?) r.cardinality) := by
  unfold putChild
  rw [bind_assoc]
  refine bind_congr fun _ => bind_congr fun _ => ?_
  cases inverse with
  | none =>
      rw [receiveBack, pure_bind]
      refine bind_congr fun id => ?_
      cases id <;> rfl
  | some back =>
      rw [receiveBack, receive]
      by_cases hsingle : r.cardinality = .single
      · rw [decide_eq_true hsingle]
        refine Eq.trans (if_pos hsingle) (bind_congr fun _ => bind_congr fun id => ?_)
        cases id <;> rfl
      · rw [decide_eq_false hsingle]
        refine Eq.trans (if_neg hsingle) (Eq.trans ?_ (bind_assoc _ _ _).symm)
        refine bind_congr fun _ => bind_congr fun _ => bind_congr fun id => ?_
        cases id <;> rfl

/-- What was loaded, what key was written and what way back was loaded. -/
theorem putParent_steps (h : Returns (m.putParent r name inverse far) t () t') :
    ∃ loaded stamped,
      Returns (if r.holdsSingle then m.setParent name far
        else (do (← m.childrenOr name r).put far)) t () loaded ∧
      Returns (m.stamp r.foreignKey (loaded.model far).record.id r.cardinality) loaded () stamped ∧
      Returns (far.receiveBack false inverse m) stamped () t' := by
  rw [putParent_eq] at h
  obtain ⟨⟨⟩, before, hload, h⟩ := returns_bind.mp h
  obtain ⟨id, loaded, hid, h⟩ := returns_bind.mp h
  obtain ⟨rfl, rfl⟩ := returns_id.mp hid
  obtain ⟨⟨⟩, stamped, hstamp, hway⟩ := returns_bind.mp h
  exact ⟨loaded, stamped, hload, hstamp, hway⟩

/-- What was loaded, what way back was loaded and what key was written. -/
theorem putChild_steps (h : Returns (m.putChild r name inverse far) t () t') :
    ∃ loaded linked,
      Returns (do (← m.childrenOr name r).put far) t () loaded ∧
      Returns (far.receiveBack (r.cardinality = .single) inverse m) loaded () linked ∧
      Returns (far.stamp r.foreignKey (linked.model m).record.id r.cardinality) linked () t' := by
  rw [putChild_eq] at h
  obtain ⟨⟨⟩, loaded, hload, h⟩ := returns_bind.mp h
  obtain ⟨⟨⟩, before, hway, h⟩ := returns_bind.mp h
  obtain ⟨id, linked, hid, h⟩ := returns_bind.mp h
  obtain ⟨rfl, rfl⟩ := returns_id.mp hid
  exact ⟨loaded, linked, hload, hway, h⟩

end RecordGraph.Model
