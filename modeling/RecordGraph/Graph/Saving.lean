/-
# Saving

Saving a model brings its foreign keys in line with what it has loaded, and stores its
record. Saving a relationship stores the models on the far side as well: from the side that
holds the key the far models first, from the other side the far models with their new key,
and those that were removed since the snapshot without it.

Saving a collection stores its members, and then deletes the stored models that were removed
since the snapshot. Only after all that the members become the new snapshot.
-/
import RecordGraph.Graph.Deleting

namespace RecordGraph

variable {σ : Type}

namespace Model

/-- The identifier of a model that is to be referred to. -/
def storedId (m : Model) (relationship : String) : Action σ String := do
  match ← m.id? with
  | some id => return id
  | none => throw (.unsavedModel (← m.key) relationship)

/-- Brings a single foreign key in line with the loaded parent. -/
def syncParent (m : Model) (r : Resolved) (name : String) : Action σ Unit := do
  match ← m.cachedParent? name with
  | none => return ()
  | some parent =>
    let id ← parent.storedId name
    m.setReferenceIds r.foreignKey [id] .single

/-- Brings a foreign key for several identifiers in line with the loaded collection:
identifiers of models that were removed go, those of new members come last. -/
def syncParents (m : Model) (r : Resolved) (name : String) : Action σ Unit := do
  match ← m.cachedChildren? name with
  | none => return ()
  | some c =>
    (← c.models).forM fun member => do
      let _ ← member.storedId name
    let d ← c.data
    let gone := d.snapshot.values.filter fun old => !d.containsModel old
    let removed := (← gone.mapM Model.id?).filterMap fun id => id
    let kept := (← m.parentIds name).filter fun id => !removed.contains id
    let ids := (← c.ids).foldl (fun ids id => if ids.contains id then ids else ids ++ [id]) kept
    m.setReferenceIds r.foreignKey ids .multiple

/-- Brings the foreign key of a relationship in line with what is loaded. -/
def syncForeignKey (m : Model) (name : String) : Action σ Unit := do
  let r ← m.resolve name
  match r.cardinality with
  | .single => m.syncParent r name
  | .multiple => m.syncParents r name

/-- Brings all foreign keys in line with what is loaded. -/
def syncForeignKeys (m : Model) : Action σ Unit := do
  (← m.data).parents.keys.forM m.syncForeignKey
  (← m.data).children.keys.forM fun name => do
    if (← m.resolve name).side = .parent then m.syncForeignKey name

/-- Unloads an owner from the way back to it. -/
def unlink (m : Model) (name : String) (owner : Model) : Action σ Unit := do
  if (← m.cachedParent? name) = some owner then m.removeParent name
  if let some c ← m.cachedChildren? name then
    let _ ← c.removeModel owner

variable [RecordStore σ]

/-- Stores the record of a model. -/
def saveRecord (m : Model) : Action σ Unit := do
  m.syncForeignKeys
  let stored ← Action.call (RecordStore.save (← m.record))
  m.updateRecord fun _ => stored

end Model

namespace Collection

variable [RecordStore σ]

/-- Stores the members. -/
def saveModels (c : Collection) : Action σ Unit := do
  (← c.models).forM Model.saveRecord

/-- Stores the members and deletes what was removed. -/
def saveMembers (c : Collection) : Action σ Unit := do
  c.saveModels
  (← c.modelsToDelete).forM Model.delete
  c.markSaved

end Collection

namespace Model

variable [RecordStore σ]

/-- Takes a removed model out of the relationship and stores it. -/
def saveUnlinked (m : Model) (r : Resolved) (id : String) (removed : Model) : Action σ Unit := do
  removed.removeReferenceId r.foreignKey id r.cardinality
  if let some inverse := r.inverseOn? (← removed.modelType).name then removed.unlink inverse m
  removed.saveRecord

/-- Stores the loaded far models, which hold the foreign key. -/
def saveChildren (m : Model) (r : Resolved) (name id : String) (c : Collection) :
    Action σ Unit := do
  (← c.models).forM fun child => child.addReferenceId r.foreignKey id r.cardinality
  let relationship ← Action.ofExcept ((← m.modelType).relationship name)
  if relationship.cascadingDelete then c.saveMembers
  else
    c.saveModels
    (← c.modelsToDelete).forM (m.saveUnlinked r id)
    c.markSaved

/-- Stores the loaded far models, whose identifiers the model holds. -/
def saveParents (m : Model) (r : Resolved) (name : String) : Action σ Unit := do
  if r.holdsSingle then
    match ← m.cachedParent? name with
    | some parent => parent.saveRecord
    | none => pure ()
  else
    match ← m.cachedChildren? name with
    | some c => c.saveModels
    | none => pure ()
  m.syncForeignKey name

/-- Stores what a relationship leads to. -/
def saveRelationship (m : Model) (name : String) : Action σ Unit := do
  let r ← m.resolve name
  match r.side with
  | .parent => m.saveParents r name
  | .child =>
    let id ← m.storedId name
    if let some c ← m.cachedChildren? name then m.saveChildren r name id c

end Model

namespace Collection

variable [RecordStore σ]

/-- Stores what a relationship of the members leads to. -/
def saveRelationship (c : Collection) (name : String) : Action σ Unit := do
  match (← c.data).modelType? with
  | none => throw (.polymorphic (.unsupported "save with a relationship"))
  | some t =>
    let r ← Action.ofExcept ((← get).registry.resolve t.name name)
    match r.side with
    | .parent =>
      (← c.read name).saveModels
      (← c.models).forM fun m => m.syncForeignKey name
    | .child => (← c.models).forM fun m => m.saveRelationship name

end Collection

namespace Related

variable [RecordStore σ]

/-- Stores what is there. -/
def saveHere (r : Related) : Action σ Unit :=
  match r with
  | .none => return ()
  | .model m => m.saveRecord
  | .collection c => c.saveMembers

/-- Stores what one relationship leads to. -/
def saveStep (r : Related) (name : String) : Action σ Unit :=
  match r with
  | .none => return ()
  | .model m => m.saveRelationship name
  | .collection c => c.saveRelationship name

/-- Stores what is there, or else what the last step of a path leads to; the steps before it
are only read. A path from a collection needs a collection of one type. -/
def save (r : Related) (path : Option (List String)) : Action σ Unit := do
  match path with
  | Option.none => r.saveHere
  | some steps =>
    if let .collection c := r then c.requireSingleType "save with a relationship"
    (← r.get steps.dropLast).saveStep (steps.getLast?.getD "")

end Related

end RecordGraph
