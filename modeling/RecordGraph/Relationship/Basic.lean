/-
# Relationships

The declared edges between model types. Field and parent relationships hold the foreign key
on the declaring record. Referenced and child relationships are their inverses: they hold
nothing and name the counterpart that does.
-/
import RecordGraph.Error
import RecordGraph.Record.Basic

namespace RecordGraph

/-- Where a foreign key is stored on a record. -/
structure ForeignKey where
  /-- The field. -/
  field : String
  /-- The column of the field's items that holds the identifier. -/
  column : String
  deriving DecidableEq, Repr, Inhabited

/-- The path at which the identifiers of a foreign key are found. -/
def ForeignKey.path (k : ForeignKey) : String := k.field ++ "." ++ k.column

/-- Which model types a field relationship points at. -/
inductive RelationshipTarget where
  /-- One model type. -/
  | model (modelType : String)
  /-- Any of several model types. -/
  | polymorphic (modelTypes : List String)
  deriving DecidableEq, Repr, Inhabited

/-- The model types of a target. -/
def RelationshipTarget.modelTypes : RelationshipTarget → List String
  | .model t => [t]
  | .polymorphic ts => ts

/-- The four kinds of relationships. -/
inductive RelationshipKind where
  /-- A reference to records of any entity type. -/
  | field (key : ForeignKey) (target : RelationshipTarget) (cardinality : Cardinality)
      (parentAccess : Bool)
  /-- The inverse of a field relationship of another model type. -/
  | referenced (modelType fieldRelationship : String)
  /-- A reference to the parent within the entity type. -/
  | parent (key : ForeignKey) (modelType : String)
  /-- The inverse of a parent relationship. -/
  | child (modelType parentRelationship : String)
  deriving DecidableEq, Repr, Inhabited

/-- Which side of an edge the declaring model stands on. -/
inductive RelationshipSide where
  /-- The declaring record holds the foreign key. -/
  | parent
  /-- The far records hold the foreign key. -/
  | child
  deriving DecidableEq, Repr, Inhabited

/-- A declared edge. -/
structure Relationship where
  /-- The name, unique within the declaring model type. -/
  name : String
  /-- The declaring model type; blank until it is declared. -/
  source : String
  /-- Whether deleting the source deletes what the relationship leads to. -/
  cascadingDelete : Bool
  /-- The kind. -/
  kind : RelationshipKind
  deriving DecidableEq, Repr, Inhabited

namespace Relationship

/-- The column of a foreign key when nothing else is said. -/
def defaultColumn : String := "target_id"

/-- An undeclared relationship of a kind. -/
def new (name : String) (kind : RelationshipKind) : Relationship := ⟨name, "", false, kind⟩

/-- A reference to one model type. -/
def field (name field modelType : String) : Relationship :=
  new name (.field ⟨field, defaultColumn⟩ (.model modelType) .single false)

/-- A reference to any of several model types. -/
def polymorphicField (name field : String) (modelTypes : List String) : Relationship :=
  new name (.field ⟨field, defaultColumn⟩ (.polymorphic modelTypes) .single false)

/-- A reference to one model type whose access follows the referenced record. -/
def parentAccessField (name field modelType : String) : Relationship :=
  new name (.field ⟨field, defaultColumn⟩ (.model modelType) .single true)

/-- The inverse of a field relationship. -/
def referenced (name modelType fieldRelationship : String) : Relationship :=
  new name (.referenced modelType fieldRelationship)

/-- A reference to the parent. -/
def parent (name field modelType : String) : Relationship :=
  new name (.parent ⟨field, defaultColumn⟩ modelType)

/-- The inverse of a parent relationship. -/
def child (name modelType parentRelationship : String) : Relationship :=
  new name (.child modelType parentRelationship)

/-- Sets the column of the foreign key, if the relationship holds one. -/
def withColumn (r : Relationship) (column : String) : Relationship :=
  match r.kind with
  | .field key target cardinality access =>
    { r with kind := .field { key with column := column } target cardinality access }
  | .parent key t => { r with kind := .parent { key with column := column } t }
  | _ => r

/-- Sets how many identifiers a field relationship holds. -/
def withCardinality (r : Relationship) (cardinality : Cardinality) : Relationship :=
  match r.kind with
  | .field key target _ access => { r with kind := .field key target cardinality access }
  | _ => r

/-- Sets whether deletions cascade. -/
def cascading (r : Relationship) (cascades : Bool) : Relationship :=
  { r with cascadingDelete := cascades }

/-- The name of the kind. -/
def kindName (r : Relationship) : String :=
  match r.kind with
  | .field _ _ _ true => "ParentAccessFieldRelationship"
  | .field _ _ _ false => "FieldRelationship"
  | .referenced .. => "ReferencedRelationship"
  | .parent .. => "ParentRelationship"
  | .child .. => "ChildRelationship"

/-- Which side of the edge the declaring model stands on. -/
def side (r : Relationship) : RelationshipSide :=
  match r.kind with
  | .field .. | .parent .. => .parent
  | .referenced .. | .child .. => .child

/-- Whether the relationship points at any of several model types. -/
def isPolymorphic (r : Relationship) : Bool :=
  match r.kind with
  | .field _ (.polymorphic _) _ _ => true
  | _ => false

/-- Whether access follows the referenced record. -/
def isParentAccess (r : Relationship) : Bool :=
  match r.kind with
  | .field _ _ _ access => access
  | _ => false

/-- The model types the relationship leads to. -/
def targets (r : Relationship) : List String :=
  match r.kind with
  | .field _ target _ _ => target.modelTypes
  | .referenced t _ | .parent _ t | .child t _ => [t]

/-- The one model type the relationship leads to, unless there is a choice. -/
def modelType? (r : Relationship) : Option String :=
  match r.kind with
  | .field _ (.model t) _ _ => some t
  | .field _ (.polymorphic _) _ _ => none
  | .referenced t _ | .parent _ t | .child t _ => some t

/-- The model types to choose from; none if there is no choice. -/
def polymorphicModelTypes (r : Relationship) : List String :=
  match r.kind with
  | .field _ (.polymorphic ts) _ _ => ts
  | _ => []

/-- The foreign key that the declaring record holds. -/
def foreignKey (r : Relationship) : Except Error ForeignKey :=
  match r.kind with
  | .field key _ _ _ | .parent key _ => .ok key
  | _ =>
    .error (.invalidRelationshipType r.name "FieldRelationship or ParentRelationship" r.kindName)

/-- The written form. -/
def text (r : Relationship) : String := r.source ++ "::" ++ r.name ++ " (" ++ r.kindName ++ ")"

/-- Whether the relationship is the inverse of a named relationship of a model type. -/
def isInverseOf (r : Relationship) (modelType name : String) : Bool :=
  match r.kind with
  | .referenced t n | .child t n => t = modelType && n = name
  | _ => false

end Relationship

end RecordGraph
