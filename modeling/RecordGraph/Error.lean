/-
# What can go wrong

Every failure is a value that names its cause; the wording is given once, by
`Error.message`. A cause `other` carries a wording that comes from outside this library,
such as a store's own report.
-/

namespace RecordGraph

/-- Why an operator is refused. -/
inductive OperatorFault where
  /-- No operator has this spelling. -/
  | unknown
  /-- A list was given to an operator that takes one value. -/
  | listGiven
  /-- One value was given to an operator that takes a list. -/
  | singleGiven
  /-- An interval needs two ends. -/
  | intervalOf (count : Nat)
  /-- Any other reason. -/
  | other (text : String)
  deriving DecidableEq, Repr

/-- Why a query cannot be built. -/
inductive QueryFault where
  /-- A closing parenthesis has no opening one. -/
  | unbalanced (position : Nat) (expression : String)
  /-- Opening parentheses have no closing one. -/
  | unclosed (count : Nat) (expression : String)
  /-- The condition logic is blank. -/
  | emptyLogic
  /-- The condition logic has no word. -/
  | noTokens (expression : String)
  /-- A word is neither a conjunction nor a number. -/
  | unexpectedToken (word : String)
  /-- A block in parentheses belongs to no conjunction. -/
  | strayBlock
  /-- No conjunction has this spelling. -/
  | unknownConjunction (text : String)
  /-- A query over model types has none. -/
  | noModelTypes
  /-- Any other reason. -/
  | other (text : String)
  deriving DecidableEq, Repr

/-- Why models of several types do not go together. -/
inductive PolymorphicFault where
  /-- The targets of a relationship are stored as different entity types. -/
  | severalEntityTypes (relationship : String) (entityTypes : List String)
  /-- A model is of another entity type than the collection. -/
  | foreignModel (modelType key entityType expected : String)
  /-- A model type is of another entity type than the query. -/
  | foreignModelType (modelType entityType expected : String)
  /-- The operation needs a collection of one model type. -/
  | unsupported (operation : String)
  /-- Any other reason. -/
  | other (text : String)
  deriving DecidableEq, Repr

/-- Why a setting or a registry is refused. -/
inductive ConfigurationFault where
  /-- No model type has this name. -/
  | unknownModelType (name : String)
  /-- Two model types have one name. -/
  | modelTypeTwice (name : String)
  /-- Two model types claim one bundle. -/
  | bundleTaken (entityType bundle owner : String)
  /-- A relationship points at a model type that is not registered. -/
  | unknownTarget (relationship target : String)
  /-- A parent or child relationship leaves its entity type. -/
  | leavesEntityType (relationship entityType : String)
  /-- The counterpart of a relationship points somewhere else. -/
  | notPointingAt (modelType relationship target : String)
  /-- A relationship has no target at all. -/
  | noTarget (relationship : String)
  /-- A record is of no registered model type. -/
  | noModelTypeFor (entityType bundle : String)
  /-- The prefix of placeholder keys is blank. -/
  | emptyPrefix
  /-- The batch size is zero. -/
  | zeroBatch
  /-- A variable should hold a conjunction. -/
  | notAConjunction (name value : String)
  /-- A variable should hold a positive number. -/
  | notANumber (name value : String)
  /-- A variable should hold a truth value. -/
  | notATruthValue (name value : String)
  /-- A query is marked for access checks without naming a policy. -/
  | policyMissing
  /-- No access policy has this name. -/
  | unknownPolicy (name : String)
  /-- Any other reason. -/
  | other (text : String)
  deriving DecidableEq, Repr

/-- Why a store refuses a call. -/
inductive StoreFault where
  /-- A query that only counts was to be executed. -/
  | countQuery
  /-- A record that was never saved was to be deleted. -/
  | deleteUnsaved
  /-- Any other reason, in the store's words. -/
  | other (text : String)
  deriving DecidableEq, Repr

/-- A failure and its cause. -/
inductive Error where
  /-- The model type has no such relationship. -/
  | relationshipNotDefined (modelType relationship : String)
  /-- The relationship is of another kind than the operation needs. -/
  | invalidRelationshipType (relationship expected found : String)
  /-- The model is of another type than the place admits. -/
  | invalidType (expected found : String)
  /-- The operator does not fit the field's value. -/
  | invalidOperator (field operator : String) (fault : OperatorFault)
  /-- The query cannot be built. -/
  | invalidQuery (fault : QueryFault)
  /-- Models of several types do not go together. -/
  | polymorphic (fault : PolymorphicFault)
  /-- A model without an identifier cannot be referred to. -/
  | unsavedModel (key relationship : String)
  /-- There is no such record. -/
  | notFound (entityType id : String)
  /-- A setting or the registry is wrong. -/
  | configuration (fault : ConfigurationFault)
  /-- The record store refused or failed. -/
  | store (fault : StoreFault)
  /-- A document does not describe the thing it should. -/
  | serialization (text : String)
  /-- A cascade of deletions comes back to a record that it is still deleting. -/
  | endlessCascade (key : String)
  deriving DecidableEq, Repr

/-- The wording of a cause. -/
def OperatorFault.message : OperatorFault → String
  | .unknown => "unknown operator"
  | .listGiven => "a list of values requires one of IN, NOT IN, BETWEEN"
  | .singleGiven => "a single value cannot be used with a multi-value operator"
  | .intervalOf n => "BETWEEN requires exactly 2 values, got " ++ toString n
  | .other text => text

/-- The wording of a cause. -/
def QueryFault.message : QueryFault → String
  | .unbalanced position expression =>
    "unbalanced ')' at position " ++ toString position ++ " in '" ++ expression ++ "'"
  | .unclosed count expression =>
    toString count ++ " unclosed '(' in '" ++ expression ++ "'"
  | .emptyLogic => "condition logic cannot be empty"
  | .noTokens expression => "condition logic '" ++ expression ++ "' contains no tokens"
  | .unexpectedToken word => "unexpected token '" ++ word ++ "' in condition logic"
  | .strayBlock => "parenthesized block must follow AND or OR"
  | .unknownConjunction text => "unknown conjunction '" ++ text ++ "', expected AND or OR"
  | .noModelTypes => "A multi-model query needs at least one model type"
  | .other text => text

/-- The wording of a cause. -/
def PolymorphicFault.message : PolymorphicFault → String
  | .severalEntityTypes relationship entityTypes =>
    relationship ++ " targets more than one entity type: " ++ String.intercalate ", " entityTypes
  | .foreignModel modelType key entityType expected =>
    "Cannot put " ++ modelType ++ " '" ++ key ++ "' of entity type '" ++ entityType ++
      "' into a collection of '" ++ expected ++ "'"
  | .foreignModelType modelType entityType expected =>
    "Model type " ++ modelType ++ " is a '" ++ entityType ++ "', expected '" ++ expected ++ "'"
  | .unsupported operation => operation ++ " is not supported on a polymorphic collection"
  | .other text => text

/-- The wording of a cause. -/
def ConfigurationFault.message : ConfigurationFault → String
  | .unknownModelType name => "Unknown model type '" ++ name ++ "'"
  | .modelTypeTwice name => "Model type '" ++ name ++ "' registered twice"
  | .bundleTaken entityType bundle owner =>
    "Bundle " ++ entityType ++ ":" ++ bundle ++ " is already mapped to '" ++ owner ++ "'"
  | .unknownTarget relationship target =>
    relationship ++ " points at unknown model type '" ++ target ++ "'"
  | .leavesEntityType relationship entityType =>
    relationship ++ " must stay within entity type '" ++ entityType ++ "'"
  | .notPointingAt modelType relationship target =>
    modelType ++ "::" ++ relationship ++ " does not point at " ++ target
  | .noTarget relationship => "Relationship '" ++ relationship ++ "' has no target model type"
  | .noModelTypeFor entityType bundle =>
    "No model type registered for " ++ entityType ++ ":" ++ bundle
  | .emptyPrefix => "Placeholder prefix cannot be empty"
  | .zeroBatch => "Fetch batch size must be greater than zero"
  | .notAConjunction name value => name ++ " must be AND or OR, got '" ++ value ++ "'"
  | .notANumber name value => name ++ " must be a positive integer, got '" ++ value ++ "'"
  | .notATruthValue name value => name ++ " must be a boolean, got '" ++ value ++ "'"
  | .policyMissing => "Query is tagged for access checks but names no policy"
  | .unknownPolicy name => "Access policy '" ++ name ++ "' is not registered"
  | .other text => text

/-- The wording of a cause. -/
def StoreFault.message : StoreFault → String
  | .countQuery => "count queries must be run through count()"
  | .deleteUnsaved => "cannot delete an unsaved record"
  | .other text => text

/-- The wording of a failure. -/
def Error.message : Error → String
  | .relationshipNotDefined modelType relationship =>
    "Relationship '" ++ relationship ++ "' is not defined on model type '" ++ modelType ++ "'"
  | .invalidRelationshipType relationship expected found =>
    "Relationship '" ++ relationship ++ "' is a " ++ found ++ " relationship, expected " ++ expected
  | .invalidType expected found =>
    "Invalid model type: expected '" ++ expected ++ "', found '" ++ found ++ "'"
  | .invalidOperator field operator fault =>
    "Invalid operator '" ++ operator ++ "' for field '" ++ field ++ "': " ++ fault.message
  | .invalidQuery fault => "Invalid query: " ++ fault.message
  | .polymorphic fault => "Polymorphic collection error: " ++ fault.message
  | .unsavedModel key relationship =>
    "Model '" ++ key ++ "' must be saved before its '" ++ relationship ++ "' relationship"
  | .notFound entityType id =>
    "Record '" ++ id ++ "' not found for entity type '" ++ entityType ++ "'"
  | .configuration fault => "Configuration error: " ++ fault.message
  | .store fault => "Record store error: " ++ fault.message
  | .serialization text => "Serialization error: " ++ text
  | .endlessCascade key => "Deleting '" ++ key ++ "' cascades without end"

/-- The name of the kind of failure. -/
def Error.kindName : Error → String
  | .relationshipNotDefined .. => "RelationshipNotDefined"
  | .invalidRelationshipType .. => "InvalidRelationshipType"
  | .invalidType .. => "InvalidType"
  | .invalidOperator .. => "InvalidOperator"
  | .invalidQuery _ => "InvalidQuery"
  | .polymorphic _ => "Polymorphic"
  | .unsavedModel .. => "UnsavedModel"
  | .notFound .. => "NotFound"
  | .configuration _ => "Configuration"
  | .store _ => "Store"
  | .serialization _ => "Serialization"
  | .endlessCascade _ => "EndlessCascade"

end RecordGraph
