/-
# Record stores

The calls that this library makes on a store. A call answers or fails, and in both cases the
store goes on in a state of its own; nothing is assumed about how answers and states hang
together.
-/
import RecordGraph.Error
import RecordGraph.StoreQuery.Aggregation
import RecordGraph.StoreQuery.Basic

namespace RecordGraph

/-- The answer to a call and the state of the store after it. -/
abbrev Call (σ α : Type) := σ → Except Error α × σ

/-- What a state must offer to serve as a record store. -/
class RecordStore (σ : Type) where
  /-- A fresh record, not yet stored. -/
  create : (entityType bundle : String) → Call σ Record
  /-- The record under an identifier. -/
  load : (entityType id : String) → Call σ (Option Record)
  /-- The records under several identifiers. -/
  loadMultiple : (entityType : String) → (ids : List String) → Call σ (List Record)
  /-- The identifiers of the selected records. -/
  execute : StoreQuery → Call σ (List String)
  /-- The number of selected records. -/
  count : StoreQuery → Call σ Nat
  /-- Aggregates over the selected records. -/
  aggregate : StoreQuery → Aggregation → Call σ (List AggregateRow)
  /-- Stores a record and answers it as it is stored, with its identifier. -/
  save : Record → Call σ Record
  /-- Removes a record. -/
  delete : Record → Call σ Unit
  /-- A number of calls that a chain of dependent calls cannot exceed unless it goes round
  in a circle. -/
  patience : σ → Nat

end RecordGraph
