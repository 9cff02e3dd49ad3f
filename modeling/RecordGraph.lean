/-
# Graphs of models over a record store

Models connected by declared relationships, read along paths, fetched in batches and saved by
comparing collections with what they were loaded with; and the queries, conditions and
condition logic that select their records.
-/
import RecordGraph.Document.Journal
import RecordGraph.Document.Logic
import RecordGraph.Document.Query
import RecordGraph.Document.Record
import RecordGraph.Document.Registry
import RecordGraph.Document.Summary
import RecordGraph.Graph.Description
import RecordGraph.Graph.Putting
import RecordGraph.Graph.Saving
import RecordGraph.Graph.Validating
import RecordGraph.Proofs.AccessPolicies
import RecordGraph.Proofs.Collections
import RecordGraph.Proofs.Connecting.RoundTrip
import RecordGraph.Proofs.Connecting.Symmetry
import RecordGraph.Proofs.Counterparts
import RecordGraph.Proofs.Fetching.Attaching
import RecordGraph.Proofs.Fetching.Children
import RecordGraph.Proofs.Fetching.Counting
import RecordGraph.Proofs.Fetching.Filtering
import RecordGraph.Proofs.Fetching.Leftovers
import RecordGraph.Proofs.Fetching.NamedParents
import RecordGraph.Proofs.Fetching.Parents
import RecordGraph.Proofs.Fetching.Transparency
import RecordGraph.Proofs.Fetching.WayBack
import RecordGraph.Proofs.Keys
import RecordGraph.Proofs.ModelQueries
import RecordGraph.Proofs.NestedGroups
import RecordGraph.Proofs.NestedLists
import RecordGraph.Proofs.QueryMeaning
import RecordGraph.Proofs.Rekeying
import RecordGraph.Proofs.Saving.Moving
import RecordGraph.Proofs.Saving.Refreshing
import RecordGraph.Proofs.Saving.Removals
import RecordGraph.Proofs.Saving.Traces
import RecordGraph.Proofs.SortedAnswers
import RecordGraph.Proofs.TextParts
import RecordGraph.Proofs.Wildcards
import RecordGraph.Store.Memory
import RecordGraph.Value.Reader
import RecordGraph.Proofs.StoreHistories
import RecordGraph.Proofs.Aggregates
import RecordGraph.Proofs.Paging
import RecordGraph.Proofs.SingleRecords
import RecordGraph.Proofs.Reading.Merging
import RecordGraph.Proofs.Reading.MixedTypes
import RecordGraph.Proofs.Reading.Paths
import RecordGraph.Proofs.Closing
import RecordGraph.Proofs.Connecting.FailedPuts
import RecordGraph.Proofs.NumberedConditions
import RecordGraph.Proofs.Denials
import RecordGraph.Proofs.Reading.Violations
