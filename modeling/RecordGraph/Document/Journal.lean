/-
# Journals as documents

A line of a journal is a list: the kind of call, then what it was about, then its answer.
-/
import RecordGraph.Store.Journal

namespace RecordGraph.JournalEntry

/-- Writes a line of a journal. -/
def toDocument : JournalEntry → Value
  | .load entityType id => Value.texts [CallKind.load.text, entityType, id]
  | .loadMultiple entityType ids =>
    .list [.text CallKind.loadMultiple.text, .text entityType, Value.texts ids]
  | .execute entityType answer =>
    .list [.text CallKind.execute.text, .text entityType, Value.texts answer]
  | .count entityType answer =>
    .list [.text CallKind.count.text, .text entityType, .int answer]
  | .aggregate entityType => Value.texts [CallKind.aggregate.text, entityType]
  | .save entityType before after =>
    .list [.text CallKind.save.text, .text entityType, Value.ofText? before, .text after]
  | .delete entityType id => Value.texts [CallKind.delete.text, entityType, id]
  | .fault kind => Value.texts ["fault", kind.text]

end RecordGraph.JournalEntry
