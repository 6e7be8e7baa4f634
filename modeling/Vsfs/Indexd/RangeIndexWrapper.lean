import Vsfs.Common.LogManager
import Vsfs.Index.RangeIndex

/-!
# An index with its log

`IndexManager::RangeIndexWrapper`. In deferred mode an update only goes to the log;
`merge` replays a prefix of the log on the index, and `flush_log` writes the log to disk
and then erases the records it takes to be merged and flushed.
-/

namespace Vsfs.Indexd

open Index

/-- `RpcIndexRecordUpdateList`. -/
structure RecordUpdateList where
  rootPath : Str
  name : Str
  recordUpdates : List RecordUpdateOp
  deriving DecidableEq, Repr

inductive WrapperStatus where
  | normal
  | migrating
  deriving DecidableEq, Repr

/-- The fields of a wrapper. No constructor of the source sets `lastMergedLogId`. -/
structure RangeIndexWrapper (K : Type) [LinearOrder K] where
  basePath : Str
  index : RangeIndex K
  logManager : LogManager RecordUpdateList := {}
  status : WrapperStatus := .normal
  dirty : Bool
  lastMergedLogId : TxnId

namespace RangeIndexWrapper

variable {K : Type} [LinearOrder K] [KeyTypes K]

/-- `update(txn_id, updates)`; `immediately` is `FLAGS_update_immediately`. -/
def update (w : RangeIndexWrapper K) (immediately : Bool) (txnId : TxnId)
    (updates : RecordUpdateList) : Status × RangeIndexWrapper K :=
  if immediately then
    let (status, index) := w.index.apply updates.recordUpdates
    (status, { w with index := index, dirty := w.dirty || status.ok })
  else
    let (status, log) := w.logManager.append txnId updates
    if status.ok then (status, { w with logManager := log, dirty := true })
    else (status, { w with logManager := log })

/-- The loop of `merge` over the scanned records. -/
def applyRecords (index : RangeIndex K) : List RecordUpdateList → Status × RangeIndex K
  | [] => (.OK, index)
  | updates :: records =>
    let (status, index') := index.apply updates.recordUpdates
    if status.ok then applyRecords index' records else (status, index')

def merge (w : RangeIndexWrapper K) (txnId : TxnId) : Status × RangeIndexWrapper K :=
  if w.status = .migrating then (⟨-2, "This index is under migration."⟩, w)
  else
    let (status, index) := applyRecords w.index (w.logManager.scan txnId)
    if status.ok then (.OK, { w with index := index, lastMergedLogId := txnId, dirty := true })
    else (status, { w with index := index })

/-- A merge of an empty log leaves the index as it is. -/
theorem index_merge_of_nil {w : RangeIndexWrapper K} (h : w.logManager.log = []) (txnId : TxnId) :
    (w.merge txnId).2.index = w.index := by
  unfold merge
  split
  · rfl
  · simp [LogManager.scan, h, applyRecords]

/-- `search(txn_id, query, results)`. The status of the range search is dropped, as the
source drops it. -/
def search (w : RangeIndexWrapper K) (txnId : TxnId) (query : RangeQuery) :
    Status × List ObjectId × RangeIndexWrapper K :=
  let (status, w') := w.merge txnId
  if status.ok then (.OK, (w'.index.search query).2, w') else (status, [], w')

variable [ThriftSerialize RecordUpdateList] [ThriftSerialize LogBuffer]

/-- `flush_log(force)` at `FLAGS_flush_log_size = bytes`, with the text appended to
`base_path_ + ".log"`; `opened` tells whether the file could be opened. -/
def flushLog (w : RangeIndexWrapper K) (bytes : Nat) (opened force : Bool) :
    Cpp (Status × RangeIndexWrapper K × Str) :=
  if opened then do
    let (log, text) ← w.logManager.flush bytes force
    let log := log.erase (min w.lastMergedLogId log.lastFlushedTxnId)
    return (.OK, { w with logManager := log }, text)
  else return (⟨-1, "Failed to flush logs."⟩, w, [])

end RangeIndexWrapper

end Vsfs.Indexd
