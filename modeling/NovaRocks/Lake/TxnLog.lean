import NovaRocks.Store.Keyed
import NovaRocks.Sql.SortOrder
import NovaRocks.Store.Checked

/-!
The transaction log of a primary-key tablet. Each batch of a load is split by its
`__op` column: the rows to upsert are sorted into a segment, the keys to delete go
into a delete file. The log lists the segments and the delete files of all batches,
each in the order of the writes, but not how they interleave.
-/
namespace NovaRocks.Lake
open NovaRocks.Store List

abbrev Tuple := List Value

structure TabletSchema where
  columns : Nat
  keyIdxes : List Nat
  sortKeyIdxes : List Nat

namespace TabletSchema

def keyOf (s : TabletSchema) (row : Tuple) : Tuple :=
  s.keyIdxes.map fun idx => row.getD idx .null

def sortKeyOf (s : TabletSchema) (row : Tuple) : Tuple :=
  s.sortKeyIdxes.map fun idx => row.getD idx .null

def SortsBefore (s : TabletSchema) (a b : Tuple) : Prop :=
  lexLe (s.sortKeyOf a) (s.sortKeyOf b) = true

instance (s : TabletSchema) : DecidableRel s.SortsBefore :=
  fun _ _ => inferInstanceAs (Decidable (_ = true))

end TabletSchema

/-- A row of a load; the cell of `__op` stands beside it. -/
structure WriteRow where
  op : Option Int
  values : Tuple
  deriving DecidableEq

/-- Names are drawn for each driver in sequence. -/
structure FileName where
  driverId : Nat
  fileSeq : Nat
  deriving DecidableEq

structure WriteBatch where
  file : FileName
  rows : List WriteRow

/-- Rows to upsert and rows to delete: zero is UPSERT, any other number DELETE. -/
def parseOpBatch : List WriteRow → Except String (List Tuple × List Tuple)
  | [] => .ok ([], [])
  | row :: rest =>
    match row.op with
    | none => .error "write batch '__op' column contains NULL"
    | some op => do
      let (upserts, deletes) ← parseOpBatch rest
      return if op = 0 then (row.values :: upserts, deletes) else (upserts, row.values :: deletes)

inductive LakeBatchWriteRouting where
  | deleteKeysOnly (keys : List Tuple)
  | upsert (rows : List Tuple)
  | mixed (rows keys : List Tuple)

section
variable (s : TabletSchema)

def resolveLakeBatchWriteRouting (rows : List WriteRow) :
    Except String LakeBatchWriteRouting := do
  let (upserts, deletes) ← parseOpBatch rows
  return if deletes.isEmpty then .upsert upserts
    else if upserts.isEmpty then .deleteKeysOnly (deletes.map s.keyOf)
    else .mixed upserts (deletes.map s.keyOf)

/-- Rows of a segment stand in the order of the sort key; equal ones stay in place. -/
def sortBatchForNativeWrite (rows : List Tuple) : Except String (List Tuple) :=
  if rows.length ≤ 1 then .ok rows
  else if s.sortKeyIdxes.isEmpty then .error "tablet schema missing sort_key_idxes for native write"
  else if s.sortKeyIdxes.any (· ≥ s.columns) then .error "sort_key_idx out of range in tablet schema"
  else .ok (rows.insertionSort s.SortsBefore)

structure Segment where
  name : FileName
  rows : List Tuple
  deriving DecidableEq

structure DelFile where
  name : FileName
  keys : List Tuple
  deriving DecidableEq

/-- The log's write operation; a batch without rows to upsert brings no segment. -/
structure OpWrite where
  rowset : Option (List Segment)
  dels : List DelFile
  deriving DecidableEq

def buildRowsetForUpsertBatch (name : FileName) (rows : List Tuple) :
    Except String (List Segment) := do
  let sorted ← sortBatchForNativeWrite s rows
  return [⟨name, sorted⟩]

def encodeDeleteKeysFilePayload (name : FileName) (keys : List Tuple) : Except String (List DelFile) :=
  if keys.any fun key => key.contains .null then .error "delete-key batch contains NULL key value"
  else .ok [⟨name, keys⟩]

/-- Segments whose names are all there already have been logged before. -/
def mergeRowsetMetadata (target incoming : List Segment) : Except String (List Segment) :=
  let duplicates := incoming.filter fun x => (target.map Segment.name).contains x.name
  if duplicates.isEmpty then .ok (target ++ incoming)
  else if duplicates.length = incoming.length then .ok target
  else .error "detected partial duplicate segments while merging txn rowset"

def addDels (dels incoming : List DelFile) : List DelFile :=
  incoming.foldl (fun dels d => if dels.any fun e => e.name = d.name then dels else dels ++ [d]) dels

def upsertWriteRowsetInTxnLog (log : OpWrite) (segments : List Segment) (dels : List DelFile) :
    Except String OpWrite :=
  match log.rowset with
  | none => .ok ⟨some segments, addDels log.dels dels⟩
  | some existing => do
    let merged ← mergeRowsetMetadata existing segments
    return ⟨some merged, addDels log.dels dels⟩

def appendLakeTxnLog (log : OpWrite) (batch : WriteBatch) :
    Except String OpWrite := do
  guardThat (!batch.rows.isEmpty) "cannot append empty record batch into lake txn log"
  match ← resolveLakeBatchWriteRouting s batch.rows with
  | .deleteKeysOnly keys =>
    let dels ← encodeDeleteKeysFilePayload batch.file keys
    upsertWriteRowsetInTxnLog log [] dels
  | .upsert rows =>
    let segments ← buildRowsetForUpsertBatch s batch.file rows
    upsertWriteRowsetInTxnLog log segments []
  | .mixed rows keys =>
    let segments ← buildRowsetForUpsertBatch s batch.file rows
    let dels ← encodeDeleteKeysFilePayload batch.file keys
    upsertWriteRowsetInTxnLog log segments dels

def appendAll (s : TabletSchema) (log : OpWrite) : List WriteBatch → Except String OpWrite
  | [] => .ok log
  | batch :: rest => do
    let log ← appendLakeTxnLog s log batch
    appendAll s log rest

/-! What the log holds of the writes. -/

def changesOf (rows : List WriteRow) : List (Change Tuple Tuple) :=
  rows.map fun row => if row.op = some 0 then .put row.values else .drop (s.keyOf row.values)

end

namespace OpWrite

def upserts (log : OpWrite) : List Tuple :=
  (log.rowset.getD []).flatMap Segment.rows

def deletes (log : OpWrite) : List Tuple :=
  log.dels.flatMap DelFile.keys

def names (log : OpWrite) : List FileName :=
  (log.rowset.getD []).map Segment.name ++ log.dels.map DelFile.name

end OpWrite

def segmentRows (s : TabletSchema) (rows : List WriteRow) : List Tuple :=
  (puts (changesOf s rows)).insertionSort s.SortsBefore

theorem parseOpBatch_ok (s : TabletSchema) {rows : List WriteRow}
    (done : parseOpBatch rows = .ok (upserts, deletes)) :
    upserts = puts (changesOf s rows) ∧ deletes.map s.keyOf = drops (changesOf s rows) := by
  induction rows generalizing upserts deletes with
  | nil =>
    cases done
    exact ⟨rfl,rfl⟩
  | cons row rest ih =>
    rw [parseOpBatch] at done
    split at done
    · cases done
    rename_i op cell
    obtain ⟨⟨ups,dels⟩,parsed,last⟩ := bind_ok done
    obtain ⟨puts',drops'⟩ := ih parsed
    dsimp only at last
    by_cases isUpsert : op = 0
    · rw [if_pos isUpsert] at last
      cases last
      simp [changesOf, cell, isUpsert, puts] at puts' drops' ⊢
      exact ⟨puts',drops'⟩
    · rw [if_neg isUpsert] at last
      cases last
      simp [changesOf, cell, isUpsert, drops] at puts' drops' ⊢
      exact ⟨puts',drops'⟩

theorem sortBatchForNativeWrite_ok {rows sorted : List Tuple}
    (done : sortBatchForNativeWrite s rows = .ok sorted) : sorted = rows.insertionSort s.SortsBefore := by
  unfold sortBatchForNativeWrite at done
  by_cases few : rows.length ≤ 1
  · rw [if_pos few] at done
    cases done
    match rows, few with
    | [], _ => rfl
    | [row], _ => rfl
  · rw [if_neg few] at done
    split at done
    · cases done
    · split at done
      · cases done
      · cases done
        rfl

theorem addDels_fresh (fresh : ∀ d ∈ incoming, d.name ∉ dels.map DelFile.name) (one : incoming.length ≤ 1) :
    addDels dels incoming = dels ++ incoming := by
  match incoming, one with
  | [], _ => rw [addDels, foldl_nil, append_nil]
  | [d], _ =>
    have absent : ∀ e ∈ dels, e.name ≠ d.name := by
      intro e member same
      exact fresh d (mem_singleton_self d) (mem_map.mpr ⟨e,member,same⟩)
    simpa [addDels] using absent

theorem upsertWriteRowsetInTxnLog_ok (fresh : name ∉ log.names)
    (ownSegments : ∀ x ∈ segments, x.name = name) (ownDels : ∀ d ∈ dels, d.name = name)
    (one : dels.length ≤ 1) (done : upsertWriteRowsetInTxnLog log segments dels = .ok log') :
    log' = ⟨some (log.rowset.getD [] ++ segments), log.dels ++ dels⟩ := by
  have freshDels : addDels log.dels dels = log.dels ++ dels := by
    apply addDels_fresh _ one
    intro d member known
    rw [ownDels d member] at known
    exact fresh (mem_append_right _ known)
  unfold upsertWriteRowsetInTxnLog at done
  cases logged : log.rowset with
  | none =>
    rw [logged] at done
    cases done
    rw [freshDels]
    rfl
  | some existing =>
    rw [logged] at done
    obtain ⟨merged,wasMerged,last⟩ := bind_ok done
    cases last
    have new : (segments.filter fun x => (existing.map Segment.name).contains x.name) = [] := by
      rw [filter_eq_nil_iff]
      intro x member known
      rw [ownSegments x member] at known
      exact fresh (mem_append_left _ (by simpa [logged] using known))
    rw [mergeRowsetMetadata, new] at wasMerged
    cases wasMerged
    rw [freshDels]
    rfl

/-- One batch: its sorted upserts and its delete keys are added to the log. -/
structure Appended (s : TabletSchema) (log log' : OpWrite) (batch : WriteBatch) : Prop where
  rowset : log'.rowset.isSome
  upserts : log'.upserts = log.upserts ++ segmentRows s batch.rows
  deletes : log'.deletes = log.deletes ++ drops (changesOf s batch.rows)
  names : ∀ name ∈ log'.names, name ∈ log.names ∨ name = batch.file

theorem appended_of_files
    (ownSegments : ∀ x ∈ segments, x.name = batch.file) (ownDels : ∀ d ∈ dels, d.name = batch.file)
    (rows : segments.flatMap Segment.rows = segmentRows s batch.rows)
    (keys : dels.flatMap DelFile.keys = drops (changesOf s batch.rows)) :
    Appended s log ⟨some (log.rowset.getD [] ++ segments), log.dels ++ dels⟩ batch := by
  refine ⟨rfl,?_,?_,?_⟩
  · simp [OpWrite.upserts, rows]
  · simp [OpWrite.deletes, keys]
  · intro name member
    simp only [OpWrite.names, Option.getD_some, map_append, mem_append, mem_map] at member
    rcases member with (⟨x,old,rfl⟩ | ⟨x,new,rfl⟩) | (⟨d,old,rfl⟩ | ⟨d,new,rfl⟩)
    · exact .inl (mem_append_left _ (mem_map_of_mem old))
    · exact .inr (ownSegments x new)
    · exact .inl (mem_append_right _ (mem_map_of_mem old))
    · exact .inr (ownDels d new)

theorem appendLakeTxnLog_ok
    (fresh : batch.file ∉ log.names) (done : appendLakeTxnLog s log batch = .ok log') :
    Appended s log log' batch := by
  obtain ⟨_,_,rest⟩ := bind_ok done
  obtain ⟨routing,routed,rest⟩ := bind_ok rest
  obtain ⟨⟨upserts,deletes⟩,parsed,last⟩ := bind_ok routed
  obtain ⟨upserts',deletes'⟩ := parseOpBatch_ok s parsed
  have built : ∀ segments, buildRowsetForUpsertBatch s batch.file upserts = .ok segments →
      (∀ x ∈ segments, x.name = batch.file) ∧ segments.flatMap Segment.rows = segmentRows s batch.rows := by
    intro segments built
    obtain ⟨rows,wasSorted,made⟩ := bind_ok built
    cases made
    simp [sortBatchForNativeWrite_ok wasSorted, upserts', segmentRows]
  have encoded : ∀ dels, encodeDeleteKeysFilePayload batch.file (deletes.map s.keyOf) = .ok dels →
      (∀ d ∈ dels, d.name = batch.file) ∧ dels.length ≤ 1 ∧
        dels.flatMap DelFile.keys = drops (changesOf s batch.rows) := by
    intro dels encoded
    unfold encodeDeleteKeysFilePayload at encoded
    split at encoded <;> cases encoded
    simp [deletes']
  have added : ∀ segments dels, upsertWriteRowsetInTxnLog log segments dels = .ok log' →
      (∀ x ∈ segments, x.name = batch.file) ∧ segments.flatMap Segment.rows = segmentRows s batch.rows →
      (∀ d ∈ dels, d.name = batch.file) ∧ dels.length ≤ 1 ∧
        dels.flatMap DelFile.keys = drops (changesOf s batch.rows) → Appended s log log' batch := by
    rintro segments dels merged ⟨ownSegments,rows⟩ ⟨ownDels,one,keys⟩
    rw [upsertWriteRowsetInTxnLog_ok fresh ownSegments ownDels one merged]
    exact appended_of_files ownSegments ownDels rows keys
  cases last
  by_cases noDeletes : deletes = []
  · rw [if_pos (by simp [noDeletes])] at rest
    obtain ⟨segments,isBuilt,merged⟩ := bind_ok rest
    exact added _ _ merged (built _ isBuilt) (by simp [← deletes', noDeletes])
  · rw [if_neg (by simpa using noDeletes)] at rest
    by_cases noUpserts : upserts = []
    · rw [if_pos (by simp [noUpserts])] at rest
      obtain ⟨dels,isEncoded,merged⟩ := bind_ok rest
      exact added _ _ merged (by simp [segmentRows, ← upserts', noUpserts]) (encoded _ isEncoded)
    · rw [if_neg (by simpa using noUpserts)] at rest
      obtain ⟨segments,isBuilt,rest⟩ := bind_ok rest
      obtain ⟨dels,isEncoded,merged⟩ := bind_ok rest
      exact added _ _ merged (built _ isBuilt) (encoded _ isEncoded)

theorem appendAll_ok (distinct : (batches.map WriteBatch.file).Nodup)
    (fresh : ∀ b ∈ batches, b.file ∉ log.names) (done : appendAll s log batches = .ok log') :
    log'.upserts = log.upserts ++ batches.flatMap (fun b => segmentRows s b.rows) ∧
      log'.deletes = log.deletes ++ drops (batches.flatMap fun b => changesOf s b.rows) := by
  induction batches generalizing log with
  | nil =>
    cases done
    exact ⟨by simp,by simp [drops]⟩
  | cons batch rest ih =>
    obtain ⟨mid,first,later⟩ := bind_ok done
    have step := appendLakeTxnLog_ok (fresh batch mem_cons_self) first
    obtain ⟨notLater,restDistinct⟩ := nodup_cons.mp distinct
    have restFresh : ∀ b ∈ rest, b.file ∉ mid.names := by
      intro b member known
      rcases step.names _ known with old | same
      · exact fresh b (mem_cons_of_mem _ member) old
      · exact notLater (same ▸ mem_map_of_mem member)
    obtain ⟨upserts,deletes⟩ := ih restDistinct restFresh later
    constructor
    · rw [upserts, step.upserts, flatMap_cons, append_assoc]
    · rw [deletes, step.deletes, flatMap_cons, drops_append, append_assoc]

end NovaRocks.Lake
