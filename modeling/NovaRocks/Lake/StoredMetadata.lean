import Mathlib.Order.Interval.Set.Infinite
import NovaRocks.Lake.DelvecFiles
import NovaRocks.Lake.Places

/-!
Tablet metadata as it is stored, and the publish of a primary-key write log on it. The
delete vectors are read from their files and written back; the publish works on a copy
of the metadata, which replaces the old one when everything has succeeded.
-/
namespace NovaRocks.Lake
open NovaRocks.Store List
open SegmentRowRef (rowId)
open KeyIndex (insert remove)

structure TabletSchemaPb where
  id : Option Int
  keysType : Option Int
  table : TabletSchema

structure DelfileWithRowsetId where
  name : FileName
  originRowsetId : Nat
  opOffset : Nat

structure RowsetMetadataPb where
  id : Option Nat
  segments : List Segment
  /-- How many segments have metadata of their own. -/
  segmentMetas : Nat
  deletePredicate : Bool
  delFiles : List DelfileWithRowsetId
  maxCompactInputRowsetId : Option Nat

namespace RowsetMetadataPb

def numRows (r : RowsetMetadataPb) : Nat :=
  (r.segments.flatMap Segment.rows).length

def placed (r : RowsetMetadataPb) : List (Nat × Segment) :=
  match r.id with
  | none => []
  | some id => (Rowset.mk id r.segments).placed

end RowsetMetadataPb

structure TabletMetadataPb where
  id : Option Int
  schema : Option TabletSchemaPb
  rowsets : List RowsetMetadataPb
  nextRowsetId : Option Nat
  cumulativePoint : Option Nat
  delvecMeta : DelvecMeta
  historicalSchemas : Int → Option TabletSchemaPb
  rowsetToSchema : AList fun _ : Nat => Int

def nextRowsetId (rowsets : List RowsetMetadataPb) : Nat :=
  (rowsets.filterMap RowsetMetadataPb.id).foldl max 0 + 1

def TabletMetadataPb.newRowsetId (t : TabletMetadataPb) : Nat :=
  t.nextRowsetId.getD (NovaRocks.Lake.nextRowsetId t.rowsets)

structure OpWritePb where
  rowset : Option RowsetMetadataPb
  dels : List DelFile
  /-- The schema key, with the id if it has one. -/
  schemaKey : Option (Option Int)

def OpWritePb.log (op : OpWritePb) : OpWrite :=
  ⟨op.rowset.map RowsetMetadataPb.segments, op.dels⟩

def ensureRowsetSegmentMetaConsistency (r : RowsetMetadataPb) : Except String Unit :=
  guardThat (r.segmentMetas = 0 || r.segmentMetas = r.segments.length)
    "rowset segment_metas/segments length mismatch"

def attachOpWriteDeleteFilesToRowset (r : RowsetMetadataPb) (rowsetId : Nat) (dels : List DelFile) :
    RowsetMetadataPb :=
  { r with delFiles := r.delFiles ++ dels.map fun d =>
      ⟨d.name, rowsetId, max r.segments.length 1 - 1⟩ }

/-- A rowset gets the next id. The schema it was written with is recorded only where
some rowset's schema is. -/
def TabletMetadataPb.appendRowset (t : TabletMetadataPb) (rowset : RowsetMetadataPb) (schemaId : Int) :
    TabletMetadataPb :=
  { t with
    nextRowsetId := some (t.newRowsetId + max 1 rowset.segments.length)
    rowsetToSchema := if t.rowsetToSchema.entries.isEmpty then t.rowsetToSchema
      else t.rowsetToSchema.insert t.newRowsetId schemaId
    rowsets := t.rowsets ++ [{ rowset with id := some t.newRowsetId }] }

section
variable [DelvecEncoding]

def addVisibleRows (files : DelvecFiles) (t : TabletMetadataPb) (s : TabletSchema)
    (index : Tuple → Option SegmentRowRef) (r : RowsetMetadataPb) :
    Except String (Tuple → Option SegmentRowRef) :=
  if r.segments.isEmpty then .ok index
  else match r.id with
    | none => .error "primary key publish requires rowset.id for existing rowset"
    | some id => do
      let placed := (Rowset.mk id r.segments).placed
      let keys ← encodePrimaryKeys s (rowRefs placed)
      let delvecs ← loadAll (loadSegmentDelvecBitmap files t.delvecMeta) (placed.map Prod.fst)
      let visible := keys.filter fun p =>
        !((delvecs.lookup p.1.segmentId).getD []).contains p.1.rowId
      return visible.foldl (fun index p => Function.update index p.2 (some p.1)) index

def buildStoredVisibleIndex (files : DelvecFiles) (t : TabletMetadataPb) (s : TabletSchema) :
    Except String KeyIndex := do
  let index ← t.rowsets.foldlM (addVisibleRows files t s) fun _ => none
  return ⟨index, []⟩

def mergedUpdates (files : DelvecFiles) (t : TabletMetadataPb) (changed : List SegmentRowRef) :
    Except String (List (Nat × List Nat)) := do
  let bases ← loadAll (loadSegmentDelvecBitmap files t.delvecMeta)
    (changed.map SegmentRowRef.segmentId).dedup
  return bases.map fun u =>
    (u.1, u.2 ++ ((changed.filter fun r => r.segmentId = u.1).map rowId))

def applyPrimaryKeyWriteLog (files : DelvecFiles) (metadata : TabletMetadataPb) (op : OpWritePb)
    (schemaId : Int) (tabletSchema : TabletSchemaPb) (applyVersion txnId : Int) :
    Except String (DelvecFiles × TabletMetadataPb) := do
  guardThat (0 < applyVersion) "invalid apply_version for primary key publish"
  guardThat (0 < txnId) "invalid txn_id for primary key publish"
  match op.rowset with
  | none =>
    guardThat op.dels.isEmpty
      "primary key publish requires op_write.rowset when op_write.dels is non-empty"
    return (files, metadata)
  | some rowset =>
    guardThat (!rowset.deletePredicate)
      "primary key publish does not support rowset delete_predicate yet"
    if rowset.numRows = 0 && op.dels.isEmpty then return (files, metadata)
    else
      ensureRowsetSegmentMetaConsistency rowset
      let rowsetId := metadata.newRowsetId
      let newRowset := attachOpWriteDeleteFilesToRowset rowset rowsetId op.dels
      let s := tabletSchema.table
      guardThat (!s.keyIdxes.isEmpty) "tablet schema has no key columns for primary key publish"
      let visibleIndex ← buildStoredVisibleIndex files metadata s
      let newKeys ← encodePrimaryKeys s (rowRefs (Rowset.mk rowsetId rowset.segments).placed)
      let inserted := newKeys.foldl insert visibleIndex
      let final := (op.dels.flatMap DelFile.keys).foldl remove inserted
      let updates ← mergedUpdates files metadata final.changed
      let (written, delvecMeta) ← persistDelvecUpdates files metadata.delvecMeta metadata.id
        applyVersion txnId updates
      return (written, { metadata.appendRowset newRowset schemaId with delvecMeta })

end

structure StoredTablet where
  files : DelvecFiles
  metadata : TabletMetadataPb

section
variable [DelvecEncoding]

def StoredTablet.publish (t : StoredTablet) (op : OpWritePb) (schemaId : Int)
    (tabletSchema : TabletSchemaPb) (applyVersion txnId : Int) : StoredTablet × Except String Unit :=
  match applyPrimaryKeyWriteLog t.files t.metadata op schemaId tabletSchema applyVersion txnId with
  | .ok (files, working) => (⟨files, working⟩, .ok ())
  | .error message => (t, .error message)

/-! The stored tablet against the tablet whose delete vectors are at hand. -/

def delvecOf (files : DelvecFiles) (t : TabletMetadataPb) (segmentId : Nat) : List Nat :=
  match loadSegmentDelvecBitmap files t.delvecMeta segmentId with
  | .ok bitmap => bitmap
  | .error _ => []

def viewOf (files : DelvecFiles) (t : TabletMetadataPb) : TabletMetadata where
  rowsets := t.rowsets.filterMap fun r => r.id.map fun id => ⟨id, r.segments⟩
  nextRowsetId := t.nextRowsetId
  delvec := delvecOf files t

structure Readable (files : DelvecFiles) (t : TabletMetadataPb) : Prop where
  ids : ∀ r ∈ t.rowsets, r.segments ≠ [] → r.id ≠ none
  delvecs : ∀ id, ∃ bitmap, loadSegmentDelvecBitmap files t.delvecMeta id = .ok bitmap

theorem delvecOf_eq (loaded : loadSegmentDelvecBitmap files t.delvecMeta segmentId = .ok bitmap) :
    delvecOf files t segmentId = bitmap := by
  rw [delvecOf, loaded]

theorem viewOf_newRowsetId (files : DelvecFiles) (t : TabletMetadataPb) :
    (viewOf files t).newRowsetId = t.newRowsetId := by
  have ids : (viewOf files t).rowsets.map Rowset.id = t.rowsets.filterMap RowsetMetadataPb.id := by
    rw [viewOf, map_filterMap]
    apply filterMap_congr
    intro r _
    cases r.id <;> rfl
  rw [TabletMetadata.newRowsetId, ids]
  rfl

theorem viewOf_placed : (viewOf files t).placed = t.rowsets.flatMap RowsetMetadataPb.placed := by
  rw [TabletMetadata.placed, viewOf]
  induction t.rowsets with
  | nil => rfl
  | cons r rest ih =>
    rw [flatMap_cons, ← ih, filterMap_cons]
    cases named : r.id with
    | none | some => simp [RowsetMetadataPb.placed, named]

omit [DelvecEncoding] in
theorem lookup_loadAll (done : loadAll load ids = .ok loaded) {id : Nat}
    (member : id ∈ ids) : load id = .ok ((loaded.lookup id).getD []) := by
  obtain ⟨rfl,loads⟩ := loadAll_ok done
  cases found : loaded.lookup id with
  | none =>
    obtain ⟨u,inside,rfl⟩ := mem_map.mp member
    simpa using lookup_eq_none_iff.mp found u inside
  | some bitmap =>
    obtain ⟨before,after,rfl,-⟩ := lookup_eq_some_iff.mp found
    exact loads (id, bitmap) (by simp)

omit [DelvecEncoding] in
theorem encodePrimaryKeys_append (first second : List (SegmentRowRef × Tuple)) :
    encodePrimaryKeys s (first ++ second) = (do
      let keys ← encodePrimaryKeys s first
      let keys' ← encodePrimaryKeys s second
      return keys ++ keys') := by
  unfold encodePrimaryKeys
  rw [any_append, map_append]
  cases first.any fun p => (s.keyOf p.2).contains .null with
  | true => rfl
  | false => cases second.any fun p => (s.keyOf p.2).contains .null <;> rfl

def putVisible (files : DelvecFiles) (t : TabletMetadataPb) (index : Tuple → Option SegmentRowRef)
    (keys : List (SegmentRowRef × Tuple)) : Tuple → Option SegmentRowRef :=
  (keys.filter fun p => !(delvecOf files t p.1.segmentId).contains p.1.rowId).foldl
    (fun index p => Function.update index p.2 (some p.1)) index

theorem addVisibleRows_eq (readable : Readable files t) (member : r ∈ t.rowsets)
    (index : Tuple → Option SegmentRowRef) :
    addVisibleRows files t s index r = (do
      let keys ← encodePrimaryKeys s (rowRefs r.placed)
      return putVisible files t index keys) := by
  unfold addVisibleRows
  by_cases empty : r.segments = []
  · have none' : r.placed = [] := by
      unfold RowsetMetadataPb.placed
      cases r.id with
      | none => rfl
      | some id => rw [empty]; rfl
    rw [if_pos (List.isEmpty_iff.mpr empty), none']
    rfl
  · rw [if_neg (by simpa using empty)]
    cases named : r.id with
    | none => exact (readable.ids r member empty named).elim
    | some id =>
      have placed : r.placed = (Rowset.mk id r.segments).placed := by
        rw [RowsetMetadataPb.placed, named]
      rw [placed]
      obtain ⟨delvecs,loaded⟩ := loadAll_isOk fun id'
        (_ : id' ∈ (Rowset.mk id r.segments).placed.map Prod.fst) => readable.delvecs id'
      cases encoded : encodePrimaryKeys s (rowRefs (Rowset.mk id r.segments).placed) with
      | error message => simp only [encoded]; rfl
      | ok keys =>
        simp only [encoded, loaded]
        change Except.ok (foldl _ _ (keys.filter _)) = Except.ok (foldl _ _ (keys.filter _))
        congr 2
        apply filter_congr
        intro p inKeys
        rw [encodePrimaryKeys_ok encoded] at inKeys
        obtain ⟨q,listed,rfl⟩ := mem_map.mp inKeys
        rw [delvecOf_eq (lookup_loadAll loaded (mem_rowRefs listed))]

theorem buildStoredVisibleIndex_eq (readable : Readable files t) :
    buildStoredVisibleIndex files t s = buildVisiblePrimaryKeyIndex s (viewOf files t) := by
  have rowsets : ∀ (rowsets : List RowsetMetadataPb) (index : Tuple → Option SegmentRowRef),
      (∀ r ∈ rowsets, r ∈ t.rowsets) → rowsets.foldlM (addVisibleRows files t s) index = (do
        let keys ← encodePrimaryKeys s (rowRefs (rowsets.flatMap RowsetMetadataPb.placed))
        return putVisible files t index keys) := by
    intro rowsets
    induction rowsets with
    | nil => exact fun _ _ => rfl
    | cons r rest ih =>
      intro index inside
      rw [forall_mem_cons] at inside
      have twice : ∀ keys keys', putVisible files t (putVisible files t index keys) keys' =
          putVisible files t index (keys ++ keys') := by
        simp [putVisible]
      simp only [foldlM_cons, addVisibleRows_eq readable inside.1, flatMap_cons, rowRefs_append,
        encodePrimaryKeys_append, bind_assoc, pure_bind, ih _ inside.2, twice]
  rw [buildStoredVisibleIndex, rowsets t.rowsets _ fun _ member => member, buildVisiblePrimaryKeyIndex,
    viewOf_placed]
  cases encodePrimaryKeys s (rowRefs (t.rowsets.flatMap RowsetMetadataPb.placed)) with
  | error | ok => rfl

def finalIndex (s : TabletSchema) (first : Nat) (segments : List Segment) (deletes : List Tuple)
    (index : KeyIndex) : KeyIndex :=
  deletes.foldl remove
    (((rowRefs (Rowset.mk first segments).placed).map fun p => (p.1, s.keyOf p.2)).foldl
      insert index)

/-- What a publish does: nothing, for a log with nothing in it, or a rowset is appended
and the rows that lost their key are marked. -/
theorem applyPrimaryKeyWriteLog_cases
    (done : applyPrimaryKeyWriteLog files t op schemaId schema applyVersion txnId = .ok (files', t')) :
    (files' = files ∧ t' = t ∧ op.log.upserts = [] ∧ op.dels = []) ∨
    ∃ rowset index newKeys updates delvecMeta, op.rowset = some rowset ∧
      ¬(rowset.numRows = 0 ∧ op.dels = []) ∧
      buildStoredVisibleIndex files t schema.table = .ok index ∧
      encodePrimaryKeys schema.table (rowRefs (Rowset.mk t.newRowsetId rowset.segments).placed) =
        .ok newKeys ∧
      mergedUpdates files t (finalIndex schema.table t.newRowsetId rowset.segments
        op.log.deletes index).changed = .ok updates ∧
      persistDelvecUpdates files t.delvecMeta t.id applyVersion txnId updates = .ok (files', delvecMeta) ∧
      t' = { t.appendRowset (attachOpWriteDeleteFilesToRowset rowset t.newRowsetId op.dels)
        schemaId with delvecMeta } := by
  obtain ⟨_,versioned,done⟩ := bind_ok done
  obtain ⟨_,named,done⟩ := bind_ok done
  cases logged : op.rowset with
  | none =>
    rw [logged] at done
    obtain ⟨_,empty,last⟩ := bind_ok done
    cases last
    exact .inl ⟨rfl,rfl,by simp [OpWrite.upserts, OpWritePb.log, logged],
      List.isEmpty_iff.mp (guardThat_ok empty)⟩
  | some rowset =>
    rw [logged] at done
    obtain ⟨_,plain,done⟩ := bind_ok done
    split at done
    case isTrue nothing =>
      rw [Bool.and_eq_true, decide_eq_true_eq, List.isEmpty_iff] at nothing
      cases done
      refine .inl ⟨rfl,rfl,?_,nothing.2⟩
      simpa [OpWrite.upserts, OpWritePb.log, logged] using length_eq_zero_iff.mp nothing.1
    case isFalse something =>
      rw [Bool.and_eq_true, decide_eq_true_eq, List.isEmpty_iff] at something
      obtain ⟨_,consistent,done⟩ := bind_ok done
      obtain ⟨_,keyed,done⟩ := bind_ok done
      obtain ⟨index,built,done⟩ := bind_ok done
      obtain ⟨newKeys,encoded,done⟩ := bind_ok done
      obtain ⟨updates,merged,done⟩ := bind_ok done
      obtain ⟨⟨written,delvecMeta⟩,persisted,last⟩ := bind_ok done
      cases last
      rw [encodePrimaryKeys_ok encoded] at merged
      exact .inr ⟨rowset,index,newKeys,updates,delvecMeta,rfl,something,built,encoded,merged,persisted,rfl⟩

theorem mergedUpdates_ok (merged : mergedUpdates files t changed = .ok updates) :
    updates.map Prod.fst = (changed.map SegmentRowRef.segmentId).dedup ∧
      ∀ u ∈ updates, u.2 = delvecOf files t u.1 ++
        ((changed.filter fun r => r.segmentId = u.1).map rowId) := by
  obtain ⟨bases,loaded,last⟩ := bind_ok merged
  cases last
  obtain ⟨keys,loads⟩ := loadAll_ok loaded
  constructor
  · rw [← keys, map_map]
    rfl
  · intro u member
    obtain ⟨base,inside,rfl⟩ := mem_map.mp member
    rw [delvecOf_eq (loads base inside)]

/-- No delete vector in use lies in the file that the publish writes under another version. -/
def TabletMetadataPb.FileAlone (t : TabletMetadataPb) (applyVersion txnId : Int) : Prop :=
  ∀ file, delvecFileName t.delvecMeta t.id applyVersion txnId = .ok file →
    t.delvecMeta.FileAlone applyVersion file

section
variable {t : TabletMetadataPb} (alone : t.FileAlone applyVersion txnId)
include alone

theorem load_published (readable : Readable files t) (merged : mergedUpdates files t changed = .ok updates)
    (persisted : persistDelvecUpdates files t.delvecMeta t.id applyVersion txnId updates =
      .ok (files', delvecMeta)) (id : Nat) :
    loadSegmentDelvecBitmap files' delvecMeta id = .ok (delvecOf files t id ++
      ((changed.filter fun r => r.segmentId = id).map rowId)) := by
  obtain ⟨keys,values⟩ := mergedUpdates_ok merged
  have distinct : (updates.map Prod.fst).Nodup := by
    rw [keys]
    exact nodup_dedup _
  obtain ⟨updated,others⟩ := load_persisted distinct persisted
  replace others := others alone
  by_cases touched : id ∈ updates.map Prod.fst
  · obtain ⟨u,member,rfl⟩ := mem_map.mp touched
    rw [updated u member, values u member]
  · have none' : (changed.filter fun r => r.segmentId = id) = [] := by
      rw [filter_eq_nil_iff]
      intro r member same
      rw [decide_eq_true_eq] at same
      apply touched
      rw [keys, mem_dedup, ← same]
      exact mem_map_of_mem member
    obtain ⟨bitmap,loaded⟩ := readable.delvecs id
    rw [others id touched, none', map_nil, append_nil, loaded, delvecOf_eq loaded]

theorem viewOf_appended (readable : Readable files t) (merged : mergedUpdates files t changed = .ok updates)
    (persisted : persistDelvecUpdates files t.delvecMeta t.id applyVersion txnId updates =
      .ok (files', delvecMeta)) :
    viewOf files' { t.appendRowset (attachOpWriteDeleteFilesToRowset rowset t.newRowsetId dels)
      schemaId with delvecMeta } = published (viewOf files t) rowset.segments changed := by
  have delvec : delvecOf files' { t.appendRowset (attachOpWriteDeleteFilesToRowset rowset
      t.newRowsetId dels) schemaId with delvecMeta } = fun id => delvecOf files t id ++
        ((changed.filter fun r => r.segmentId = id).map rowId) := by
    funext id
    exact delvecOf_eq (load_published alone readable merged persisted id)
  have next := viewOf_newRowsetId files t
  rw [published, next, viewOf, delvec]
  simp [viewOf, TabletMetadataPb.appendRowset, attachOpWriteDeleteFilesToRowset]

theorem viewOf_publish (readable : Readable files t)
    (done : applyPrimaryKeyWriteLog files t op schemaId schema applyVersion txnId = .ok (files', t')) :
    applyPrimaryKeyWriteLogToMetadata schema.table (viewOf files t) op.log = .ok (viewOf files' t') := by
  obtain ⟨rfl,rfl,noUpserts,noDels⟩ |
    ⟨rowset,index,newKeys,updates,delvecMeta,logged,something,built,encoded,merged,persisted,
      rfl⟩ := applyPrimaryKeyWriteLog_cases done
  · unfold applyPrimaryKeyWriteLogToMetadata
    have noDels' : op.log.dels = [] := noDels
    cases logged : op.log.rowset with
    | none => simp [noDels']
    | some segments =>
      have noRows : segments.flatMap Segment.rows = [] := by
        simpa [OpWrite.upserts, logged] using noUpserts
      simp [noDels', noRows]
  · have next := viewOf_newRowsetId files t
    have log : op.log = ⟨some rowset.segments,op.dels⟩ := by
      rw [OpWritePb.log, logged]
      rfl
    have busy : ¬(rowset.segments.flatMap Segment.rows = [] ∧ op.dels = []) := fun nothing =>
      something ⟨length_eq_zero_iff.mpr nothing.1,nothing.2⟩
    rw [buildStoredVisibleIndex_eq readable] at built
    rw [← next] at encoded
    rw [log, publish_eq built encoded busy, viewOf_appended alone readable merged persisted, next]
    rfl

end

theorem mergedUpdates_isOk (readable : Readable files t) (changed : List SegmentRowRef) :
    ∃ updates, mergedUpdates files t changed = .ok updates := by
  obtain ⟨bases,loaded⟩ := loadAll_isOk fun id
    (_ : id ∈ (changed.map SegmentRowRef.segmentId).dedup) => readable.delvecs id
  rw [mergedUpdates, loaded]
  exact ⟨_,rfl⟩

def OpWritePb.ofLog (log : OpWrite) : OpWritePb :=
  ⟨log.rowset.map fun segments => ⟨none, segments, 0, false, [], none⟩, log.dels, none⟩

omit [DelvecEncoding] in
theorem OpWritePb.log_ofLog (log : OpWrite) : (OpWritePb.ofLog log).log = log := by
  obtain ⟨rowset,dels⟩ := log
  cases rowset <;> rfl

theorem delvecFileName_fresh {t : TabletMetadataPb} (identified : t.id = some tabletId)
    (positive : 0 < tabletId) (version : 0 < applyVersion) (txn : 0 < txnId)
    (fresh : t.delvecMeta.versionToFile.lookup applyVersion = none) :
    ∃ file, delvecFileName t.delvecMeta t.id applyVersion txnId = .ok file := by
  simp only [delvecFileName, existingDelvecFileNameForVersion, fresh, identified, buildDelvecFileName,
    if_neg (Int.not_le.mpr positive), if_neg (Int.not_le.mpr version), if_neg (Int.not_le.mpr txn)]
  exact ⟨_,rfl⟩

/-- A log that can be published on the rows can be published on the stored tablet, as a
version that has no file yet. -/
theorem publish_isOk (readable : Readable files t)
    (keyed : schema.table.keyIdxes ≠ []) (version : 0 < applyVersion) (txn : 0 < txnId)
    (identified : t.id = some tabletId) (positive : 0 < tabletId)
    (fresh : t.delvecMeta.versionToFile.lookup applyVersion = none)
    (done : applyPrimaryKeyWriteLogToMetadata schema.table (viewOf files t) log = .ok v) :
    ∃ files' t', applyPrimaryKeyWriteLog files t (.ofLog log) schemaId schema applyVersion txnId =
      .ok (files', t') := by
  obtain ⟨rowset,dels⟩ := log
  unfold applyPrimaryKeyWriteLog
  simp only [version, txn, OpWritePb.ofLog]
  cases rowset with
  | none =>
    unfold applyPrimaryKeyWriteLogToMetadata at done
    dsimp only at done
    split at done
    · rename_i empty
      exact ⟨files,t,by simp only [empty]; rfl⟩
    · cases done
  | some segments =>
    by_cases nothing : segments.flatMap Segment.rows = [] ∧ dels = []
    · exact ⟨files,t,by simp [RowsetMetadataPb.numRows, nothing]; rfl⟩
    · have next := viewOf_newRowsetId files t
      have busy : ((segments.flatMap Segment.rows).isEmpty && dels.isEmpty) = false := by
        rw [← Bool.not_eq_true, Bool.and_eq_true, List.isEmpty_iff, List.isEmpty_iff]
        exact nothing
      simp only [applyPrimaryKeyWriteLogToMetadata, busy] at done
      obtain ⟨index,built,done⟩ := bind_ok done
      obtain ⟨newKeys,encoded,last⟩ := bind_ok done
      rw [← buildStoredVisibleIndex_eq readable] at built
      rw [next] at encoded
      obtain ⟨updates,merged⟩ := mergedUpdates_isOk readable ((dels.flatMap DelFile.keys).foldl
        remove (newKeys.foldl insert index)).changed
      obtain ⟨files',delvecMeta,persisted⟩ : ∃ files' delvecMeta, persistDelvecUpdates files
          t.delvecMeta t.id applyVersion txnId updates = .ok (files', delvecMeta) :=
        persistDelvecUpdates_isOk (delvecFileName_fresh identified positive version txn fresh)
          readable.delvecs
      have keyed' : (!schema.table.keyIdxes.isEmpty) = true := by simpa using keyed
      simp only [bind, Except.bind, Option.map_some, RowsetMetadataPb.numRows, keyed',
        built, encoded, merged, persisted, Bool.and_eq_true, decide_eq_true_eq,
        length_eq_zero_iff, List.isEmpty_iff, nothing]
      exact ⟨_,_,rfl⟩

/-! The last writer wins. -/

namespace StoredTablet
variable {t : StoredTablet} {schema : TabletSchemaPb}

def view (t : StoredTablet) : TabletMetadata :=
  viewOf t.files t.metadata

/-- What a key has after a log: nothing if a delete file has the key, else its last row
in the new rowset, else the row it had. -/
def lastWriter (s : TabletSchema) (m : Tuple → Option Tuple) (log : OpWrite) (k : Tuple) : Option Tuple :=
  if k ∈ log.deletes then none else (lastValue s.keyOf log.upserts k).or (m k)

omit [DelvecEncoding] in
theorem lastWriter_eq (s : TabletSchema) (m : Tuple → Option Tuple) (log : OpWrite) :
    lastWriter s m log = dropAll (putAll s.keyOf m log.upserts) log.deletes := by
  funext k
  by_cases gone : k ∈ log.deletes
  · rw [lastWriter, dropAll_apply, if_pos gone, if_pos gone]
  · rw [lastWriter, dropAll_apply, if_neg gone, if_neg gone, putAll_apply]

/-- A publish that succeeds leaves each key its last row, and one that fails leaves the
metadata as it was. -/
def LastWriterWins (t : StoredTablet) (schema : TabletSchemaPb) (m : Tuple → Option Tuple)
    (op : OpWritePb) (schemaId applyVersion txnId : Int) : Prop :=
  match t.publish op schemaId schema applyVersion txnId with
  | (after, .ok _) => Holds schema.table after.view (lastWriter schema.table m op.log)
  | (after, .error _) => after.metadata = t.metadata

omit [DelvecEncoding] in
theorem exists_unused_version (meta' : DelvecMeta) :
    ∃ version : Int, 0 < version ∧ meta'.versionToFile.lookup version = none := by
  obtain ⟨version,positive,unused⟩ :=
    (Set.Ioi_infinite (0 : Int)).exists_notMem_finset meta'.versionToFile.keys.toFinset
  refine ⟨version,positive,AList.lookup_eq_none.mpr fun member => ?_⟩
  exact unused (mem_toFinset.mpr (AList.mem_keys.mp member))

end StoredTablet

end

namespace StoredTablet

def oneKey : TabletSchemaPb :=
  ⟨some 1, some 10, ⟨1, [0], [0]⟩⟩

def withSegments (segments : List Segment) (delvecMeta : DelvecMeta) : StoredTablet where
  files := writtenFiles
  metadata :=
    { id := some 7, schema := some oneKey, rowsets := [⟨some 1, segments, 0, false, [], none⟩]
      nextRowsetId := none, cumulativePoint := none, delvecMeta
      historicalSchemas := fun _ => none, rowsetToSchema := ∅ }

def threeRows : StoredTablet :=
  withSegments [⟨⟨0, 1⟩, [[.int 1], [.int 2], [.int 3]]⟩] oneVersion

def upsertOf (row : Tuple) (dels : List DelFile) : OpWritePb :=
  ⟨some ⟨none, [⟨⟨0, 9⟩, [row]⟩], 0, false, [], none⟩, dels, some (some 1)⟩

theorem threeRows_readable : Readable threeRows.files threeRows.metadata where
  ids := by simp [threeRows, withSegments]
  delvecs := by
    intro id
    by_cases first : id = 1
    · subst first
      exact ⟨[1],rfl⟩
    · have unlisted : oneVersion.delvecs.lookup id = none := AList.lookup_insert_ne first
      exact ⟨[],by simp only [loadSegmentDelvecBitmap, threeRows, withSegments, unlisted]⟩

end StoredTablet

end NovaRocks.Lake
