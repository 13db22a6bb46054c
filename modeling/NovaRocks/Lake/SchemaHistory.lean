import NovaRocks.Lake.StoredMetadata
import Mathlib.Data.List.Fold
import Mathlib.Data.List.MinMax

/-!
Applying transaction logs to tablet metadata, and the schemas of the rowsets. The
schema a rowset was written with is recorded lazily: as long as no rowset's schema is
recorded, every rowset counts as written with the current one. The record starts when
the schema changes while there are rowsets, and a compaction that leaves no rowset
ends it again.
-/
namespace NovaRocks.Lake
open NovaRocks.Store List
open Option (mem_toList none_or some_or)

structure OpCompaction where
  inputRowsets : List Nat
  outputRowset : Option RowsetMetadataPb

structure OpSchemaChange where
  rowsets : List RowsetMetadataPb
  delvecMeta : Option DelvecMeta

/-- The updates of a log that alters the metadata; each may bring a schema. -/
abbrev OpAlterMetadata := List (Option TabletSchemaPb)

structure TxnLogPb where
  txnId : Option Int
  opWrite : Option OpWritePb
  opCompaction : Option OpCompaction
  opSchemaChange : Option OpSchemaChange
  opAlterMetadata : Option OpAlterMetadata
  opReplication : Bool

inductive TxnLogDispatch where
  | write (op : OpWritePb)
  | compaction (op : OpCompaction)
  | schemaChange (op : OpSchemaChange)
  | alterMetadata (op : OpAlterMetadata)
  | unsupported (name : String)
  | empty

def dispatchTxnLog (log : TxnLogPb) : TxnLogDispatch :=
  match log.opWrite, log.opCompaction, log.opSchemaChange, log.opAlterMetadata with
  | some op, _, _, _ => .write op
  | none, some op, _, _ => .compaction op
  | none, none, some op, _ => .schemaChange op
  | none, none, none, some op => .alterMetadata op
  | none, none, none, none => if log.opReplication then .unsupported "op_replication" else .empty

namespace TabletMetadataPb

variable (t : TabletMetadataPb)

def schemaId : Option Int :=
  t.schema.bind TabletSchemaPb.id

def rowsetIds : List Nat :=
  t.rowsets.filterMap RowsetMetadataPb.id

/-- A schema is added to the historical ones unless its id is there already. -/
def addHistorical (id : Int) (schema : TabletSchemaPb) : TabletMetadataPb :=
  { t with historicalSchemas :=
      Function.update t.historicalSchemas id (some ((t.historicalSchemas id).getD schema)) }

def bindRowsets (schemaId : Int) (reason : String) : Except String TabletMetadataPb :=
  if t.rowsets.any fun r => r.id.isNone then .error ("tablet rowset id is missing when " ++ reason)
  else
    let recorded := t.rowsetIds.foldl (fun m id => if id ∈ m then m else m.insert id schemaId)
      t.rowsetToSchema
    .ok { t with rowsetToSchema := recorded }

def bindUnrecorded (existingId : Int) : Except String TabletMetadataPb :=
  if t.rowsetToSchema.entries.isEmpty && !t.rowsets.isEmpty then
    t.bindRowsets existingId "switching schema"
  else .ok t

/-- Before the schema is replaced, rowsets count as written with it; it is kept. -/
def retireSchema (existing : TabletSchemaPb) (existingId : Int) :
    Except String TabletMetadataPb := do
  let bound ← t.bindUnrecorded existingId
  return bound.addHistorical existingId existing

def setSchema (newSchemaId : Int) (newSchema : TabletSchemaPb) : TabletMetadataPb :=
  { t.addHistorical newSchemaId newSchema with schema := some newSchema }

end TabletMetadataPb

section
variable (t : TabletMetadataPb)

def applyTabletSchemaUpdate (newSchema : TabletSchemaPb) : Except String TabletMetadataPb :=
  match newSchema.id with
  | none => .error "tablet schema update missing schema id"
  | some newSchemaId => do
    guardThat (0 < newSchemaId) "tablet schema update has non-positive schema id"
    match t.schema with
    | some existing =>
      let existingId := existing.id.getD 0
      if existingId = newSchemaId then return t.addHistorical newSchemaId existing
      else if 0 < existingId then
        let retired ← t.retireSchema existing existingId
        return retired.setSchema newSchemaId newSchema
      else return t.setSchema newSchemaId newSchema
    | none =>
      if t.rowsets.isEmpty then return t.setSchema newSchemaId newSchema
      else
        let bound ← t.bindRowsets newSchemaId "recovering schema-less metadata"
        return bound.setSchema newSchemaId newSchema

def OpWritePb.writeSchemaId (op : OpWritePb) (defaultSchemaId : Int) : Int :=
  ((op.schemaKey.bind fun id => id).filter (0 < ·)).getD defaultSchemaId

def maybeUpdateMetadataSchemaForWrite (op : OpWritePb) (defaultSchemaId : Int)
    (runtimeSchema : TabletSchemaPb) : Except String (TabletMetadataPb × Int) := do
  guardThat op.schemaKey.isSome "op_write missing schema_key for publish_version"
  let schemaId := op.writeSchemaId defaultSchemaId
  guardThat (0 < schemaId) "op_write has non-positive schema_id after fallback"
  if t.schemaId.getD 0 = schemaId || (t.historicalSchemas schemaId).isSome then return (t, schemaId)
  else
    match if runtimeSchema.id = some schemaId then some runtimeSchema
      else t.historicalSchemas schemaId with
    | none => throw "publish_version cannot resolve schema from schema_key"
    | some resolved => return (← applyTabletSchemaUpdate t resolved, schemaId)

def isPrimaryKeysTable (schema : TabletSchemaPb) : Except String Bool :=
  match schema.keysType with
  | none => .error "tablet schema missing keys_type for publish_version"
  | some raw =>
    if raw = 10 then .ok true
    else if raw = 0 || raw = 1 || raw = 2 then .ok false
    else .error "unknown keys_type in tablet schema for publish_version"

def applyWriteLog [DelvecEncoding] (files : DelvecFiles) (t : TabletMetadataPb) (op : OpWritePb) (txnId : Option Int)
    (defaultSchemaId : Int) (tabletSchema : TabletSchemaPb) (applyVersion : Int) :
    Except String (DelvecFiles × TabletMetadataPb) := do
  let (t, schemaId) ← maybeUpdateMetadataSchemaForWrite t op defaultSchemaId tabletSchema
  match txnId with
  | none => throw "txn log missing txn_id for publish_version"
  | some txnId =>
    guardThat (0 < applyVersion) "invalid apply_version for publish_version"
    if ← isPrimaryKeysTable tabletSchema then
      applyPrimaryKeyWriteLog files t op schemaId tabletSchema applyVersion txnId
    else match op.rowset with
      | none => return (files, t)
      | some rowset =>
        if 0 < rowset.numRows || rowset.deletePredicate then
          ensureRowsetSegmentMetaConsistency rowset
          return (files, t.appendRowset rowset schemaId)
        else return (files, t)

def lastInputPos (rowsets : List RowsetMetadataPb) : Nat → List Nat → Except String Nat
  | last, [] => .ok last
  | last, id :: rest =>
    match rowsets[last + 1]? with
    | none => .error "op_compaction input rowset not exist"
    | some found =>
      if found.id = some id then lastInputPos rowsets (last + 1) rest
      else .error "op_compaction input rowset position not adjacent"

def compactRecord (m : AList fun _ : Nat => Int) (inputs : List Nat) (output : Option Nat)
    (currentSchemaId : Int) : AList fun _ : Nat => Int :=
  let removed := inputs.foldl (fun m id => m.erase id) m
  match output with
  | some id => removed.insert id currentSchemaId
  | none => removed

/-- Historical schemas that no entry of the record has are dropped with it. -/
def TabletMetadataPb.compactSchemas (inputs : List Nat) (output : Option Nat)
    (currentSchemaId : Int) : TabletMetadataPb :=
  if t.rowsetToSchema.entries.isEmpty then t
  else
    let recorded := compactRecord t.rowsetToSchema inputs output currentSchemaId
    { t with
      rowsetToSchema := recorded
      historicalSchemas := fun id =>
        if recorded.entries.any fun e => e.2 = id then t.historicalSchemas id else none }

def newCumulativePoint (firstInputPos inputs : Nat) (kept : Bool) : Nat :=
  let current := t.cumulativePoint.getD 0
  let moved := if firstInputPos ≥ current then firstInputPos
    else if current ≥ inputs then current - inputs else 0
  if kept then moved + 1 else moved

/-- The output takes the place of the inputs; an output without rows is left out. -/
def TabletMetadataPb.replaceRowsets (firstPos lastPos : Nat) (output : Option RowsetMetadataPb)
    (inputs : List Nat) : TabletMetadataPb :=
  { t with
    rowsets := t.rowsets.take firstPos ++
      (output.map fun r =>
        { r with id := some t.newRowsetId, maxCompactInputRowsetId := inputs.max? }).toList ++
      t.rowsets.drop (lastPos + 1)
    nextRowsetId := match output with
      | some r => some (t.newRowsetId + max 1 r.segments.length)
      | none => t.nextRowsetId }

def ensureOutputConsistency : Option RowsetMetadataPb → Except String Unit
  | none => .ok ()
  | some r => ensureRowsetSegmentMetaConsistency r

def applyCompactionLog (op : OpCompaction) (defaultSchemaId : Int) : Except String TabletMetadataPb :=
  match op.inputRowsets with
  | [] => .ok t
  | firstInput :: others =>
    match t.rowsets.findIdx? fun r => r.id = some firstInput with
    | none => .error "op_compaction input rowset not exist"
    | some firstPos => do
      let lastPos ← lastInputPos t.rowsets firstPos others
      let currentSchemaId := (t.schemaId.filter (0 < ·)).getD defaultSchemaId
      let output := op.outputRowset.filter fun r => 0 < r.numRows
      ensureOutputConsistency output
      let replaced := t.replaceRowsets firstPos lastPos output op.inputRowsets
      let compacted := replaced.compactSchemas op.inputRowsets (output.map fun _ => t.newRowsetId)
        currentSchemaId
      let point := newCumulativePoint t firstPos op.inputRowsets.length output.isSome
      guardThat (point ≤ compacted.rowsets.length)
        "op_compaction new cumulative point exceeds rowset size"
      return { compacted with cumulativePoint := some point }

end

def appendAllRowsets (schemaId : Int) : TabletMetadataPb → List RowsetMetadataPb →
    Except String TabletMetadataPb
  | t, [] => .ok t
  | t, r :: rest => do
    ensureRowsetSegmentMetaConsistency r
    appendAllRowsets schemaId (t.appendRowset r schemaId) rest

def applySchemaChangeLog (t : TabletMetadataPb) (op : OpSchemaChange) (defaultSchemaId : Int) :
    Except String TabletMetadataPb := do
  let appended ← appendAllRowsets defaultSchemaId t op.rowsets
  return { appended with delvecMeta := op.delvecMeta.getD appended.delvecMeta }

def primaryKeySchemaChangeRequiresDelvecSupport (t : TabletMetadataPb) (schema : TabletSchemaPb) :
    Except String Bool := do
  if ← isPrimaryKeysTable schema then
    return !t.delvecMeta.versionToFile.entries.isEmpty || !t.delvecMeta.delvecs.entries.isEmpty ||
      t.rowsets.any fun r => !r.delFiles.isEmpty
  else return false

def applyAlterMetadataLog : TabletMetadataPb → OpAlterMetadata → Except String TabletMetadataPb
  | t, [] => .ok t
  | t, none :: rest => applyAlterMetadataLog t rest
  | t, some schema :: rest => do
    let updated ← applyTabletSchemaUpdate t schema
    applyAlterMetadataLog updated rest

def applyTxnLogToMetadata [DelvecEncoding] (files : DelvecFiles) (t : TabletMetadataPb) (log : TxnLogPb)
    (defaultSchemaId : Int) (tabletSchema : TabletSchemaPb) (applyVersion : Int) :
    Except String (DelvecFiles × TabletMetadataPb) :=
  match dispatchTxnLog log with
  | .write op => applyWriteLog files t op log.txnId defaultSchemaId tabletSchema applyVersion
  | .compaction op => do
    guardThat (!(← isPrimaryKeysTable tabletSchema))
      "publish_version does not support op_compaction for PRIMARY_KEYS yet"
    return (files, ← applyCompactionLog t op defaultSchemaId)
  | .schemaChange op => do
    guardThat (!(← primaryKeySchemaChangeRequiresDelvecSupport t tabletSchema))
      "publish_version does not support op_schema_change for PRIMARY_KEYS with delete vectors yet"
    return (files, ← applySchemaChangeLog t op defaultSchemaId)
  | .alterMetadata op => do
    return (files, ← applyAlterMetadataLog t op)
  | .unsupported name => .error ("publish_version does not support txn log operation " ++ name ++ " yet")
  | .empty => .ok (files, t)

/-! The schema of each rowset. -/

namespace TabletMetadataPb

section
variable (t : TabletMetadataPb)

def effectiveSchema (rowsetId : Nat) : Option Int :=
  (t.rowsetToSchema.lookup rowsetId).or t.schemaId

def Available (schemaId : Int) : Prop :=
  t.schemaId = some schemaId ∨ (t.historicalSchemas schemaId).isSome

/-- Each rowset has, as its effective schema, the one it was accepted with, and that
schema is at hand. -/
def Kept (accepted : Nat → Int) : Prop :=
  ∀ id ∈ t.rowsetIds, t.effectiveSchema id = some (accepted id) ∧ t.Available (accepted id)

def Unrecorded : Prop :=
  t.rowsetToSchema.entries = []

end

instance (t : TabletMetadataPb) : Decidable t.Unrecorded :=
  decidable_of_iff (t.rowsetToSchema.entries.isEmpty = true) List.isEmpty_iff

/-- A rowset that is appended now is read with this schema: it is the current one, or a
known one and schemas are recorded. -/
def ReadsWith (t : TabletMetadataPb) (v : Int) : Prop :=
  (t.Unrecorded → t.schemaId = some v) ∧ t.Available v

/-- There is a current schema, rowsets have ids of their own below the next one, and
once one rowset's schema is recorded, all are. -/
structure Shape (t : TabletMetadataPb) : Prop where
  current : ∃ c, t.schemaId = some c ∧ 0 < c
  named : ∀ r ∈ t.rowsets, r.id ≠ none
  distinct : t.rowsetIds.Nodup
  below : ∀ id ∈ t.rowsetIds, id < t.newRowsetId
  recorded : ¬t.Unrecorded → ∀ id ∈ t.rowsetIds, ∃ s, t.rowsetToSchema.lookup id = some s

variable {t t' : TabletMetadataPb}

theorem Unrecorded.lookup (unrecorded : t.Unrecorded) (id : Nat) : t.rowsetToSchema.lookup id = none := by
  rw [AList.lookup_eq_none]
  intro member
  have key := AList.mem_keys.mp member
  rw [AList.keys, keys, unrecorded] at key
  cases key

variable {id : Nat}

theorem not_unrecorded (found : t.rowsetToSchema.lookup id = some s) : ¬t.Unrecorded := by
  intro unrecorded
  rw [unrecorded.lookup] at found
  cases found

/-- The schema each rowset was accepted with, once rowsets of a schema are added. -/
def accept (t : TabletMetadataPb) (a : Nat → Int) (v : Int) (id : Nat) : Int :=
  if id ∈ t.rowsetIds then a id else v

theorem accept_old (old : id ∈ t.rowsetIds) (v : Int) : t.accept a v id = a id :=
  if_pos old

theorem accept_new (new : id ∉ t.rowsetIds) (v : Int) : t.accept a v id = v :=
  if_neg new

theorem Kept.congr (kept : t.Kept a) (same : ∀ id ∈ t.rowsetIds, a' id = a id) : t.Kept a' := by
  intro id member
  rw [same id member]
  exact kept id member

theorem lookup_orInsert (v : Int) (ids : List Nat) (m : AList fun _ : Nat => Int) (id : Nat) :
    (ids.foldl (fun m id => if id ∈ m then m else m.insert id v) m).lookup id =
      (m.lookup id).or (if id ∈ ids then some v else none) := by
  induction ids generalizing m with
  | nil => simp
  | cons first rest ih =>
    rw [foldl_cons, ih]
    by_cases known : first ∈ m
    · rw [if_pos known]
      by_cases same : id = first
      · obtain ⟨s,found⟩ := Option.isSome_iff_exists.mp (AList.lookup_isSome.mpr known)
        rw [same, found]
        rfl
      · simp [same]
    · rw [if_neg known]
      by_cases same : id = first
      · rw [same, AList.lookup_insert, AList.lookup_eq_none.mpr known]
        simp
      · rw [AList.lookup_insert_ne same]
        simp [same]

theorem addHistorical_isSome (id other : Int) (schema : TabletSchemaPb) :
    ((t.addHistorical id schema).historicalSchemas other).isSome ↔
      other = id ∨ (t.historicalSchemas other).isSome := by
  by_cases same : other = id
  · simp [addHistorical, same]
  · simp [addHistorical, same]

/-- What a new schema changes: it becomes the current one, the one before it becomes
historical, and the rowsets' schemas are recorded if they were not. -/
structure Updated (t t' : TabletMetadataPb) (c newId : Int) : Prop where
  rowsets : t'.rowsets = t.rowsets
  next : t'.nextRowsetId = t.nextRowsetId
  current : t'.schemaId = some newId
  historical : ∀ id, (t.historicalSchemas id).isSome → (t'.historicalSchemas id).isSome
  old : c = newId ∨ (t'.historicalSchemas c).isSome
  kept : c = newId ∨ ¬t.Unrecorded → t'.rowsetToSchema = t.rowsetToSchema
  bound : c ≠ newId → t.Unrecorded → ∀ id ∈ t.rowsetIds, t'.rowsetToSchema.lookup id = some c

theorem applyTabletSchemaUpdate_updated (current : t.schemaId = some c) (positive : 0 < c)
    (done : applyTabletSchemaUpdate t newSchema = .ok t') :
    ∃ newId, newSchema.id = some newId ∧ 0 < newId ∧ Updated t t' c newId := by
  obtain ⟨existing,schema,own⟩ := Option.bind_eq_some_iff.mp current
  unfold applyTabletSchemaUpdate at done
  cases named : newSchema.id with
  | none =>
    rw [named] at done
    cases done
  | some newId =>
    rw [named] at done
    obtain ⟨_,above,done⟩ := bind_ok done
    have above' : 0 < newId := by simpa using guardThat_ok above
    refine ⟨newId,rfl,above',?_⟩
    simp only [schema, own, Option.getD_some] at done
    split at done
    case isTrue same =>
      cases done
      refine ⟨rfl,rfl,by rw [← same]; exact current,?_,.inl same,fun _ => rfl,?_⟩
      · intro id known
        exact (addHistorical_isSome _ _ _).mpr (.inr known)
      · intro different
        exact (different same).elim
    case isFalse different =>
      obtain ⟨retired,retiring,last⟩ := bind_ok done
      obtain ⟨bound,binding,historical⟩ := bind_ok retiring
      cases last
      cases historical
      have isSome : ∀ id, (((bound.addHistorical c existing).setSchema newId newSchema).historicalSchemas
          id).isSome ↔ id = newId ∨ id = c ∨ (bound.historicalSchemas id).isSome := by
        intro id
        rw [← addHistorical_isSome]
        exact addHistorical_isSome _ _ _
      unfold bindUnrecorded at binding
      split at binding
      case isTrue unrecorded =>
        unfold bindRowsets at binding
        split at binding
        case isTrue missing => cases binding
        case isFalse all =>
          cases binding
          rw [Bool.and_eq_true, List.isEmpty_iff] at unrecorded
          refine ⟨rfl,rfl,named,?_,.inr ((isSome c).mpr (.inr (.inl rfl))),?_,?_⟩
          · intro id known
            exact (isSome id).mpr (.inr (.inr known))
          · rintro (same | recorded)
            · exact (different same).elim
            · exact (recorded unrecorded.1).elim
          · intro _ _ id member
            change (t.rowsetIds.foldl _ t.rowsetToSchema).lookup id = some c
            rw [lookup_orInsert, Unrecorded.lookup unrecorded.1, if_pos member]
            rfl
      case isFalse other =>
        cases binding
        refine ⟨rfl,rfl,named,?_,.inr ((isSome c).mpr (.inr (.inl rfl))),fun _ => rfl,?_⟩
        · intro id known
          exact (isSome id).mpr (.inr (.inr known))
        · intro _ unrecorded id member
          have none' : t.rowsets = [] := by
            rw [Bool.and_eq_true, List.isEmpty_iff, not_and] at other
            simpa using other unrecorded
          rw [rowsetIds, none'] at member
          cases member

theorem Updated.shape (updated : Updated t t' c newId) (shape : t.Shape)
    (positive : 0 < newId) : t'.Shape := by
  have ids : t'.rowsetIds = t.rowsetIds := by rw [rowsetIds, updated.rowsets, rowsetIds]
  have next : t'.newRowsetId = t.newRowsetId := by
    rw [newRowsetId, updated.next, updated.rowsets, newRowsetId]
  refine ⟨⟨newId,updated.current,positive⟩,?_,?_,?_,?_⟩
  · rw [updated.rowsets]
    exact shape.named
  · rw [ids]
    exact shape.distinct
  · rw [ids, next]
    exact shape.below
  · intro recorded id member
    rw [ids] at member
    by_cases same : c = newId
    · have map := updated.kept (.inl same)
      rw [Unrecorded, map] at recorded
      rw [map]
      exact shape.recorded recorded id member
    · by_cases unrecorded : t.Unrecorded
      · exact ⟨c,updated.bound same unrecorded id member⟩
      · rw [updated.kept (.inr unrecorded)]
        exact shape.recorded unrecorded id member

theorem Updated.keeps (updated : Updated t t' c newId) (shape : t.Shape)
    (current : t.schemaId = some c) (kept : t.Kept a) : t'.Kept a := by
  intro id member
  rw [rowsetIds, updated.rowsets] at member
  obtain ⟨effective,available⟩ := kept id member
  have available' : t'.Available (a id) := by
    rcases available with now | before
    · cases current.symm.trans now
      rcases updated.old with same | historical
      · exact .inl (by rw [updated.current, same])
      · exact .inr historical
    · exact .inr (updated.historical _ before)
  refine ⟨?_,available'⟩
  by_cases unrecorded : t.Unrecorded
  · rw [effectiveSchema, unrecorded.lookup, none_or, current] at effective
    rw [← effective]
    by_cases same : c = newId
    · rw [effectiveSchema, updated.kept (.inl same), unrecorded.lookup, none_or, updated.current, same]
    · rw [effectiveSchema, updated.bound same unrecorded id member, some_or]
  · obtain ⟨s,found⟩ := shape.recorded unrecorded id member
    rw [effectiveSchema, found, some_or] at effective
    rw [effectiveSchema, updated.kept (.inr unrecorded), found, some_or, effective]

/-! Appended rowsets. -/

theorem Shape.fresh (shape : t.Shape) : t.newRowsetId ∉ t.rowsetIds :=
  fun old => Nat.lt_irrefl _ (shape.below _ old)

theorem appendRowset_ids : (t.appendRowset r v).rowsetIds = t.rowsetIds ++ [t.newRowsetId] := by
  simp [rowsetIds, appendRowset]

theorem appendRowset_lookup (recorded : ¬t.Unrecorded) (id : Nat) :
    (t.appendRowset r v).rowsetToSchema.lookup id =
      if id = t.newRowsetId then some v else t.rowsetToSchema.lookup id := by
  have inserted : (t.appendRowset r v).rowsetToSchema = t.rowsetToSchema.insert t.newRowsetId v :=
    if_neg fun empty => recorded (List.isEmpty_iff.mp empty)
  rw [inserted]
  by_cases same : id = t.newRowsetId
  · rw [if_pos same, same, AList.lookup_insert]
  · rw [if_neg same, AList.lookup_insert_ne same]

theorem appendRowset_unrecorded : (t.appendRowset r v).Unrecorded ↔ t.Unrecorded := by
  by_cases unrecorded : t.Unrecorded
  · have same : (t.appendRowset r v).rowsetToSchema = t.rowsetToSchema :=
      if_pos (List.isEmpty_iff.mpr unrecorded)
    rw [Unrecorded, same, Unrecorded]
  · have found := appendRowset_lookup (r := r) (v := v) unrecorded t.newRowsetId
    rw [if_pos rfl] at found
    exact iff_of_false (not_unrecorded found) unrecorded

theorem Shape.append (shape : t.Shape) : (t.appendRowset r v).Shape := by
  have next : (t.appendRowset r v).newRowsetId = t.newRowsetId + max 1 r.segments.length := rfl
  refine ⟨shape.current,?_,?_,?_,?_⟩
  · exact forall_mem_append.mpr ⟨shape.named,by simp⟩
  · rw [appendRowset_ids, ← concat_eq_append]
    exact shape.distinct.concat shape.fresh
  · intro id member
    rw [appendRowset_ids] at member
    rcases mem_append.mp member with old | new
    · have below := shape.below id old
      omega
    · rw [mem_singleton.mp new]
      omega
  · intro recorded id member
    rw [appendRowset_unrecorded] at recorded
    rw [appendRowset_ids] at member
    rw [appendRowset_lookup recorded]
    by_cases same : id = t.newRowsetId
    · exact ⟨v,if_pos same⟩
    · rw [if_neg same]
      rcases mem_append.mp member with old | new
      · exact shape.recorded recorded id old
      · exact (same (mem_singleton.mp new)).elim

theorem appendRowset_effective_old {id : Nat} (shape : t.Shape) (old : id ∈ t.rowsetIds) :
    (t.appendRowset r v).effectiveSchema id = t.effectiveSchema id := by
  have other : id ≠ t.newRowsetId := Nat.ne_of_lt (shape.below id old)
  rw [effectiveSchema, effectiveSchema]
  by_cases unrecorded : t.Unrecorded
  · rw [Unrecorded.lookup (appendRowset_unrecorded.mpr unrecorded), unrecorded.lookup]
    rfl
  · rw [appendRowset_lookup unrecorded, if_neg other]
    rfl

theorem appendRowset_effective_new :
    (t.appendRowset r v).effectiveSchema t.newRowsetId = if t.Unrecorded then t.schemaId else some v := by
  by_cases unrecorded : t.Unrecorded
  · rw [if_pos unrecorded, effectiveSchema,
      Unrecorded.lookup (appendRowset_unrecorded.mpr unrecorded), none_or]
    rfl
  · rw [if_neg unrecorded, effectiveSchema, appendRowset_lookup unrecorded, if_pos rfl, some_or]

theorem Kept.of_append (shape : t.Shape) (kept : (t.appendRowset r v).Kept a) : t.Kept a := by
  intro id old
  obtain ⟨effective,available⟩ := kept id (by rw [appendRowset_ids]; simp [old])
  rw [appendRowset_effective_old shape old] at effective
  exact ⟨effective,available⟩

/-- An appended rowset has its own schema exactly if schemas are recorded or its schema
is the current one. -/
theorem Kept.append_iff (shape : t.Shape) (kept : t.Kept a) :
    (t.appendRowset r v).Kept (t.accept a v) ↔ t.ReadsWith v := by
  constructor
  · intro after
    obtain ⟨effective,available⟩ := after t.newRowsetId (by rw [appendRowset_ids]; simp)
    rw [accept_new shape.fresh] at effective available
    refine ⟨?_,available⟩
    intro unrecorded
    rwa [appendRowset_effective_new, if_pos unrecorded] at effective
  · rintro ⟨current,available⟩ id member
    rw [appendRowset_ids] at member
    rcases mem_append.mp member with old | last
    · rw [accept_old old, appendRowset_effective_old shape old]
      exact kept id old
    · rw [mem_singleton.mp last, accept_new shape.fresh, appendRowset_effective_new]
      refine ⟨?_,available⟩
      by_cases unrecorded : t.Unrecorded
      · rw [if_pos unrecorded, current unrecorded]
      · rw [if_neg unrecorded]

theorem appendRowset_readsWith : (t.appendRowset r v).ReadsWith w ↔ t.ReadsWith w := by
  rw [ReadsWith, appendRowset_unrecorded]
  rfl

theorem appendRowset_accept : (t.appendRowset r v).accept (t.accept a v) v = t.accept a v := by
  funext id
  by_cases old : id ∈ t.rowsetIds
  · exact accept_old (by rw [appendRowset_ids]; simp [old]) v
  · by_cases new : id ∈ (t.appendRowset r v).rowsetIds
    · exact accept_old new v
    · rw [accept_new new, accept_new old]

/-! Compactions. -/

variable {rowsets : List RowsetMetadataPb}

theorem lastInputPos_split (done : lastInputPos rowsets last others = .ok last') :
    ∃ middle, rowsets.drop (last + 1) = middle ++ rowsets.drop (last' + 1) ∧
      middle.filterMap RowsetMetadataPb.id = others := by
  induction others generalizing last with
  | nil =>
    cases done
    exact ⟨[],rfl,rfl⟩
  | cons id rest ih =>
    unfold lastInputPos at done
    split at done
    · cases done
    rename_i r found
    split at done
    case isFalse other => cases done
    case isTrue own =>
      obtain ⟨middle,later,ids⟩ := ih done
      obtain ⟨inside,here⟩ := List.getElem?_eq_some_iff.mp found
      refine ⟨r :: middle,?_,?_⟩
      · rw [drop_eq_getElem_cons inside, here, later]
        rfl
      · rw [filterMap_cons, own, ids]

theorem applyCompactionLog_cases (done : applyCompactionLog t op defaultSchemaId = .ok t') :
    op.inputRowsets = [] ∧ t' = t ∨ op.inputRowsets ≠ [] ∧ ∃ firstPos lastPos inputs point,
      t.rowsets = t.rowsets.take firstPos ++ inputs ++ t.rowsets.drop (lastPos + 1) ∧
      inputs.filterMap RowsetMetadataPb.id = op.inputRowsets ∧
      t' = { (t.replaceRowsets firstPos lastPos (op.outputRowset.filter fun r => 0 < r.numRows)
          op.inputRowsets).compactSchemas op.inputRowsets
          ((op.outputRowset.filter fun r => 0 < r.numRows).map fun _ => t.newRowsetId)
          ((t.schemaId.filter (0 < ·)).getD defaultSchemaId) with cumulativePoint := some point } := by
  unfold applyCompactionLog at done
  generalize op.inputRowsets = listed at done ⊢
  cases listed with
  | nil =>
    cases done
    exact .inl ⟨rfl,rfl⟩
  | cons firstInput others =>
    dsimp only at done
    split at done
    · cases done
    · rename_i firstPos first
      obtain ⟨lastPos,last,done⟩ := bind_ok done
      obtain ⟨_,consistent,done⟩ := bind_ok done
      obtain ⟨_,within,last'⟩ := bind_ok done
      cases last'
      obtain ⟨inside,own,_⟩ := findIdx?_eq_some_iff_getElem.mp first
      obtain ⟨middle,later,ids⟩ := lastInputPos_split last
      refine .inr ⟨cons_ne_nil _ _,firstPos,lastPos,t.rowsets[firstPos] :: middle,_,?_,?_,rfl⟩
      · have split' := (take_append_drop firstPos t.rowsets).symm
        rw [drop_eq_getElem_cons inside, later] at split'
        rw [append_assoc]
        exact split'
      · rw [decide_eq_true_eq] at own
        rw [filterMap_cons, own, ids]

theorem lookup_erases {inputs : List Nat} {m : AList fun _ : Nat => Int}
    (other : id ∉ inputs) : (inputs.foldl (fun m id => m.erase id) m).lookup id = m.lookup id := by
  induction inputs generalizing m with
  | nil => rfl
  | cons first rest ih =>
    rw [mem_cons, not_or] at other
    rw [foldl_cons, ih other.2, AList.lookup_erase_ne other.1]

theorem lt_nextRowsetId
    (member : id ∈ rowsets.filterMap RowsetMetadataPb.id) : id < NovaRocks.Lake.nextRowsetId rowsets := by
  rw [NovaRocks.Lake.nextRowsetId, foldl_eq_foldr]
  exact Nat.lt_succ_of_le (le_max_of_le' 0 member (Nat.le_refl id))

theorem compactSchemas_frame (t : TabletMetadataPb) (inputs : List Nat) (output : Option Nat) (c : Int) :
    (t.compactSchemas inputs output c).rowsets = t.rowsets ∧
    (t.compactSchemas inputs output c).schemaId = t.schemaId ∧
    (t.compactSchemas inputs output c).newRowsetId = t.newRowsetId := by
  unfold compactSchemas
  split <;> exact ⟨rfl,rfl,rfl⟩

theorem compactSchemas_other {id : Nat} (other : id ∉ inputs) (old : output ≠ some id)
    (found : t.rowsetToSchema.lookup id = some s) :
    (t.compactSchemas inputs output c).rowsetToSchema.lookup id = some s ∧
      (t.compactSchemas inputs output c).historicalSchemas s = t.historicalSchemas s := by
  unfold compactSchemas
  rw [if_neg fun empty => not_unrecorded found (List.isEmpty_iff.mp empty)]
  have recorded : (compactRecord t.rowsetToSchema inputs output c).lookup id = some s := by
    unfold compactRecord
    cases output with
    | none =>
      rw [lookup_erases other, found]
    | some new =>
      rw [AList.lookup_insert_ne (fun same => old (by rw [same])), lookup_erases other, found]
  refine ⟨recorded,if_pos ?_⟩
  rw [any_eq_true]
  exact ⟨⟨id,s⟩,AList.mem_lookup_iff.mp recorded,by simp⟩

theorem compactSchemas_output {id : Nat} (recorded : ¬t.Unrecorded) :
    (t.compactSchemas inputs (some id) c).rowsetToSchema.lookup id = some c := by
  unfold compactSchemas
  rw [if_neg fun empty => recorded (List.isEmpty_iff.mp empty)]
  exact AList.lookup_insert _

theorem compactSchemas_unrecorded (unrecorded : t.Unrecorded) : t.compactSchemas inputs output c = t :=
  if_pos (List.isEmpty_iff.mpr unrecorded)

/-- The rowsets after a compaction: those that were no inputs, and the output under a
new id. -/
structure Replaced (t t' : TabletMetadataPb) (inputs : List Nat) (output : Option Nat) : Prop where
  ids : ∀ id ∈ t'.rowsetIds, id ∈ t.rowsetIds ∧ id ∉ inputs ∨ output = some id
  fresh : ∀ id, output = some id → id = t.newRowsetId
  named : ∀ r ∈ t'.rowsets, r.id ≠ none
  distinct : t'.rowsetIds.Nodup
  below : ∀ id ∈ t'.rowsetIds, id < t'.newRowsetId

theorem replaceRowsets_replaced (shape : t.Shape)
    (split' : t.rowsets = t.rowsets.take firstPos ++ removed ++ t.rowsets.drop (lastPos + 1))
    (listed : removed.filterMap RowsetMetadataPb.id = inputs) :
    Replaced t (t.replaceRowsets firstPos lastPos out inputs) inputs (out.map fun _ => t.newRowsetId) := by
  let before := (t.rowsets.take firstPos).filterMap RowsetMetadataPb.id
  let after := (t.rowsets.drop (lastPos + 1)).filterMap RowsetMetadataPb.id
  have oldIds : t.rowsetIds.Perm (inputs ++ (before ++ after)) := by
    rw [rowsetIds]
    conv_lhs => rw [split', append_assoc, filterMap_append, filterMap_append, listed]
    exact perm_append_comm_assoc _ _ _
  have newIds : (t.replaceRowsets firstPos lastPos out inputs).rowsetIds.Perm
      ((out.map fun _ => t.newRowsetId).toList ++ (before ++ after)) := by
    change ((t.rowsets.take firstPos ++ _ ++ t.rowsets.drop (lastPos + 1)).filterMap _).Perm _
    rw [append_assoc, filterMap_append, filterMap_append]
    refine (perm_append_comm_assoc _ _ _).trans (.of_eq ?_)
    cases out <;> rfl
  obtain ⟨-,keptDistinct,apart⟩ := nodup_append.mp (oldIds.nodup_iff.mp shape.distinct)
  have old : ∀ id ∈ before ++ after, id ∈ t.rowsetIds :=
    fun id kept => oldIds.mem_iff.mpr (mem_append_right _ kept)
  have where' : ∀ id ∈ (t.replaceRowsets firstPos lastPos out inputs).rowsetIds,
      id ∈ t.rowsetIds ∧ id ∉ inputs ∨ (out.map fun _ => t.newRowsetId) = some id := by
    intro id member
    rcases mem_append.mp (newIds.mem_iff.mp member) with new | kept
    · exact .inr (mem_toList.mp new)
    · exact .inl ⟨old id kept,fun input => apart id input id kept rfl⟩
  have fresh : ∀ id, (out.map fun _ => t.newRowsetId) = some id → id = t.newRowsetId := by
    intro id new
    obtain ⟨_,_,same⟩ := Option.map_eq_some_iff.mp new
    exact same.symm
  refine ⟨where',fresh,?_,?_,?_⟩
  · intro r member
    rcases mem_append.mp member with left | inAfter
    · rcases mem_append.mp left with inBefore | new
      · exact shape.named r (mem_of_mem_take inBefore)
      · obtain ⟨r',_,same⟩ := Option.map_eq_some_iff.mp (mem_toList.mp new)
        rw [← same]
        simp
    · exact shape.named r (mem_of_mem_drop inAfter)
  · rw [newIds.nodup_iff, nodup_append]
    refine ⟨by cases out <;> simp,keptDistinct,?_⟩
    rintro id new _ kept rfl
    exact shape.fresh (fresh id (mem_toList.mp new) ▸ old id kept)
  · intro id member
    cases out with
    | some r =>
      change id < t.newRowsetId + max 1 r.segments.length
      rcases where' id member with ⟨old,_⟩ | new
      · have below := shape.below id old
        omega
      · have own := fresh id new
        omega
    | none =>
      rcases where' id member with ⟨old,_⟩ | new
      · have below := shape.below id old
        rw [newRowsetId] at below
        change id < t.nextRowsetId.getD _
        cases recorded : t.nextRowsetId with
        | some next => rwa [recorded] at below
        | none => exact lt_nextRowsetId member
      · cases new

theorem Kept.compact (shape : t.Shape) (kept : t.Kept a) (current : t.schemaId = some c)
    (step : Replaced t replaced inputs output) (schema : replaced.schemaId = t.schemaId)
    (record : replaced.rowsetToSchema = t.rowsetToSchema)
    (historical : replaced.historicalSchemas = t.historicalSchemas) :
    (replaced.compactSchemas inputs output c).Shape ∧
      (replaced.compactSchemas inputs output c).Kept (t.accept a c) := by
  obtain ⟨rowsets,schemaId,next⟩ := compactSchemas_frame replaced inputs output c
  have ids : (replaced.compactSchemas inputs output c).rowsetIds = replaced.rowsetIds := by
    rw [rowsetIds, rowsets, rowsetIds]
  have new : ∀ id, output = some id → id ∉ t.rowsetIds := by
    intro id taken
    rw [step.fresh id taken]
    exact shape.fresh
  have unrecorded_iff : replaced.Unrecorded ↔ t.Unrecorded := by
    rw [Unrecorded, record, Unrecorded]
  constructor
  · refine ⟨?_,?_,?_,?_,?_⟩
    · rw [schemaId, schema]
      exact shape.current
    · rw [rowsets]
      exact step.named
    · rw [ids]
      exact step.distinct
    · rw [ids, next]
      exact step.below
    · intro recorded id member
      rw [ids] at member
      by_cases unrecorded : replaced.Unrecorded
      · rw [compactSchemas_unrecorded unrecorded] at recorded
        exact (recorded unrecorded).elim
      · rcases step.ids id member with ⟨old,other⟩ | taken
        · obtain ⟨s,found⟩ := shape.recorded (unrecorded_iff.not.mp unrecorded) id old
          rw [← record] at found
          exact ⟨s,(compactSchemas_other other (fun taken => new id taken old) found).1⟩
        · rw [taken]
          exact ⟨c,compactSchemas_output unrecorded⟩
  · intro id member
    rw [ids] at member
    rcases step.ids id member with ⟨old,other⟩ | taken
    · obtain ⟨effective,available⟩ := kept id old
      rw [accept_old old]
      by_cases unrecorded : replaced.Unrecorded
      · rw [compactSchemas_unrecorded unrecorded]
        rw [effectiveSchema, record, schema]
        rw [Available, schema, historical]
        exact ⟨effective,available⟩
      · obtain ⟨s,found⟩ := shape.recorded (unrecorded_iff.not.mp unrecorded) id old
        rw [effectiveSchema, found, some_or] at effective
        rw [← record] at found
        obtain ⟨found',same⟩ := compactSchemas_other (c := c) other (fun taken => new id taken old) found
        rw [effectiveSchema, found', some_or, Available, schemaId, schema,
          ← Option.some.inj effective, same, historical]
        rw [← Option.some.inj effective] at available
        exact ⟨rfl,available⟩
    · rw [accept_new (new id taken), Available, schemaId, schema]
      refine ⟨?_,.inl current⟩
      by_cases unrecorded : replaced.Unrecorded
      · rw [compactSchemas_unrecorded unrecorded, effectiveSchema, unrecorded.lookup, none_or,
          schema, current]
      · rw [taken, effectiveSchema, compactSchemas_output unrecorded, some_or]

theorem applyCompactionLog_keeps (shape : t.Shape)
    (kept : t.Kept a) (current : t.schemaId = some c) (positive : 0 < c)
    (done : applyCompactionLog t op defaultSchemaId = .ok t') : t'.Shape ∧ t'.Kept (t.accept a c) := by
  obtain ⟨-,rfl⟩ | ⟨-,firstPos,lastPos,inputs,point,split',ids,rfl⟩ := applyCompactionLog_cases done
  · exact ⟨shape,kept.congr fun id member => accept_old member c⟩
  · have currentId : (t.schemaId.filter (0 < ·)).getD defaultSchemaId = c := by
      simp [current, Option.filter, positive]
    rw [currentId]
    obtain ⟨shape',kept'⟩ := kept.compact shape current (replaceRowsets_replaced shape split' ids) rfl rfl rfl
    exact ⟨{ shape' with },kept'⟩

/-! Altered metadata, schema changes and writes. -/

theorem applyAlterMetadataLog_keeps (shape : t.Shape) (kept : t.Kept a)
    (done : applyAlterMetadataLog t op = .ok t') : t'.Shape ∧ t'.Kept a ∧ t'.rowsets = t.rowsets := by
  induction op generalizing t with
  | nil =>
    cases done
    exact ⟨shape,kept,rfl⟩
  | cons update rest ih =>
    cases update with
    | none => exact ih shape kept done
    | some schema =>
      obtain ⟨updated,first,later⟩ := bind_ok done
      obtain ⟨c,current,positive⟩ := shape.current
      obtain ⟨newId,_,above,step⟩ := applyTabletSchemaUpdate_updated current positive first
      obtain ⟨shape',kept',rowsets⟩ := ih (step.shape shape above) (step.keeps shape current kept) later
      exact ⟨shape',kept',rowsets.trans step.rowsets⟩

section
variable {rows : List RowsetMetadataPb}

theorem Shape.appendAll (shape : t.Shape) (done : appendAllRowsets v t rows = .ok t') : t'.Shape := by
  induction rows generalizing t with
  | nil =>
    cases done
    exact shape
  | cons r rest ih =>
    obtain ⟨_,_,later⟩ := bind_ok done
    exact ih shape.append later

theorem Kept.of_appendAll (shape : t.Shape) (done : appendAllRowsets v t rows = .ok t')
    (kept : t'.Kept a) : t.Kept a := by
  induction rows generalizing t with
  | nil =>
    cases done
    exact kept
  | cons r rest ih =>
    obtain ⟨_,_,later⟩ := bind_ok done
    exact Kept.of_append shape (ih shape.append later)

theorem Kept.appendAll_iff (shape : t.Shape) (kept : t.Kept a) (done : appendAllRowsets v t rows = .ok t') :
    t'.Kept (t.accept a v) ↔ (rows ≠ [] → t.ReadsWith v) := by
  induction rows generalizing t a with
  | nil =>
    cases done
    exact iff_of_true (kept.congr fun id old => accept_old old v) fun some' => (some' rfl).elim
  | cons r rest ih =>
    obtain ⟨_,_,later⟩ := bind_ok done
    by_cases reads : t.ReadsWith v
    · have rest' := ih shape.append ((kept.append_iff shape).mpr reads) later
      rw [appendRowset_accept] at rest'
      exact iff_of_true (rest'.mpr fun _ => appendRowset_readsWith.mpr reads) fun _ => reads
    · refine iff_of_false (fun after => reads ?_) fun all => reads (all (by simp))
      exact (kept.append_iff shape).mp (Kept.of_appendAll shape.append later after)

end

/-- A write appends a rowset if it brings rows, a delete predicate or, on a primary-key
table, delete files. -/
def appends (schema : TabletSchemaPb) (op : OpWritePb) : Bool :=
  match op.rowset with
  | none => false
  | some r =>
    0 < r.numRows || if schema.keysType = some 10 then !op.dels.isEmpty else r.deletePredicate

theorem maybeUpdate_cases
    (done : maybeUpdateMetadataSchemaForWrite t op defaultSchemaId runtime = .ok (t', v)) :
    v = op.writeSchemaId defaultSchemaId ∧ (t' = t ∧ t.Available v ∨
      ¬t.Available v ∧ ∃ resolved, resolved.id = some v ∧ applyTabletSchemaUpdate t resolved = .ok t') := by
  obtain ⟨_,_,done⟩ := bind_ok done
  obtain ⟨_,above,done⟩ := bind_ok done
  have positive : 0 < op.writeSchemaId defaultSchemaId := by simpa using guardThat_ok above
  have known : (t.schemaId.getD 0 = op.writeSchemaId defaultSchemaId ||
      (t.historicalSchemas (op.writeSchemaId defaultSchemaId)).isSome) = true ↔
      t.Available (op.writeSchemaId defaultSchemaId) := by
    rw [Bool.or_eq_true, decide_eq_true_eq, Available]
    cases t.schemaId with
    | none =>
      have : (0 : Int) ≠ op.writeSchemaId defaultSchemaId := by omega
      simp [this]
    | some c => simp
  split at done
  case isTrue yes =>
    cases done
    exact ⟨rfl,.inl ⟨rfl,known.mp yes⟩⟩
  case isFalse no =>
    have unknown : ¬t.Available (op.writeSchemaId defaultSchemaId) := fun yes => no (known.mpr yes)
    by_cases own : runtime.id = some (op.writeSchemaId defaultSchemaId)
    · rw [if_pos own] at done
      obtain ⟨updated,update,last⟩ := bind_ok done
      cases last
      exact ⟨rfl,.inr ⟨unknown,runtime,own,update⟩⟩
    · have none' : t.historicalSchemas (op.writeSchemaId defaultSchemaId) = none := by
        simpa using fun found => unknown (.inr found)
      rw [if_neg own, none'] at done
      cases done

theorem isPrimaryKeysTable_iff (kind : isPrimaryKeysTable runtime = .ok primary) :
    primary = true ↔ runtime.keysType = some 10 := by
  unfold isPrimaryKeysTable at kind
  generalize runtime.keysType = raw at kind ⊢
  cases raw with
  | none => cases kind
  | some raw =>
    dsimp only at kind
    split at kind
    case isTrue ten =>
      cases kind
      simp [ten]
    case isFalse other =>
      split at kind
      case isTrue => cases kind; simp [other]
      case isFalse => cases kind

theorem applyWriteLog_cases [DelvecEncoding]
    (done : applyWriteLog files t op txnId defaultSchemaId runtime applyVersion = .ok (files', t')) :
    ∃ settled v, maybeUpdateMetadataSchemaForWrite t op defaultSchemaId runtime = .ok (settled, v) ∧
      (appends runtime op = false ∧ t' = settled ∨ appends runtime op = true ∧
        ∃ r delvecMeta, t' = { settled.appendRowset r v with delvecMeta }) := by
  obtain ⟨⟨settled,v⟩,settling,done⟩ := bind_ok done
  refine ⟨settled,v,settling,?_⟩
  cases txnId with
  | none => cases done
  | some txnId =>
    obtain ⟨_,_,done⟩ := bind_ok done
    obtain ⟨primary,kind,done⟩ := bind_ok done
    have primary_iff := isPrimaryKeysTable_iff kind
    cases primary with
    | true =>
      have ten : runtime.keysType = some 10 := primary_iff.mp rfl
      obtain ⟨_,rfl,noUpserts,noDels⟩ |
        ⟨r,_,_,_,delvecMeta,logged,something,_,_,_,_,rfl⟩ := applyPrimaryKeyWriteLog_cases done
      · refine .inl ⟨?_,rfl⟩
        unfold appends
        cases logged : op.rowset with
        | none => rfl
        | some r =>
          have noRows : r.numRows = 0 := by
            rw [OpWrite.upserts, OpWritePb.log, logged] at noUpserts
            exact length_eq_zero_iff.mpr noUpserts
          simp [noRows, ten, noDels]
      · refine .inr ⟨?_,_,delvecMeta,rfl⟩
        simp only [appends, logged, ten, ↓reduceIte, Bool.or_eq_true, decide_eq_true_eq,
          Bool.not_eq_true', isEmpty_eq_false_iff]
        by_contra neither
        rw [not_or, not_not] at neither
        exact something ⟨by omega,neither.2⟩
    | false =>
      have other : runtime.keysType ≠ some 10 := fun ten => by cases primary_iff.mpr ten
      cases logged : op.rowset with
      | none =>
        rw [logged] at done
        cases done
        exact .inl ⟨by simp only [appends, logged],rfl⟩
      | some r =>
        rw [logged] at done
        simp only [Bool.false_eq_true, ↓reduceIte] at done
        have flag : appends runtime op = (decide (0 < r.numRows) || r.deletePredicate) := by
          simp only [appends, logged, other, ↓reduceIte]
        split at done
        case isTrue yes =>
          obtain ⟨_,_,last⟩ := bind_ok done
          cases last
          exact .inr ⟨flag.trans yes,r,settled.delvecMeta,rfl⟩
        case isFalse no =>
          cases done
          exact .inl ⟨flag.trans (Bool.not_eq_true _ ▸ no),rfl⟩

theorem applyWriteLog_keeps [DelvecEncoding] (shape : t.Shape) (kept : t.Kept a)
    (v_eq : v = op.writeSchemaId defaultSchemaId)
    (done : applyWriteLog files t op txnId defaultSchemaId runtime applyVersion = .ok (files', t')) :
    t'.Shape ∧ (t'.Kept (t.accept a v) ↔
      (appends runtime op = true → t.Available v → t.Unrecorded → t.schemaId = some v)) := by
  obtain ⟨settled,v',settling,after⟩ := applyWriteLog_cases done
  obtain ⟨same,known | ⟨unknown,resolved,own,update⟩⟩ := maybeUpdate_cases settling
  · obtain ⟨rfl,available⟩ := known
    rw [same, ← v_eq] at after available
    rcases after with ⟨none',rfl⟩ | ⟨yes,r,delvecMeta,rfl⟩
    · refine ⟨shape,iff_of_true (kept.congr fun id old => accept_old old v) ?_⟩
      rw [none']
      exact fun no => by cases no
    · refine ⟨{ shape.append (r := r) (v := v) with },?_⟩
      change (settled.appendRowset r v).Kept _ ↔ _
      rw [kept.append_iff shape, ReadsWith]
      exact ⟨fun reads _ _ => reads.1,fun reads => ⟨reads yes available,available⟩⟩
  · obtain ⟨c,current,positive⟩ := shape.current
    obtain ⟨newId,named,above,updated⟩ := applyTabletSchemaUpdate_updated current positive update
    rw [same, ← v_eq] at after own unknown
    cases own.symm.trans named
    have shape' := updated.shape shape above
    have kept' := updated.keeps shape current kept
    have ids : settled.rowsetIds = t.rowsetIds := by rw [rowsetIds, updated.rowsets, rowsetIds]
    have accept' : t.accept a v = settled.accept a v := by
      funext id
      rw [accept, accept, ids]
    have vacuous : appends runtime op = true → t.Available v → t.Unrecorded → t.schemaId = some v :=
      fun _ available => (unknown available).elim
    rw [accept']
    rcases after with ⟨_,rfl⟩ | ⟨_,r,delvecMeta,rfl⟩
    · exact ⟨shape',iff_of_true (kept'.congr fun id old => accept_old old v) vacuous⟩
    · refine ⟨{ shape'.append (r := r) (v := v) with },iff_of_true ?_ vacuous⟩
      exact (kept'.append_iff shape').mpr ⟨fun _ => updated.current,.inl updated.current⟩

end TabletMetadataPb

/-! Sequences of transaction logs. -/

structure TxnStep where
  log : TxnLogPb
  defaultSchemaId : Int
  runtimeSchema : TabletSchemaPb
  applyVersion : Int

namespace TxnStep

def acceptedSchema (s : TxnStep) (t : TabletMetadataPb) : Int :=
  match dispatchTxnLog s.log with
  | .write op => op.writeSchemaId s.defaultSchemaId
  | .compaction _ => (t.schemaId.filter (0 < ·)).getD s.defaultSchemaId
  | _ => s.defaultSchemaId

/-- A rowset is not appended with a schema that it will not be read with: a write does
not bring a schema that is known as a historical one only, and the rowsets of a schema
change have the current one, unless the schemas of rowsets are recorded. -/
def Safe (s : TxnStep) (t : TabletMetadataPb) : Prop :=
  match dispatchTxnLog s.log with
  | .write op => TabletMetadataPb.appends s.runtimeSchema op = true →
      t.Available (op.writeSchemaId s.defaultSchemaId) → t.Unrecorded →
      t.schemaId = some (op.writeSchemaId s.defaultSchemaId)
  | .schemaChange op => op.rowsets ≠ [] → t.ReadsWith s.defaultSchemaId
  | _ => True

end TxnStep

structure Tracked where
  files : DelvecFiles
  metadata : TabletMetadataPb
  accepted : Nat → Int

namespace Tracked

def step [DelvecEncoding] (x : Tracked) (s : TxnStep) : Except String Tracked := do
  let (files, metadata) ← applyTxnLogToMetadata x.files x.metadata s.log s.defaultSchemaId
    s.runtimeSchema s.applyVersion
  return ⟨files, metadata, x.metadata.accept x.accepted (s.acceptedSchema x.metadata)⟩

theorem step_keeps [DelvecEncoding] {x x' : Tracked} (shape : x.metadata.Shape)
    (kept : x.metadata.Kept x.accepted) (done : x.step s = .ok x') :
    x'.metadata.Shape ∧ (x'.metadata.Kept x'.accepted ↔ s.Safe x.metadata) := by
  obtain ⟨⟨files,metadata⟩,applied,last⟩ := bind_ok done
  cases last
  unfold applyTxnLogToMetadata at applied
  unfold TxnStep.acceptedSchema TxnStep.Safe
  have unchanged : ∀ v, x.metadata.Kept (x.metadata.accept x.accepted v) := fun v =>
    kept.congr fun id old => TabletMetadataPb.accept_old old v
  generalize dispatchTxnLog s.log = kind at applied ⊢
  cases kind with
  | write op =>
    exact TabletMetadataPb.applyWriteLog_keeps shape kept rfl applied
  | compaction op =>
    obtain ⟨_,_,applied⟩ := bind_ok applied
    obtain ⟨_,_,applied⟩ := bind_ok applied
    obtain ⟨compacted,compacting,last⟩ := bind_ok applied
    cases last
    obtain ⟨c,current,positive⟩ := shape.current
    have currentId : (x.metadata.schemaId.filter (0 < ·)).getD s.defaultSchemaId = c := by
      simp [current, Option.filter, positive]
    obtain ⟨shape',kept'⟩ := TabletMetadataPb.applyCompactionLog_keeps shape kept current positive compacting
    rw [currentId]
    exact ⟨shape',iff_of_true kept' trivial⟩
  | schemaChange op =>
    obtain ⟨_,_,applied⟩ := bind_ok applied
    obtain ⟨_,_,applied⟩ := bind_ok applied
    obtain ⟨changed,changing,last⟩ := bind_ok applied
    obtain ⟨appended,appending,last'⟩ := bind_ok changing
    cases last
    cases last'
    refine ⟨{ shape.appendAll appending with },?_⟩
    change appended.Kept (x.metadata.accept x.accepted s.defaultSchemaId) ↔ _
    exact kept.appendAll_iff shape appending
  | alterMetadata op =>
    obtain ⟨altered,altering,last⟩ := bind_ok applied
    cases last
    obtain ⟨shape',kept',rowsets⟩ := TabletMetadataPb.applyAlterMetadataLog_keeps shape kept altering
    refine ⟨shape',iff_of_true (kept'.congr fun id member => ?_) trivial⟩
    rw [TabletMetadataPb.rowsetIds, rowsets] at member
    exact TabletMetadataPb.accept_old member _
  | unsupported name =>
    cases applied
  | empty =>
    cases applied
    exact ⟨shape,iff_of_true (unchanged _) trivial⟩

structure OnlyCurrent (x : Tracked) : Prop where
  shape : x.metadata.Shape
  historical : ∀ id, (x.metadata.historicalSchemas id).isSome → x.metadata.schemaId = some id
  unrecorded : x.metadata.Unrecorded
  accepted : ∀ id ∈ x.metadata.rowsetIds, x.metadata.schemaId = some (x.accepted id)

theorem OnlyCurrent.kept {x : Tracked} (only : x.OnlyCurrent) : x.metadata.Kept x.accepted := by
  intro id member
  have own := only.accepted id member
  exact ⟨by rw [TabletMetadataPb.effectiveSchema, only.unrecorded.lookup, none_or, own],.inl own⟩

section
variable [DelvecEncoding]

/-- After each log of a sequence that is applied, every rowset has the schema it was
accepted with. -/
def KeptThroughout : Tracked → List TxnStep → Prop
  | x, [] => x.metadata.Kept x.accepted
  | x, s :: rest => x.metadata.Kept x.accepted ∧ ∀ x', x.step s = .ok x' → KeptThroughout x' rest

def SafeThroughout : Tracked → List TxnStep → Prop
  | _, [] => True
  | x, s :: rest => ∀ x', x.step s = .ok x' → s.Safe x.metadata ∧ SafeThroughout x' rest

theorem keptThroughout_iff_of_kept {x : Tracked} (shape : x.metadata.Shape)
    (kept : x.metadata.Kept x.accepted) : x.KeptThroughout steps ↔ x.SafeThroughout steps := by
  induction steps generalizing x with
  | nil => exact iff_of_true kept trivial
  | cons s rest ih =>
    constructor
    · rintro ⟨_,after⟩ x' done
      obtain ⟨shape',kept_iff⟩ := step_keeps shape kept done
      have kept' : x'.metadata.Kept x'.accepted := by
        have through := after x' done
        cases rest with
        | nil => exact through
        | cons _ _ => exact through.1
      exact ⟨kept_iff.mp kept',(ih shape' kept').mp (after x' done)⟩
    · intro safe
      refine ⟨kept,?_⟩
      intro x' done
      obtain ⟨shape',kept_iff⟩ := step_keeps shape kept done
      obtain ⟨now,later⟩ := safe x' done
      exact (ih shape' (kept_iff.mpr now)).mpr later

theorem schemas_kept_iff {x : Tracked} (only : x.OnlyCurrent) (steps : List TxnStep) :
    x.KeptThroughout steps ↔ x.SafeThroughout steps :=
  keptThroughout_iff_of_kept only.shape only.kept

end

def emptyDuplicates : Tracked where
  files := fun _ => none
  metadata :=
    { id := some 7, schema := some ⟨some 1, some 0, ⟨1, [0], [0]⟩⟩, rowsets := [], nextRowsetId := some 1
      cumulativePoint := none, delvecMeta := ⟨∅, ∅⟩, historicalSchemas := fun _ => none
      rowsetToSchema := ∅ }
  accepted := fun _ => 1

def alterToSecond : TxnStep :=
  ⟨⟨some 5, none, none, none, some [some ⟨some 2, some 0, ⟨2, [0], [0]⟩⟩], false⟩, 2,
    ⟨some 2, some 0, ⟨2, [0], [0]⟩⟩, 2⟩

def writeWith (schemaId runtimeId applyVersion : Int) : TxnStep :=
  ⟨⟨some 6, some ⟨some ⟨none, [⟨⟨0, 0⟩, [[.int 4]]⟩], 0, false, [], none⟩, [], some (some schemaId)⟩, none,
    none, none, false⟩, runtimeId, ⟨some runtimeId, some 0, ⟨2, [0], [0]⟩⟩, applyVersion⟩

theorem emptyDuplicates_onlyCurrent : emptyDuplicates.OnlyCurrent where
  shape := ⟨⟨1,rfl,by omega⟩,by simp [emptyDuplicates],nodup_nil,
    by simp [emptyDuplicates, TabletMetadataPb.rowsetIds],fun recorded => (recorded rfl).elim⟩
  historical id known := by cases known
  unrecorded := rfl
  accepted := by simp [emptyDuplicates, TabletMetadataPb.rowsetIds]

/-- A rowset of the first schema, the alter, a rowset of the second schema. -/
theorem schemas_kept_altered :
    emptyDuplicates.KeptThroughout [writeWith 1 1 2, alterToSecond, writeWith 2 2 3] ∧
      ∃ last, [writeWith 1 1 2, alterToSecond, writeWith 2 2 3].foldlM Tracked.step emptyDuplicates = .ok last ∧
        last.metadata.rowsetIds.map last.metadata.effectiveSchema = [some 1, some 2] := by
  refine ⟨(schemas_kept_iff emptyDuplicates_onlyCurrent _).mpr ?_,_,rfl,rfl⟩
  rintro _ ⟨⟩
  refine ⟨fun _ _ _ => rfl,?_⟩
  rintro _ ⟨⟩
  refine ⟨trivial,?_⟩
  rintro _ ⟨⟩
  exact ⟨fun _ _ _ => rfl,trivial⟩

theorem write_after_alter_misread :
    emptyDuplicates.OnlyCurrent ∧
      ∃ altered written, emptyDuplicates.step alterToSecond = .ok altered ∧
        altered.step (writeWith 1 2 3) = .ok written ∧ written.metadata.rowsetIds = [1] ∧
        written.accepted 1 = 1 ∧ written.metadata.effectiveSchema 1 = some 2 :=
  ⟨emptyDuplicates_onlyCurrent,_,_,rfl,rfl,rfl,rfl,rfl⟩

end Tracked

end NovaRocks.Lake
