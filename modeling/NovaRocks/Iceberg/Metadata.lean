import NovaRocks.Iceberg.Manifest

/-!
Table metadata and the catalog. A commit is a list of updates guarded by
requirements on the metadata the catalog holds when the commit arrives; the
catalog applies it as a whole or not at all. A transaction runs its action on
the table it has just loaded, so requirements speak about that table.
-/
namespace NovaRocks.Iceberg

inductive Operation where
  | append | replace | overwrite | delete
  deriving DecidableEq

structure Snapshot where
  snapshotId : SnapshotId
  parentSnapshotId : Option SnapshotId
  sequenceNumber : Nat
  timestampMs : Nat
  /-- Where the manifest list was written, and what it holds. -/
  manifestList : String
  manifests : List ManifestFile
  operation : Operation
  summary : List (String × String)
  rowRange : Option (Nat × Nat)
  deriving DecidableEq

structure TableMetadata where
  formatVersion : FormatVersion
  location : String
  currentSchemaId : Nat
  defaultSpecId : Nat
  partitionSpecIds : List Nat
  lastSequenceNumber : Nat
  nextRowId : Nat
  currentSnapshotId : Option SnapshotId
  snapshots : List Snapshot
  refs : List (String × SnapshotId)
  deriving DecidableEq

namespace TableMetadata

def snapshotById (m : TableMetadata) (id : SnapshotId) : Option Snapshot :=
  m.snapshots.find? fun s => s.snapshotId = id

def currentSnapshot (m : TableMetadata) : Option Snapshot :=
  m.currentSnapshotId.bind m.snapshotById

def refSnapshotId (m : TableMetadata) (name : String) : Option SnapshotId :=
  (m.refs.find? fun r => r.1 = name).map Prod.snd

def currentManifests (m : TableMetadata) : List ManifestFile :=
  m.currentSnapshot.elim [] Snapshot.manifests

end TableMetadata

inductive TableRequirement where
  | currentSchemaIdMatch (id : Nat)
  | defaultSpecIdMatch (id : Nat)
  | refSnapshotIdMatch (ref : String) (snapshotId : Option SnapshotId)
  deriving DecidableEq

def TableRequirement.check (m : TableMetadata) : TableRequirement → Except String Unit
  | currentSchemaIdMatch id =>
    if m.currentSchemaId = id then .ok () else .error "Current schema id does not match"
  | defaultSpecIdMatch id =>
    if m.defaultSpecId = id then .ok () else .error "Default partition spec id does not match"
  | refSnapshotIdMatch ref expected =>
    if m.refSnapshotId ref = expected then .ok () else .error "Branch or tag's snapshot has changed"

inductive TableUpdate where
  | addSnapshot (snapshot : Snapshot)
  | setSnapshotRef (ref : String) (snapshotId : SnapshotId)
  | removeSnapshotRef (ref : String)
  | removeSnapshots (ids : List SnapshotId)
  deriving DecidableEq

namespace TableMetadata

section
variable (m : TableMetadata)

/-- Version 3 asks every snapshot for a row range that starts no lower than the
table's next row id, and moves that id on by the rows the snapshot declares. -/
def addSnapshot (s : Snapshot) : Except String TableMetadata :=
  if (m.snapshotById s.snapshotId).isSome then .error "Snapshot already exists"
  else if s.sequenceNumber ≤ m.lastSequenceNumber ∧ s.parentSnapshotId.isSome then
    .error "Cannot add snapshot with sequence number older than last sequence number"
  else
    let added := { m with lastSequenceNumber := s.sequenceNumber, snapshots := m.snapshots ++ [s] }
    match m.formatVersion, s.rowRange with
    | .v3, none => .error "Cannot add a snapshot: first-row-id is null"
    | .v3, some (first, rows) =>
      if first < m.nextRowId then
        .error "Cannot add a snapshot, first-row-id is behind table next-row-id"
      else .ok { added with nextRowId := m.nextRowId + rows }
    | _, _ => .ok added

/-- The current snapshot follows the main branch. -/
def setRef (ref : String) (id : SnapshotId) : Except String TableMetadata :=
  if (m.snapshotById id).isNone then .error "Cannot set ref to unknown snapshot"
  else .ok { m with
    refs := (ref, id) :: m.refs.filter fun r => r.1 ≠ ref
    currentSnapshotId := if ref = "main" then some id else m.currentSnapshotId }

def removeRef (ref : String) : TableMetadata :=
  { m with
    refs := m.refs.filter fun r => r.1 ≠ ref
    currentSnapshotId := if ref = "main" then none else m.currentSnapshotId }

/-- Refs to a removed snapshot go with it. -/
def removeSnapshots (ids : List SnapshotId) : TableMetadata :=
  let kept := m.snapshots.filter fun s => !ids.contains s.snapshotId
  { m with
    snapshots := kept
    refs := m.refs.filter fun r => kept.any fun s => s.snapshotId = r.2 }

def applyUpdate : TableUpdate → Except String TableMetadata
  | .addSnapshot s => m.addSnapshot s
  | .setSnapshotRef ref id => m.setRef ref id
  | .removeSnapshotRef ref => .ok (m.removeRef ref)
  | .removeSnapshots ids => .ok (m.removeSnapshots ids)

end

def applyUpdates (m : TableMetadata) : List TableUpdate → Except String TableMetadata
  | [] => .ok m
  | u :: rest =>
    match m.applyUpdate u with
    | .error message => .error message
    | .ok m => m.applyUpdates rest

def checkAll (m : TableMetadata) : List TableRequirement → Except String Unit
  | [] => .ok ()
  | r :: rest =>
    match r.check m with
    | .error message => .error message
    | .ok _ => m.checkAll rest

end TableMetadata

structure ActionCommit where
  updates : List TableUpdate
  requirements : List TableRequirement
  deriving DecidableEq

def updateTable (m : TableMetadata) (c : ActionCommit) : Except String TableMetadata :=
  match m.checkAll c.requirements with
  | .error message => .error message
  | .ok _ => m.applyUpdates c.updates

abbrev Action := TableMetadata → Except String ActionCommit

/-- One attempt of a transaction: the action runs on the table as `loaded`, the
catalog may have moved on to `current` when the commit arrives. -/
def attempt (action : Action) (loaded current : TableMetadata) : Except String TableMetadata :=
  match action loaded with
  | .error message => .error message
  | .ok commit =>
    match updateTable loaded commit with
    | .error message => .error message
    | .ok _ => updateTable current commit

theorem attempt_ok {loaded current after : TableMetadata} (done : attempt action loaded current = .ok after) :
    ∃ commit, action loaded = .ok commit ∧ updateTable current commit = .ok after := by
  unfold attempt at done
  split at done
  · cases done
  rename_i commit ran
  split at done
  · cases done
  · exact ⟨commit,ran,done⟩

theorem updateTable_ok {m after : TableMetadata} (done : updateTable m c = .ok after) :
    m.checkAll c.requirements = .ok () ∧ m.applyUpdates c.updates = .ok after := by
  unfold updateTable at done
  split at done
  · cases done
  · rename_i checked
    exact ⟨checked,done⟩

theorem checkAll_ok {m : TableMetadata} (passed : m.checkAll requirements = .ok ()) :
    ∀ r ∈ requirements, r.check m = .ok () := by
  induction requirements with
  | nil => simp
  | cons r rest ih =>
    rw [TableMetadata.checkAll] at passed
    split at passed
    · cases passed
    · rename_i checked
      exact List.forall_mem_cons.mpr ⟨checked,ih passed⟩

theorem check_ref_ok (passed : (TableRequirement.refSnapshotIdMatch ref expected).check m = .ok ()) :
    m.refSnapshotId ref = expected := by
  rw [TableRequirement.check] at passed
  split at passed
  · assumption
  · cases passed

end NovaRocks.Iceberg
