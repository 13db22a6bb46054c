import NovaRocks.Sql.Eval

/-!
Data files, delete files and the manifests that list them, and what a reader
makes of a manifest list: which rows are live and which row ids they have. A
file never changes once it is written, so its content stands beside its
metadata and its record count is the number of its rows.
-/
namespace NovaRocks.Iceberg

abbrev SnapshotId := Nat

inductive FormatVersion where
  | v1 | v2 | v3
  deriving DecidableEq

inductive DataContentType where
  | data | positionDeletes | equalityDeletes
  deriving DecidableEq

inductive DataFileFormat where
  | parquet | puffin
  deriving DecidableEq

inductive ManifestContentType where
  | data | deletes
  deriving DecidableEq

inductive ManifestStatus where
  | added | existing | deleted
  deriving DecidableEq

/-- A row of a data file, with the row id the writer stored in it, if any. -/
structure StoredRow where
  values : List Value
  rowId : Option Nat
  deriving DecidableEq

structure DataFile where
  path : String
  content : DataContentType
  format : DataFileFormat
  partition : List Value
  firstRowId : Option Nat
  referencedDataFile : Option String
  rows : List StoredRow
  /-- File and position of each row a position-delete file or vector removes. -/
  positions : List (String × Nat)
  /-- Columns an equality-delete file compares, and the values it removes. -/
  equalityIds : List Nat
  equalityKeys : List (List Value)
  deriving DecidableEq

def DataFile.recordCount (f : DataFile) : Nat :=
  f.rows.length

def DataFile.ofRows (path : String) (partition : List Value) (rows : List StoredRow) : DataFile :=
  ⟨path, .data, .parquet, partition, none, none, rows, [], [], []⟩

structure ManifestEntry where
  status : ManifestStatus
  snapshotId : SnapshotId
  sequenceNumber : Nat
  dataFile : DataFile
  deriving DecidableEq

def ManifestEntry.isAlive (e : ManifestEntry) : Bool :=
  e.status ≠ .deleted

structure ManifestFile where
  path : String
  content : ManifestContentType
  partitionSpecId : Nat
  addedSnapshotId : SnapshotId
  firstRowId : Option Nat
  entries : List ManifestEntry
  deriving DecidableEq

namespace ManifestFile

def live (m : ManifestFile) : List ManifestEntry :=
  m.entries.filter ManifestEntry.isAlive

def rowsWith (m : ManifestFile) (status : ManifestStatus) : Nat :=
  ((m.entries.filter fun e => e.status = status).map fun e => e.dataFile.recordCount).sum

def existingRowsCount (m : ManifestFile) : Nat :=
  m.rowsWith .existing

def addedRowsCount (m : ManifestFile) : Nat :=
  m.rowsWith .added

end ManifestFile

/-! The manifest-list writer. -/

def assignFirstRowId (next : Option Nat) (m : ManifestFile) : Except String (Option Nat × ManifestFile) :=
  match m.content with
  | .deletes => .ok (next, { m with firstRowId := none })
  | .data =>
    match next, m.firstRowId with
    | some _, some _ => .ok (next, m)
    | none, some _ => .error "Found invalid first-row-id assignment for Manifest"
    | some n, none =>
      .ok (some (n + m.existingRowsCount + m.addedRowsCount), { m with firstRowId := some n })
    | none, none => .ok (none, m)

def addManifests (next : Option Nat) : List ManifestFile →
    Except String (Option Nat × List ManifestFile)
  | [] => .ok (next, [])
  | m :: rest =>
    match assignFirstRowId next m with
    | .error message => .error message
    | .ok (next, m) =>
      match addManifests next rest with
      | .error message => .error message
      | .ok (last, rest) => .ok (last, m :: rest)

/-- Only version 3 has row ids. The result is the writer's next row id and the
manifests as the list holds them. -/
def writeManifestList (version : FormatVersion) (firstRowId : Option Nat)
    (manifests : List ManifestFile) : Except String (Option Nat × List ManifestFile) :=
  match version with
  | .v3 => addManifests firstRowId manifests
  | _ => .ok (none, manifests.map fun m => { m with firstRowId := none })

def ManifestFile.unnumber (x : ManifestFile) : ManifestFile :=
  { x with firstRowId := none }

theorem assignFirstRowId_unnumber {next last : Option Nat}
    (done : assignFirstRowId next x = .ok (last, x')) : x'.unnumber = x.unnumber := by
  unfold assignFirstRowId at done
  split at done
  · cases done
    rfl
  · split at done <;> cases done <;> rfl

theorem addManifests_unnumber {next last : Option Nat} (done : addManifests next manifests = .ok (last, listed)) :
    listed.map ManifestFile.unnumber = manifests.map ManifestFile.unnumber := by
  induction manifests generalizing next listed with
  | nil =>
    cases done
    rfl
  | cons x rest ih =>
    rw [addManifests] at done
    split at done
    · cases done
    rename_i assigned
    split at done
    · cases done
    rename_i later
    cases done
    rw [List.map_cons, List.map_cons, assignFirstRowId_unnumber assigned, ih later]

theorem writeManifestList_unnumber (done : writeManifestList version first manifests = .ok (last, listed)) :
    listed.map ManifestFile.unnumber = manifests.map ManifestFile.unnumber := by
  cases version with
  | v3 => exact addManifests_unnumber done
  | v1 | v2 =>
    cases done
    rw [List.map_map]
    rfl

/-! The reader. -/

structure IcebergReadDeleteFile where
  file : DataFile
  sequenceNumber : Nat
  partitionSpecId : Nat

structure IcebergReadFile where
  file : DataFile
  partitionSpecId : Nat
  firstRowId : Option Nat
  dataSequenceNumber : Nat
  deletes : List IcebergReadDeleteFile

def partitionKey (partition : List Value) : Option (List Value) :=
  if partition = [] then none else some partition

def deleteAppliesToDataFile (d : IcebergReadDeleteFile) (f : DataFile) (specId sequenceNumber : Nat) : Bool :=
  sequenceNumber < d.sequenceNumber &&
    (d.file.referencedDataFile.all fun r => r = f.path) &&
    (partitionKey d.file.partition).all fun key =>
      d.partitionSpecId = specId && partitionKey f.partition = some key

def attachDeletes (deletes : List IcebergReadDeleteFile) (f : DataFile)
    (specId sequenceNumber : Nat) : List IcebergReadDeleteFile :=
  let applicable := fun d => deleteAppliesToDataFile d f specId sequenceNumber
  (deletes.filter fun d => d.file.referencedDataFile = some f.path).filter applicable ++
    (deletes.filter fun d => d.file.referencedDataFile = none).filter applicable

/-- The reader takes the data file a delete file names from position deletes only. -/
def DataFile.asDelete (f : DataFile) : DataFile :=
  if f.content = .equalityDeletes then { f with referencedDataFile := none } else f

theorem DataFile.asDelete_of_position {f : DataFile} (position : f.content ≠ .equalityDeletes) :
    f.asDelete = f :=
  if_neg position

def readDeletes (manifests : List ManifestFile) : List IcebergReadDeleteFile :=
  (manifests.filter fun m => m.content = .deletes).flatMap fun m =>
    (m.live.filter fun e => e.dataFile.content ≠ .data).map fun e =>
      ⟨e.dataFile.asDelete, e.sequenceNumber, m.partitionSpecId⟩

/-- The data files of one manifest. A file without a first row id of its own
takes the manifest's, moved on by the rows of the files before it. -/
def readEntries (deletes : List IcebergReadDeleteFile) (specId : Nat) :
    Option Nat → List ManifestEntry → List IcebergReadFile
  | _, [] => []
  | next, e :: rest =>
    if e.isAlive && e.dataFile.content = .data then
      ⟨e.dataFile, specId, e.dataFile.firstRowId.or next, e.sequenceNumber,
          attachDeletes deletes e.dataFile specId e.sequenceNumber⟩ ::
        readEntries deletes specId (next.map (· + e.dataFile.recordCount)) rest
    else readEntries deletes specId next rest

def buildReadSnapshot (manifests : List ManifestFile) : List IcebergReadFile :=
  (manifests.filter fun m => m.content = .data).flatMap fun m =>
    readEntries (readDeletes manifests) m.partitionSpecId m.firstRowId m.entries

/-- A delete file removes a row by its place or by its values. -/
def IcebergReadDeleteFile.removes (d : IcebergReadDeleteFile) (path : String) (pos : Nat)
    (row : StoredRow) : Bool :=
  match d.file.content with
  | .equalityDeletes =>
    d.file.equalityKeys.contains (d.file.equalityIds.map fun c => row.values.getD c .null)
  | _ => d.file.positions.contains (path, pos)

structure LiveRow where
  path : String
  pos : Nat
  values : List Value
  rowId : Option Nat
  deriving DecidableEq

/-- The stored row id wins over the one computed from the position. -/
def IcebergReadFile.liveRows (f : IcebergReadFile) : List LiveRow :=
  (f.file.rows.zipIdx.filter fun p => !f.deletes.any fun d => d.removes f.file.path p.2 p.1).map
    fun p => ⟨f.file.path, p.2, p.1.values, p.1.rowId.or (f.firstRowId.map (· + p.2))⟩

def liveRows (manifests : List ManifestFile) : List LiveRow :=
  (buildReadSnapshot manifests).flatMap IcebergReadFile.liveRows

end NovaRocks.Iceberg
