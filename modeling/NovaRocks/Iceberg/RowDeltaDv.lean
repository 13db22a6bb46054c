import NovaRocks.Iceberg.Branches

/-!
DELETE and merge-on-read UPDATE on a version 3 table. The rows to remove become
deletion vectors, one for each data file; the vector a file already has is merged
into the new one. The replacement rows of an UPDATE come in data files of their
own and keep the row ids of the rows they replace.
-/
namespace NovaRocks.Iceberg

structure PositionDeleteGroup where
  referencedDataFile : String
  positions : List Int
  deriving DecidableEq

def groupsOf (matched : List LiveRow) : List PositionDeleteGroup :=
  (matched.map LiveRow.path).dedup.map fun path =>
    ⟨path, (matched.filter fun r => r.path = path).map fun r => (r.pos : Int)⟩

abbrev Vectors := List (String × List Nat)

def mergeVector (path : String) (positions : List Nat) : Vectors → Vectors
  | [] => [(path, positions)]
  | (p, ps) :: rest =>
    if p = path then (p, ps ++ positions) :: rest else (p, ps) :: mergeVector path positions rest

def groupsToVectors (out : Vectors) : List PositionDeleteGroup → Except String Vectors
  | [] => .ok out
  | g :: rest =>
    if g.positions.isEmpty then groupsToVectors out rest
    else if g.positions.any (· < 0) then .error "row-lineage DELETE position must be non-negative"
    else groupsToVectors (mergeVector g.referencedDataFile (g.positions.map Int.toNat) out) rest

def validateDeleteFileForRowLineage (f : DataFile) : Except String Unit :=
  if f.content = .equalityDeletes then
    .error "row-lineage DELETE does not support equality-delete files; compact them away first"
  else if f.format ≠ .puffin then
    .error ("row-lineage DELETE found v2 position-delete files; " ++
      "compact them away before writing Puffin deletion vectors")
  else if f.referencedDataFile.isNone then .error "Puffin DV missing referenced_data_file"
  else .ok ()

def validateAll : List DataFile → Except String Unit
  | [] => .ok ()
  | f :: rest =>
    match validateDeleteFileForRowLineage f with
    | .error message => .error message
    | .ok _ => validateAll rest

/-- The manifests of the snapshot the statement changes: main's current one or
the head of the branch. -/
def targetManifests (m : TableMetadata) (targetRef : String) : Except String (List ManifestFile) :=
  if targetRef = "main" then
    match m.currentSnapshot with
    | none => .error "row-lineage DELETE requires a current snapshot"
    | some s => .ok s.manifests
  else
    match m.refSnapshotId targetRef with
    | none => .error "row-lineage DELETE target branch not found in table metadata"
    | some id =>
      match m.snapshotById id with
      | none => .error "row-lineage DELETE branch snapshot not found in metadata"
      | some s => .ok s.manifests

def refersTo (touched : List String) (f : DataFile) : Bool :=
  f.referencedDataFile.any touched.contains

def oldPositions (manifests : List ManifestFile) (path : String) : List Nat :=
  ((liveFilesOf .deletes manifests).filter fun f =>
    f.dataFile.referencedDataFile = some path).flatMap fun f => f.dataFile.positions.map Prod.snd

structure SnapshotIndex where
  dataFiles : List LiveFile
  untouchedManifests : List ManifestFile
  touchedDeleteExisting : List LiveFile
  vectors : Vectors
  replacedDeleteFiles : Nat
  replacedDeleteRecords : Nat

def touchedManifest (touched : List String) (x : ManifestFile) : Bool :=
  x.content = .deletes && x.live.any fun e => refersTo touched e.dataFile

def indexOf (manifests : List ManifestFile) (vectors : Vectors) : SnapshotIndex :=
  let touched := vectors.map Prod.fst
  ⟨liveFilesOf .data manifests,
    manifests.filter fun x => !touchedManifest touched x,
    (manifests.filter (touchedManifest touched)).flatMap fun x =>
      x.liveFiles.filter fun f => !refersTo touched f.dataFile,
    vectors.map fun v => (v.1, v.2 ++ oldPositions manifests v.1),
    ((liveFilesOf .deletes manifests).filter fun f => refersTo touched f.dataFile).length,
    (vectors.map fun v => (oldPositions manifests v.1).dedup.length).sum⟩

def buildSnapshotIndex (m : TableMetadata) (targetRef : String) (vectors : Vectors) :
    Except String SnapshotIndex := do
  let manifests ← targetManifests m targetRef
  validateAll ((liveFilesOf .deletes manifests).map LiveFile.dataFile)
  return indexOf manifests vectors

def dataFileAt (files : List LiveFile) (path : String) : Option LiveFile :=
  files.reverse.find? fun f => f.dataFile.path = path

def dvPath (m : TableMetadata) (t : Stamp) (idx : Nat) : String :=
  let digits := Nat.toDigits 16 idx
  m.location ++ "/data/_staging/" ++ t.commitUuid ++ "/dv-" ++
    String.ofList (List.replicate (8 - digits.length) '0' ++ digits) ++ ".puffin"

def dvDataFile (path : String) (vector : String × List Nat) (referenced : LiveFile) : DataFile :=
  ⟨path, .positionDeletes, .puffin, referenced.dataFile.partition, none, some vector.1, [],
    vector.2.dedup.map fun pos => (vector.1, pos), [], []⟩

/-- One vector for each data file, under the file's own partition. -/
def writeVectors (m : TableMetadata) (t : Stamp) (index : SnapshotIndex) : List WrittenFile :=
  index.vectors.zipIdx.filterMap fun (vector, idx) =>
    (dataFileAt index.dataFiles vector.1).map fun f =>
      ⟨dvDataFile (dvPath m t idx) vector f, f.partitionSpecId⟩

structure RowDeltaDv where
  groups : List PositionDeleteGroup
  /-- Replacement files of an UPDATE, none for a DELETE. -/
  written : List WrittenFile
  rowLineageFirstRowId : Nat
  targetRef : String

def existingDeleteManifests (t : Stamp) (m : TableMetadata) (files : List LiveFile) : List ManifestFile :=
  (groupOn LiveFile.partitionSpecId files).zipIdx.map fun (group, idx) =>
    writeExistingManifest t
      (metadataDir m ++ "/" ++ t.commitUuid ++ "-row-delta-dv-existing-" ++ toString idx ++ ".avro")
      .deletes group.1 group.2

def addedDvManifests (t : Stamp) (m : TableMetadata) (dvs : List WrittenFile) : List ManifestFile :=
  (groupOn WrittenFile.partitionSpecId dvs).zipIdx.map fun (group, idx) =>
    writeAddedManifest t
      (metadataDir m ++ "/" ++ t.commitUuid ++ "-row-delta-dv-added-" ++ toString idx ++ ".avro")
      .deletes group.1 (newSequenceNumber m) (group.2.map WrittenFile.file)

/-- Replacement rows bring their ids along; the number only keeps the list
writer from assigning new ones. -/
def RowDeltaDv.replacementManifests (a : RowDeltaDv) (t : Stamp) (m : TableMetadata) : List ManifestFile :=
  if a.written.isEmpty then [] else
    [{ writeAddedDataManifest t
        (metadataDir m ++ "/" ++ t.commitUuid ++ "-row-delta-update-data-0.avro") m.defaultSpecId
        (newSequenceNumber m) a.written with firstRowId := some a.rowLineageFirstRowId }]

def RowDeltaDv.manifests (a : RowDeltaDv) (t : Stamp) (m : TableMetadata) (index : SnapshotIndex) :
    List ManifestFile :=
  index.untouchedManifests ++ existingDeleteManifests t m index.touchedDeleteExisting ++
    addedDvManifests t m (writeVectors m t index) ++ a.replacementManifests t m

/-! The record counts of the summary. -/

def parseDigits (read : Nat) : List Char → Except String Nat
  | [] => .ok read
  | c :: rest =>
    if !c.isDigit then .error "invalid digit found in string"
    else
      let next := 10 * read + (c.toNat - '0'.toNat)
      if next < 2 ^ 64 then parseDigits next rest
      else .error "number too large to fit in target type"

def parseU64 (text : String) : Except String Nat :=
  match text.toList with
  | [] => .error "cannot parse integer from empty string"
  | ['+'] => .error "invalid digit found in string"
  | '+' :: digits => parseDigits 0 digits
  | digits => parseDigits 0 digits

def currentSnapshotTotalRecords (m : TableMetadata) : Except String (Option Nat) :=
  match m.currentSnapshot.bind fun s => s.summary.lookup "total-records" with
  | none => .ok none
  | some value =>
    match parseU64 value with
    | .ok count => .ok (some count)
    | .error e => .error s!"invalid current snapshot total-records `{value}`: {e}"

def SnapshotIndex.addedPositionDeletes (index : SnapshotIndex) : Nat :=
  (index.vectors.map fun v => v.2.dedup.length).sum

def newlyDeletedRecords (index : SnapshotIndex) : Except String Nat :=
  let added := index.addedPositionDeletes
  let replaced := index.replacedDeleteRecords
  if replaced ≤ added then .ok (added - replaced)
  else .error <| s!"DV delete summary underflow: added_position_deletes={added}, " ++
    s!"replaced_position_deletes={replaced}"

def dvTotalRecords (parent : Option Nat) (newly : Nat) : Except String (Option Nat) :=
  match parent with
  | none => .ok none
  | some parent =>
    if newly ≤ parent then .ok (some (parent - newly))
    else .error s!"DV delete total-records underflow: parent={parent}, deleted={newly}"

def dvSummary (index : SnapshotIndex) (total : Option Nat) (newly : Nat) : List (String × String) :=
  [("added-delete-files", toString index.vectors.length),
    ("added-position-deletes", toString index.addedPositionDeletes)] ++
  (if 0 < newly then [("deleted-records", toString newly)] else []) ++
  (if 0 < index.replacedDeleteFiles then
    [("removed-delete-files", toString index.replacedDeleteFiles),
      ("removed-position-delete-files", toString index.replacedDeleteFiles)] else []) ++
  (if 0 < index.replacedDeleteRecords then
    [("removed-position-deletes", toString index.replacedDeleteRecords)] else []) ++
  total.toList.map fun count => ("total-records", toString count)

def rowLevelUpdate (mode : String) : List (String × String) :=
  [("novarocks.row-level-op", "update"), ("novarocks.update.mode", mode)]

def RowDeltaDv.commit (a : RowDeltaDv) (t : Stamp) : Action := fun m => do
  guardThat (m.formatVersion = .v3) "RowDeltaDvCommit requires an Iceberg v3 table"
  let vectors ← groupsToVectors [] a.groups
  let index ← buildSnapshotIndex m a.targetRef vectors
  guardThat (index.vectors.all fun v => (dataFileAt index.dataFiles v.1).isSome)
    "row-lineage DELETE referenced data file is not present in the current snapshot"
  checkSpecs m "row-lineage DELETE references unknown partition spec id"
    (index.touchedDeleteExisting.map LiveFile.partitionSpecId ++
      (writeVectors m t index).map WrittenFile.partitionSpecId)
  let (next, manifests) ← writeManifestList m.formatVersion (some a.rowLineageFirstRowId)
    (a.manifests t m index)
  checkNextRowId a.rowLineageFirstRowId next "row-lineage DELETE/MOR-UPDATE must not allocate row IDs"
  let newly ← newlyDeletedRecords index
  let total ← dvTotalRecords (← currentSnapshotTotalRecords m) newly
  return commitSnapshot m a.targetRef t .delete
    (dvSummary index total newly ++ if a.written.isEmpty then [] else rowLevelUpdate "merge-on-read")
    (some (a.rowLineageFirstRowId, 0)) manifests

theorem RowDeltaDv.commit_ok {a : RowDeltaDv} (ran : a.commit t m = .ok c) :
    m.formatVersion = .v3 ∧ ∃ vectors manifests listed newly parent total,
      groupsToVectors [] a.groups = .ok vectors ∧
      targetManifests m a.targetRef = .ok manifests ∧
      validateAll ((liveFilesOf .deletes manifests).map LiveFile.dataFile) = .ok () ∧
      (∀ v ∈ vectors, ∃ f, dataFileAt (liveFilesOf .data manifests) v.1 = some f) ∧
      addManifests (some a.rowLineageFirstRowId) (a.manifests t m (indexOf manifests vectors)) =
        .ok (some a.rowLineageFirstRowId, listed) ∧
      newlyDeletedRecords (indexOf manifests vectors) = .ok newly ∧
      currentSnapshotTotalRecords m = .ok parent ∧ dvTotalRecords parent newly = .ok total ∧
      c = commitSnapshot m a.targetRef t .delete
        (dvSummary (indexOf manifests vectors) total newly ++
          if a.written.isEmpty then [] else rowLevelUpdate "merge-on-read")
        (some (a.rowLineageFirstRowId, 0)) listed := by
  obtain ⟨_,isV3,rest⟩ := bind_ok ran
  obtain ⟨vectors,grouped,rest⟩ := bind_ok rest
  obtain ⟨index,indexed,rest⟩ := bind_ok rest
  obtain ⟨manifests,target,rest'⟩ := bind_ok indexed
  obtain ⟨_,valid,last⟩ := bind_ok rest'
  cases last
  obtain ⟨_,present,rest⟩ := bind_ok rest
  obtain ⟨_,_,rest⟩ := bind_ok rest
  obtain ⟨⟨next,listed⟩,wrote,rest⟩ := bind_ok rest
  obtain ⟨_,numbered,rest⟩ := bind_ok rest
  obtain ⟨newly,counted,rest⟩ := bind_ok rest
  obtain ⟨parent,before,rest⟩ := bind_ok rest
  obtain ⟨total,after,last⟩ := bind_ok rest
  have version : m.formatVersion = .v3 := by simpa using guardThat_ok isV3
  have same := checkNextRowId_ok numbered
  subst same
  cases last
  rw [version, writeManifestList] at wrote
  refine ⟨version,vectors,manifests,listed,newly,parent,total,grouped,target,valid,?_,wrote,
    counted,before,after,rfl⟩
  intro v member
  have found := List.all_eq_true.mp (guardThat_ok present) _ (List.mem_map_of_mem member)
  exact Option.isSome_iff_exists.mp found

end NovaRocks.Iceberg
