import NovaRocks.Iceberg.Metadata
import NovaRocks.Relational.Join
import NovaRocks.Store.Checked
import Mathlib.Data.List.Sort

/-!
The commit actions. Each runs on the table it is given, writes manifests and a
manifest list and answers with the snapshot to add, the ref to move and the
requirements the catalog has to check. Every action takes its parent from the
target ref. Most of them take the files to inherit or to remove from the current
snapshot, which is the one of the main branch.
-/
namespace NovaRocks.Iceberg
open List

structure WrittenFile where
  file : DataFile
  partitionSpecId : Nat
  deriving DecidableEq

/-- What an attempt draws afresh: the commit's name, the snapshot id and the time. -/
structure Stamp where
  commitUuid : String
  snapshotId : SnapshotId
  nowMs : Nat

structure LiveFile where
  dataFile : DataFile
  partitionSpecId : Nat
  snapshotId : SnapshotId
  sequenceNumber : Nat
  deriving DecidableEq

def ManifestFile.liveFiles (m : ManifestFile) : List LiveFile :=
  m.live.map fun e => ⟨e.dataFile, m.partitionSpecId, e.snapshotId, e.sequenceNumber⟩

def liveFilesOf (content : ManifestContentType) (manifests : List ManifestFile) : List LiveFile :=
  (manifests.filter fun m => m.content = content).flatMap ManifestFile.liveFiles

def groupOn {β : Type} (key : β → Nat) (xs : List β) : List (Nat × List β) :=
  ((xs.map key).dedup.insertionSort (· ≤ ·)).map fun k => (k, xs.filter fun x => key x = k)

theorem groupOn_perm (key : β → Nat) (xs : List β) : ((groupOn key xs).flatMap Prod.snd).Perm xs := by
  have sorted := perm_insertionSort (· ≤ ·) (xs.map key).dedup
  have all : (xs.filter fun x => key x ∈ insertionSort (· ≤ ·) (xs.map key).dedup) = xs :=
    filter_eq_self.mpr fun x member =>
      decide_eq_true (sorted.mem_iff.mpr (mem_dedup.mpr (mem_map_of_mem member)))
  rw [groupOn, flatMap_map]
  conv_rhs => rw [← all]
  exact Relational.flatMap_filter_perm (sorted.nodup_iff.mpr (nodup_dedup _))

theorem mem_groupOn {key : β → Nat} {xs : List β} {g : Nat × List β}
    (group : g ∈ groupOn key xs) {x : β} (member : x ∈ g.2) : x ∈ xs ∧ key x = g.1 := by
  obtain ⟨k,_,rfl⟩ := mem_map.mp group
  simpa using mem_filter.mp member

theorem exists_groupOn (key : β → Nat) {xs : List β} {x : β} (member : x ∈ xs) :
    ∃ g ∈ groupOn key xs, g.1 = key x ∧ x ∈ g.2 := by
  have all := (groupOn_perm key xs).mem_iff.mpr member
  obtain ⟨g,group,inside⟩ := mem_flatMap.mp all
  exact ⟨g,group,(mem_groupOn group inside).2.symm,inside⟩

def recordsOf (written : List WrittenFile) : Nat :=
  (written.map fun f => f.file.recordCount).sum

section
variable (t : Stamp) (path : String)

def writeAddedManifest (content : ManifestContentType) (specId newSeq : Nat)
    (files : List DataFile) : ManifestFile :=
  ⟨path, content, specId, t.snapshotId, none,
    files.map fun f => ⟨.added, t.snapshotId, newSeq, f⟩⟩

def writeAddedDataManifest (specId newSeq : Nat) (written : List WrittenFile) : ManifestFile :=
  writeAddedManifest t path .data specId newSeq (written.map WrittenFile.file)

def writeExistingManifest (content : ManifestContentType) (specId : Nat)
    (files : List LiveFile) : ManifestFile :=
  ⟨path, content, specId, t.snapshotId, none,
    files.map fun f => ⟨.existing, f.snapshotId, f.sequenceNumber, f.dataFile⟩⟩

def writeDeletedManifest (content : ManifestContentType) (specId : Nat)
    (files : List LiveFile) : ManifestFile :=
  ⟨path, content, specId, t.snapshotId, none,
    files.map fun f => ⟨.deleted, t.snapshotId, f.sequenceNumber, f.dataFile⟩⟩

end

section
variable (m : TableMetadata) (targetRef : String)

def metadataDir : String :=
  m.location ++ "/metadata"

def parentOf : Option SnapshotId :=
  (m.refSnapshotId targetRef).or
    (if targetRef = "main" then m.currentSnapshot.map Snapshot.snapshotId else none)

def manifestListPath (t : Stamp) : String :=
  metadataDir m ++ "/snap-" ++ toString t.snapshotId ++ "-" ++ t.commitUuid ++ ".avro"

def newSequenceNumber : Nat :=
  m.lastSequenceNumber + 1

def commitSnapshot (t : Stamp) (operation : Operation) (summary : List (String × String))
    (rowRange : Option (Nat × Nat)) (manifests : List ManifestFile) : ActionCommit :=
  ⟨[.addSnapshot ⟨t.snapshotId, parentOf m targetRef, newSequenceNumber m, t.nowMs,
      manifestListPath m t, manifests, operation, summary, rowRange⟩,
    .setSnapshotRef targetRef t.snapshotId],
   [.currentSchemaIdMatch m.currentSchemaId, .defaultSpecIdMatch m.defaultSpecId,
    .refSnapshotIdMatch targetRef (parentOf m targetRef)]⟩

end

def checkSpecs (m : TableMetadata) (message : String) (specIds : List Nat) : Except String Unit :=
  if specIds.all fun s => m.partitionSpecIds.contains s then .ok () else .error message

def checkNextRowId (expected : Nat) (next : Option Nat) (message : String) : Except String Unit :=
  if next = some expected then .ok () else .error message

/-! Append on a row-lineage table. -/

structure FastAppendV3 where
  written : List WrittenFile
  partitionSpecId : Nat
  /-- The table's next row id when the statement began. -/
  rowLineageFirstRowId : Nat
  targetRef : String

def FastAppendV3.commit (a : FastAppendV3) (t : Stamp) : Action := fun m => do
  let added := writeAddedDataManifest t (metadataDir m ++ "/" ++ t.commitUuid ++ "-append-data-0.avro")
    a.partitionSpecId (newSequenceNumber m) a.written
  let (next, manifests) ← writeManifestList m.formatVersion (some a.rowLineageFirstRowId)
    (m.currentManifests ++ [added])
  checkNextRowId (a.rowLineageFirstRowId + recordsOf a.written) next
    "Manifest list row lineage mismatch"
  return commitSnapshot m a.targetRef t .append []
    (some (a.rowLineageFirstRowId, recordsOf a.written)) manifests

/-! DELETE with position-delete or equality-delete files. -/

structure RowDelta where
  written : List WrittenFile
  targetRef : String

def RowDelta.commit (a : RowDelta) (t : Stamp) : Action := fun m => do
  let groups := groupOn WrittenFile.partitionSpecId a.written
  checkSpecs m "RowDelta delete file references unknown partition spec id" (groups.map Prod.fst)
  if m.formatVersion = .v1 then
    throw "v1 tables do not support delete files; phase 1 rejects v1"
  let deletes := groups.zipIdx.map fun (group, idx) =>
    writeAddedManifest t
      (metadataDir m ++ "/" ++ t.commitUuid ++ "-row-delta-deletes-" ++ toString idx ++ ".avro")
      .deletes group.1 (newSequenceNumber m) (group.2.map WrittenFile.file)
  let (_, manifests) ← writeManifestList m.formatVersion none (m.currentManifests ++ deletes)
  return commitSnapshot m a.targetRef t .delete [] none manifests

/-! INSERT OVERWRITE of a whole table. -/

structure Overwrite where
  written : List WrittenFile
  partitionSpecId : Nat
  rowLineageFirstRowId : Option Nat
  targetRef : String

def Overwrite.commit (a : Overwrite) (t : Stamp) : Action := fun m => do
  let existing := liveFilesOf .data m.currentManifests
  if a.written.isEmpty && existing.isEmpty then return ⟨[], []⟩
  if m.formatVersion = .v1 then throw "phase 1 does not support V1 tables"
  let deleted := if existing.isEmpty then [] else
    [writeDeletedManifest t (metadataDir m ++ "/" ++ t.commitUuid ++ "-overwrite-deletes-0.avro")
      .data a.partitionSpecId existing]
  let added := if a.written.isEmpty then [] else
    [writeAddedDataManifest t (metadataDir m ++ "/" ++ t.commitUuid ++ "-overwrite-data-0.avro")
      a.partitionSpecId (newSequenceNumber m) a.written]
  let (next, manifests) ← writeManifestList m.formatVersion a.rowLineageFirstRowId (deleted ++ added)
  match a.rowLineageFirstRowId with
  | none => return commitSnapshot m a.targetRef t .overwrite [] none manifests
  | some first =>
    checkNextRowId (first + recordsOf a.written) next "Manifest list row lineage mismatch"
    return commitSnapshot m a.targetRef t .overwrite [] (some (first, recordsOf a.written)) manifests

/-! INSERT OVERWRITE of the partitions the new files belong to. -/

structure OverwritePartitions where
  written : List WrittenFile
  partitionSpecId : Nat
  rowLineageFirstRowId : Nat
  targetRef : String

def OverwritePartitions.touches (a : OverwritePartitions) (f : LiveFile) : Bool :=
  (a.written.map fun w => w.file.partition).contains f.dataFile.partition

def manifestIf (files : List LiveFile) (manifest : ManifestFile) : List ManifestFile :=
  if files.isEmpty then [] else [manifest]

/-- Files of the touched partitions are recorded as removed, all others are
listed again in a manifest of their own. -/
def OverwritePartitions.commit (a : OverwritePartitions) (t : Stamp) : Action := fun m => do
  if m.formatVersion = .v1 then throw "OverwritePartitionsCommit does not support V1 tables"
  let data := liveFilesOf .data m.currentManifests
  let deletes := liveFilesOf .deletes m.currentManifests
  if (data ++ deletes).any fun f => f.partitionSpecId ≠ a.partitionSpecId then
    throw "OVERWRITE PARTITIONS: base file under historical partition spec"
  let path := fun name : String =>
    metadataDir m ++ "/" ++ t.commitUuid ++ "-overwrite-partitions-" ++ name ++ ".avro"
  let survives := fun f => !a.touches f
  let survivingData := data.filter survives
  let survivingDeletes := deletes.filter survives
  let added := if a.written.isEmpty then [] else
    [writeAddedDataManifest t (path "data-0") a.partitionSpecId (newSequenceNumber m) a.written]
  let (_, manifests) ← writeManifestList m.formatVersion (some a.rowLineageFirstRowId)
    (manifestIf survivingData
        (writeExistingManifest t (path "surviving-data-0") .data a.partitionSpecId survivingData) ++
      manifestIf survivingDeletes (writeExistingManifest t (path "surviving-deletes-0") .deletes
        a.partitionSpecId survivingDeletes) ++
      manifestIf (data.filter a.touches) (writeDeletedManifest t (path "deleted-data-0") .data
        a.partitionSpecId (data.filter a.touches)) ++
      manifestIf (deletes.filter a.touches) (writeDeletedManifest t (path "deleted-deletes-0")
        .deletes a.partitionSpecId (deletes.filter a.touches)) ++
      added)
  return commitSnapshot m a.targetRef t .overwrite [("replace-partitions", "true")]
    (some (a.rowLineageFirstRowId, recordsOf a.written)) manifests

/-! Compaction of a whole table. -/

structure RewriteDataFiles where
  written : List WrittenFile
  partitionSpecId : Nat
  rowLineageFirstRowId : Option Nat
  /-- The written rows keep their row ids in a stored column. -/
  preserveRowLineage : Bool
  targetRef : String

/-- Files of one content removed, one manifest for each partition spec. -/
def writeRewriteDeleted (t : Stamp) (m : TableMetadata) (content : ManifestContentType)
    (name : String) : List ManifestFile :=
  (groupOn LiveFile.partitionSpecId (liveFilesOf content m.currentManifests)).zipIdx.map
    fun (group, idx) => writeDeletedManifest t
      (metadataDir m ++ "/" ++ t.commitUuid ++ name ++ toString idx ++ ".avro") content group.1 group.2

def RewriteDataFiles.commit (a : RewriteDataFiles) (t : Stamp) : Action := fun m => do
  if m.formatVersion = .v1 then throw "RewriteDataFilesCommit does not support V1 tables"
  let live := liveFilesOf .data m.currentManifests ++ liveFilesOf .deletes m.currentManifests
  if a.written.isEmpty && live.isEmpty then return ⟨[], []⟩
  checkSpecs m "RewriteDataFilesCommit references unknown partition spec id"
    (live.map LiveFile.partitionSpecId)
  let added := if a.written.isEmpty then [] else
    [writeAddedDataManifest t (metadataDir m ++ "/" ++ t.commitUuid ++ "-rewrite-added-data-0.avro")
      a.partitionSpecId (newSequenceNumber m) a.written]
  let (next, manifests) ← writeManifestList m.formatVersion
    (if a.preserveRowLineage then none else a.rowLineageFirstRowId)
    (writeRewriteDeleted t m .data "-rewrite-deleted-data-" ++ added ++
      writeRewriteDeleted t m .deletes "-rewrite-deleted-delete-")
  let rows := if a.preserveRowLineage then 0 else recordsOf a.written
  match a.rowLineageFirstRowId with
  | none => return commitSnapshot m a.targetRef t .replace [] none manifests
  | some first =>
    if !a.preserveRowLineage then
      checkNextRowId (first + rows) next "Manifest list row lineage mismatch"
    return commitSnapshot m a.targetRef t .replace [] (some (first, rows)) manifests

/-! What a successful action has done. -/

theorem checkNextRowId_ok {next : Option Nat}
    (passed : checkNextRowId expected next message = .ok u) : next = some expected := by
  unfold checkNextRowId at passed
  split at passed
  · assumption
  · cases passed

theorem addedManifest_cases (x : ManifestFile) (written : List WrittenFile) :
    (if written.isEmpty then [] else [x]) = [] ∧ written = [] ∨
      (if written.isEmpty then [] else [x]) = [x] := by
  cases written with
  | nil => exact .inl ⟨rfl,rfl⟩
  | cons => exact .inr rfl

theorem FastAppendV3.commit_ok {a : FastAppendV3} (ran : a.commit t m = .ok c) :
    ∃ manifests,
      writeManifestList m.formatVersion (some a.rowLineageFirstRowId)
        (m.currentManifests ++ [writeAddedDataManifest t
          (metadataDir m ++ "/" ++ t.commitUuid ++ "-append-data-0.avro") a.partitionSpecId
          (newSequenceNumber m) a.written]) =
        .ok (some (a.rowLineageFirstRowId + recordsOf a.written), manifests) ∧
      c = commitSnapshot m a.targetRef t .append []
        (some (a.rowLineageFirstRowId, recordsOf a.written)) manifests := by
  obtain ⟨⟨next,manifests⟩,wrote,rest⟩ := bind_ok ran
  obtain ⟨_,numbered,last⟩ := bind_ok rest
  have same := checkNextRowId_ok numbered
  subst same
  cases last
  exact ⟨manifests,wrote,rfl⟩

theorem RowDelta.commit_ok {a : RowDelta} (ran : a.commit t m = .ok c) :
    ∃ next manifests,
      writeManifestList m.formatVersion none (m.currentManifests ++
        (groupOn WrittenFile.partitionSpecId a.written).zipIdx.map fun (group, idx) =>
          writeAddedManifest t
            (metadataDir m ++ "/" ++ t.commitUuid ++ "-row-delta-deletes-" ++ toString idx ++ ".avro")
            .deletes group.1 (newSequenceNumber m) (group.2.map WrittenFile.file)) =
        .ok (next, manifests) ∧
      c = commitSnapshot m a.targetRef t .delete [] none manifests := by
  obtain ⟨_,_,rest⟩ := bind_ok ran
  split at rest
  · cases rest
  · obtain ⟨⟨next,manifests⟩,wrote,last⟩ := bind_ok rest
    cases last
    exact ⟨next,manifests,wrote,rfl⟩

/-- Nothing to write and nothing to remove is no commit at all. -/
theorem Overwrite.commit_ok {a : Overwrite} (ran : a.commit t m = .ok c) :
    (a.written = [] ∧ liveFilesOf .data m.currentManifests = [] ∧ c = ⟨[], []⟩) ∨
    ¬ (a.written = [] ∧ liveFilesOf .data m.currentManifests = []) ∧
      ∃ next manifests, ∃ deleted added : List ManifestFile,
        writeManifestList m.formatVersion a.rowLineageFirstRowId (deleted ++ added) =
          .ok (next, manifests) ∧
        (∀ d ∈ deleted, ∃ path files, d = writeDeletedManifest t path .data a.partitionSpecId files) ∧
        (added = [] ∧ a.written = [] ∨ ∃ path, added =
          [writeAddedDataManifest t path a.partitionSpecId (newSequenceNumber m) a.written]) ∧
        ∃ rowRange, c = commitSnapshot m a.targetRef t .overwrite [] rowRange manifests := by
  unfold Overwrite.commit at ran
  dsimp only at ran
  split at ran
  · rename_i empty
    rw [Bool.and_eq_true, List.isEmpty_iff, List.isEmpty_iff] at empty
    cases ran
    exact .inl ⟨empty.1,empty.2,rfl⟩
  · rename_i some'
    rw [Bool.and_eq_true, List.isEmpty_iff, List.isEmpty_iff] at some'
    refine .inr ⟨some',?_⟩
    split at ran
    · cases ran
    · obtain ⟨⟨next,manifests⟩,wrote,last⟩ := bind_ok ran
      refine ⟨next,manifests,_,_,wrote,?_,?_,?_⟩
      · intro d member
        split at member
        · cases member
        · exact ⟨_,_,mem_singleton.mp member⟩
      · exact (addedManifest_cases _ _).imp_right fun here => ⟨_,here⟩
      · dsimp only at last
        split at last
        · cases last
          exact ⟨_,rfl⟩
        · obtain ⟨_,_,last⟩ := bind_ok last
          cases last
          exact ⟨_,rfl⟩

theorem OverwritePartitions.commit_ok {a : OverwritePartitions} (ran : a.commit t m = .ok c) :
    (∀ f ∈ liveFilesOf .data m.currentManifests ++ liveFilesOf .deletes m.currentManifests,
      f.partitionSpecId = a.partitionSpecId) ∧
    ∃ next manifests, ∃ path : String → String, ∃ added : List ManifestFile,
      writeManifestList m.formatVersion (some a.rowLineageFirstRowId)
        (manifestIf ((liveFilesOf .data m.currentManifests).filter fun f => !a.touches f)
            (writeExistingManifest t (path "surviving-data-0") .data a.partitionSpecId
              ((liveFilesOf .data m.currentManifests).filter fun f => !a.touches f)) ++
          manifestIf ((liveFilesOf .deletes m.currentManifests).filter fun f => !a.touches f)
            (writeExistingManifest t (path "surviving-deletes-0") .deletes a.partitionSpecId
              ((liveFilesOf .deletes m.currentManifests).filter fun f => !a.touches f)) ++
          manifestIf ((liveFilesOf .data m.currentManifests).filter a.touches)
            (writeDeletedManifest t (path "deleted-data-0") .data a.partitionSpecId
              ((liveFilesOf .data m.currentManifests).filter a.touches)) ++
          manifestIf ((liveFilesOf .deletes m.currentManifests).filter a.touches)
            (writeDeletedManifest t (path "deleted-deletes-0") .deletes a.partitionSpecId
              ((liveFilesOf .deletes m.currentManifests).filter a.touches)) ++
          added) = .ok (next, manifests) ∧
      (added = [] ∧ a.written = [] ∨ added =
        [writeAddedDataManifest t (path "data-0") a.partitionSpecId (newSequenceNumber m) a.written]) ∧
      c = commitSnapshot m a.targetRef t .overwrite [("replace-partitions", "true")]
        (some (a.rowLineageFirstRowId, recordsOf a.written)) manifests := by
  unfold OverwritePartitions.commit at ran
  dsimp only at ran
  split at ran
  · cases ran
  split at ran
  · cases ran
  · rename_i sameSpec
    obtain ⟨⟨next,manifests⟩,wrote,last⟩ := bind_ok ran
    cases last
    refine ⟨?_,next,manifests,fun name =>
      metadataDir m ++ "/" ++ t.commitUuid ++ "-overwrite-partitions-" ++ name ++ ".avro",_,wrote,
      ?_,rfl⟩
    · intro f member
      by_contra other
      exact sameSpec (any_eq_true.mpr ⟨f,member,by simpa using other⟩)
    · exact addedManifest_cases _ _

theorem RewriteDataFiles.commit_ok {a : RewriteDataFiles} (ran : a.commit t m = .ok c) :
    (a.written = [] ∧ liveFilesOf .data m.currentManifests = [] ∧
      liveFilesOf .deletes m.currentManifests = [] ∧ c = ⟨[], []⟩) ∨
    ¬ (a.written = [] ∧ liveFilesOf .data m.currentManifests = [] ∧
        liveFilesOf .deletes m.currentManifests = []) ∧
      ∃ next manifests, ∃ added : List ManifestFile,
        writeManifestList m.formatVersion
          (if a.preserveRowLineage then none else a.rowLineageFirstRowId)
          (writeRewriteDeleted t m .data "-rewrite-deleted-data-" ++ added ++
            writeRewriteDeleted t m .deletes "-rewrite-deleted-delete-") = .ok (next, manifests) ∧
        (added = [] ∧ a.written = [] ∨ ∃ path, added =
          [writeAddedDataManifest t path a.partitionSpecId (newSequenceNumber m) a.written]) ∧
        ∃ rowRange, c = commitSnapshot m a.targetRef t .replace [] rowRange manifests := by
  unfold RewriteDataFiles.commit at ran
  dsimp only at ran
  split at ran
  · cases ran
  split at ran
  · rename_i empty
    rw [Bool.and_eq_true, List.isEmpty_iff, List.isEmpty_iff, append_eq_nil_iff] at empty
    cases ran
    exact .inl ⟨empty.1,empty.2.1,empty.2.2,rfl⟩
  · rename_i some'
    rw [Bool.and_eq_true, List.isEmpty_iff, List.isEmpty_iff, append_eq_nil_iff] at some'
    refine .inr ⟨some',?_⟩
    obtain ⟨_,_,rest⟩ := bind_ok ran
    obtain ⟨⟨next,manifests⟩,wrote,last⟩ := bind_ok rest
    refine ⟨next,manifests,_,wrote,?_,?_⟩
    · exact (addedManifest_cases _ _).imp_right fun here => ⟨_,here⟩
    · dsimp only at last
      split at last
      · cases last
        exact ⟨_,rfl⟩
      · split at last
        · obtain ⟨_,_,last⟩ := bind_ok last
          cases last
          exact ⟨_,rfl⟩
        · cases last
          exact ⟨_,rfl⟩

structure Committed (m after : TableMetadata) (ref : String) (s : Snapshot) : Prop where
  fresh : m.snapshotById s.snapshotId = none
  snapshots : after.snapshots = m.snapshots ++ [s]
  refs : after.refs = (ref, s.snapshotId) :: m.refs.filter fun r => r.1 ≠ ref
  current : after.currentSnapshotId =
    if ref = "main" then some s.snapshotId else m.currentSnapshotId
  version : after.formatVersion = m.formatVersion
  sequence : after.lastSequenceNumber = s.sequenceNumber
  rowIds : m.formatVersion = .v3 → ∃ first rows, s.rowRange = some (first, rows) ∧
    m.nextRowId ≤ first ∧ after.nextRowId = m.nextRowId + rows

theorem addSnapshot_ok {m after : TableMetadata} (done : m.addSnapshot s = .ok after) :
    m.snapshotById s.snapshotId = none ∧ after.snapshots = m.snapshots ++ [s] ∧
      after.refs = m.refs ∧ after.currentSnapshotId = m.currentSnapshotId ∧
      after.formatVersion = m.formatVersion ∧ after.lastSequenceNumber = s.sequenceNumber ∧
      (m.formatVersion = .v3 → ∃ first rows, s.rowRange = some (first, rows) ∧
        m.nextRowId ≤ first ∧ after.nextRowId = m.nextRowId + rows) := by
  unfold TableMetadata.addSnapshot at done
  split at done
  · cases done
  rename_i fresh
  have fresh := Option.not_isSome_iff_eq_none.mp fresh
  split at done
  · cases done
  split at done
  · cases done
  · rename_i version range
    split at done
    · cases done
    · rename_i enough
      cases done
      exact ⟨fresh,rfl,rfl,rfl,rfl,rfl,fun _ => ⟨_,_,range,Nat.not_lt.mp enough,rfl⟩⟩
  · rename_i absent present
    cases done
    refine ⟨fresh,rfl,rfl,rfl,rfl,rfl,fun v3 => ?_⟩
    cases range : s.rowRange with
    | none => exact (absent v3 range).elim
    | some r => exact (present _ _ v3 range).elim

theorem applyUpdates_committed {m after : TableMetadata}
    (done : m.applyUpdates [.addSnapshot s, .setSnapshotRef ref s.snapshotId] = .ok after) :
    Committed m after ref s := by
  simp only [TableMetadata.applyUpdates, TableMetadata.applyUpdate] at done
  split at done
  · cases done
  rename_i between added
  split at done
  · cases done
  rename_i set
  cases done
  obtain ⟨fresh,snapshots,refs,current,version,sequence,rowIds⟩ := addSnapshot_ok added
  unfold TableMetadata.setRef at set
  split at set
  · cases set
  cases set
  exact ⟨fresh,snapshots,by rw [refs],by rw [current],version,sequence,rowIds⟩

theorem committed {m seen after : TableMetadata}
    (done : updateTable m (commitSnapshot seen ref t op summary rowRange manifests) = .ok after) :
    m.refSnapshotId ref = parentOf seen ref ∧
      Committed m after ref ⟨t.snapshotId, parentOf seen ref, newSequenceNumber seen, t.nowMs,
        manifestListPath seen t, manifests, op, summary, rowRange⟩ := by
  obtain ⟨passed,applied⟩ := updateTable_ok done
  exact ⟨check_ref_ok (checkAll_ok passed _ (by simp [commitSnapshot])),applyUpdates_committed applied⟩

namespace Committed
variable {m after : TableMetadata}

theorem head_id (c : Committed m after ref s) : after.refSnapshotId ref = some s.snapshotId := by
  rw [TableMetadata.refSnapshotId, c.refs]
  simp

theorem snapshot (c : Committed m after ref s) : after.snapshotById s.snapshotId = some s := by
  have fresh := c.fresh
  rw [TableMetadata.snapshotById] at fresh ⊢
  rw [c.snapshots, find?_append, fresh]
  simp

theorem currentManifests (c : Committed m after "main" s) : after.currentManifests = s.manifests := by
  rw [TableMetadata.currentManifests, TableMetadata.currentSnapshot, c.current, if_pos rfl,
    Option.bind_some, c.snapshot]
  rfl

end Committed

end NovaRocks.Iceberg
