import NovaRocks.Iceberg.RowDeltaDv
import NovaRocks.Iceberg.Reading

/-!
DELETE on a table without row lineage. The statement scans the head of its branch
and writes a position-delete file for each data file with matching rows. The
commit adds these files to whatever snapshot is current by then; a row that a
rewrite has copied elsewhere in the meantime is not at the marked place any more.
-/
namespace NovaRocks.Iceberg
open List
open RowDelta (mk)

structure PartitionedDeleteGroup extends PositionDeleteGroup where
  partitionSpecId : Nat
  partitionValues : List Value

def withPartitions (files : List LiveFile) :
    List PositionDeleteGroup → Except String (List PartitionedDeleteGroup)
  | [] => .ok []
  | g :: rest =>
    match dataFileAt files g.referencedDataFile with
    | none => .error "matched iceberg data file is missing partition metadata"
    | some f => do
      let rest ← withPartitions files rest
      return ⟨g, f.partitionSpecId, f.dataFile.partition⟩ :: rest

def scanForPositionDeletes (manifests : List ManifestFile) (selects : List Value → Bool) :
    Except String (List PartitionedDeleteGroup) :=
  withPartitions (liveFilesOf .data manifests)
    (groupsOf ((liveRows manifests).filter fun r => selects r.values))

/-- The positions are sorted in the file; their order is of no effect. -/
def positionDeleteFile (path : String) (g : PartitionedDeleteGroup) : WrittenFile :=
  ⟨⟨path, .positionDeletes, .parquet, g.partitionValues, none, some g.referencedDataFile, [],
    g.positions.map fun pos => (g.referencedDataFile, pos.toNat), [], []⟩, g.partitionSpecId⟩

def writePositionDeleteFiles (staged : Nat → String) (groups : List PartitionedDeleteGroup) :
    List WrittenFile :=
  (groups.zipIdx.filter fun (g, _) => !g.positions.isEmpty).map
    fun (g, idx) => positionDeleteFile (staged idx) g

def marked (written : List WrittenFile) : List (String × Nat) :=
  written.flatMap fun w => w.file.positions

def LiveRow.place (r : LiveRow) : String × Nat :=
  (r.path, r.pos)

def livePlaces (manifests : List ManifestFile) : List (String × Nat) :=
  (liveRows manifests).map LiveRow.place

theorem livePlaces_eq (manifests : List ManifestFile) :
    livePlaces manifests = (liveContent manifests).map LiveRow.place := by
  rw [livePlaces, liveContent, map_map]
  rfl

theorem withPartitions_ok (done : withPartitions files groups = .ok out) :
    ∀ g ∈ out, ∃ f ∈ files, f.dataFile.path = g.referencedDataFile ∧
      f.partitionSpecId = g.partitionSpecId ∧ f.dataFile.partition = g.partitionValues := by
  induction groups generalizing out with
  | nil =>
    cases done
    simp
  | cons g rest ih =>
    rw [withPartitions] at done
    split at done
    · cases done
    rename_i f found
    obtain ⟨later,tail,last⟩ := bind_ok done
    cases last
    intro h member
    rcases mem_cons.mp member with rfl | inside
    · have known := mem_reverse.mp (mem_of_find?_eq_some found)
      have path := find?_some found
      exact ⟨f,known,of_decide_eq_true path,rfl,rfl⟩
    · exact ih tail h inside

theorem mem_writePositionDeleteFiles (member : w ∈ writePositionDeleteFiles staged groups) :
    ∃ g ∈ groups, ∃ path, w = positionDeleteFile path g := by
  obtain ⟨⟨g,idx⟩,kept,rfl⟩ := mem_map.mp member
  exact ⟨g,fst_mem_of_mem_zipIdx (mem_filter.mp kept).1,staged idx,rfl⟩

/-- A statement's delete files, and the data files of the snapshot they are added
to: a path names one file, so the partition found by the scan still holds, and no
file is younger than the table. -/
structure DeletesFit (written : List WrittenFile) (loaded : TableMetadata) : Prop where
  files : ∀ w ∈ written, ∃ path g, w = positionDeleteFile path g ∧
    ∀ f ∈ liveFilesOf .data loaded.currentManifests, f.dataFile.path = g.referencedDataFile →
      f.partitionSpecId = g.partitionSpecId ∧ f.dataFile.partition = g.partitionValues
  older : ∀ f ∈ liveFilesOf .data loaded.currentManifests, f.sequenceNumber ≤ loaded.lastSequenceNumber

theorem removed_by_marks (fit : DeletesFit written loaded) (scanned : f ∈ scanFiles loaded.currentManifests)
    (listed : ∀ d, d ∈ new ↔ ∃ w ∈ written, d = ⟨w.file, newSequenceNumber loaded, w.partitionSpecId⟩) :
    f.removed new p ↔ (f.rowAt p).place ∈ marked written := by
  obtain ⟨live,known,file,spec,seq⟩ := mem_scanFiles scanned
  have younger : f.dataSequenceNumber < newSequenceNumber loaded := by
    have := fit.older live known
    rw [newSequenceNumber]
    omega
  rw [removed_iff]
  constructor
  · rintro ⟨d,inside,_,gone⟩
    obtain ⟨w,member,rfl⟩ := (listed d).mp inside
    obtain ⟨path,g,rfl,_⟩ := fit.files w member
    have place : (f.file.path, p.2) ∈ (positionDeleteFile path g).file.positions := by
      simpa [IcebergReadDeleteFile.removes, positionDeleteFile] using gone
    exact mem_flatMap.mpr ⟨_,member,place⟩
  · intro place
    obtain ⟨w,member,inside⟩ := mem_flatMap.mp place
    obtain ⟨path,g,rfl,same⟩ := fit.files w member
    have own : f.file.path = g.referencedDataFile := by
      obtain ⟨pos,_,at'⟩ := mem_map.mp inside
      exact (Prod.mk.inj at').1.symm
    obtain ⟨sameSpec,samePartition⟩ := same live known (by rw [← file, own])
    have partition : f.file.partition = g.partitionValues := by rw [file, samePartition]
    have at' : (f.file.path, p.2) ∈ (positionDeleteFile path g).file.positions := inside
    refine ⟨_,(listed _).mpr ⟨_,member,rfl⟩,?_,?_⟩
    · cases key : partitionKey g.partitionValues with
      | none => simp [deleteAppliesToDataFile, positionDeleteFile, younger, own, key]
      | some k =>
        simp [deleteAppliesToDataFile, positionDeleteFile, younger, own, key, spec, sameSpec, partition]
    · simpa [IcebergReadDeleteFile.removes, positionDeleteFile] using at'

theorem reading_added_deletes (fit : DeletesFit written loaded)
    (added : (groupOn WrittenFile.partitionSpecId written).zipIdx.map (fun (group, idx) =>
      writeAddedManifest t
        (metadataDir loaded ++ "/" ++ t.commitUuid ++ "-row-delta-deletes-" ++ toString idx ++ ".avro")
        .deletes group.1 (newSequenceNumber loaded) (group.2.map WrittenFile.file)) = new) :
    scanFiles new = [] ∧ ∀ d, d ∈ readDeletes new ↔ ∃ w ∈ written,
      d = ⟨w.file, newSequenceNumber loaded, w.partitionSpecId⟩ := by
  constructor
  · rw [scanFiles, flatMap_eq_nil_iff]
    intro x member
    obtain ⟨inside,content⟩ := mem_filter.mp member
    rw [← added] at inside
    obtain ⟨_,_,rfl⟩ := mem_map.mp inside
    cases content
  · have files : ∀ f, f ∈ liveFilesOf .deletes new ↔ ∃ w ∈ written,
        f = ⟨w.file,w.partitionSpecId,t.snapshotId,newSequenceNumber loaded⟩ := by
      intro f
      rw [← added]
      exact mem_addedDeletes_iff fun idx => metadataDir loaded ++ "/" ++ t.commitUuid ++
        "-row-delta-deletes-" ++ toString idx ++ ".avro"
    have position : ∀ w ∈ written, w.file.content = .positionDeletes := by
      intro w inside
      obtain ⟨path,g,same,_⟩ := fit.files w inside
      simp [same, positionDeleteFile]
    intro d
    rw [mem_readDeletes_iff]
    constructor
    · rintro ⟨live,member,_,rfl⟩
      obtain ⟨w,inside,rfl⟩ := (files live).mp member
      exact ⟨w,inside,by rw [DataFile.asDelete_of_position (by simp [position w inside])]⟩
    · rintro ⟨w,inside,rfl⟩
      refine ⟨_,(files _).mpr ⟨w,inside,rfl⟩,by simp [position w inside],?_⟩
      rw [DataFile.asDelete_of_position (by simp [position w inside])]

theorem livePlaces_after_delete {current after : TableMetadata} (fit : DeletesFit written loaded)
    (done : attempt ((mk written ref).commit t) loaded current = .ok after) :
    livePlaces (headManifests after ref) =
      (livePlaces loaded.currentManifests).filter fun place => place ∉ marked written := by
  obtain ⟨c,ran,applied⟩ := attempt_ok done
  obtain ⟨next,manifests,wrote,rfl⟩ := RowDelta.commit_ok ran
  rw [headManifests_committed (committed applied).2, livePlaces_eq, liveContent_listed wrote,
    ← livePlaces_eq]
  generalize added : (groupOn WrittenFile.partitionSpecId written).zipIdx.map _ = new
  obtain ⟨noData,listed⟩ := reading_added_deletes fit added
  rw [livePlaces, livePlaces, liveRows_eq_rowsLeft, liveRows_eq_rowsLeft, scanFiles_append, noData,
    append_nil, readDeletes_append, map_flatMap, map_flatMap, filter_flatMap]
  apply flatMap_congr
  intro f scanned
  have left : f.rowsLeft (readDeletes loaded.currentManifests ++ readDeletes new) =
      (f.rowsLeft (readDeletes loaded.currentManifests)).filter fun r => r.place ∉ marked written := by
    apply rowsLeft_append
    intro p
    rw [Bool.eq_iff_iff, removed_by_marks fit scanned listed]
    simp
  rw [left, filter_map]
  rfl

/-- No marked row, in its own file or in a copy, is live after the commit exactly
when each one that is live in the table the commit runs on is still at its place. -/
theorem delete_stays_iff {I : Type} (ident : String × Nat → I) {selects : List Value → Bool}
    {ref : String} {staged : Nat → String} {t : Stamp} {groups : List PartitionedDeleteGroup}
    {started loaded current after : TableMetadata}
    (scanned : scanForPositionDeletes (headManifests started ref) selects = .ok groups)
    (samePaths : ∀ f ∈ liveFilesOf .data (headManifests started ref),
      ∀ g ∈ liveFilesOf .data loaded.currentManifests, g.dataFile.path = f.dataFile.path →
        g.partitionSpecId = f.partitionSpecId ∧ g.dataFile.partition = f.dataFile.partition)
    (older : ∀ f ∈ liveFilesOf .data loaded.currentManifests,
      f.sequenceNumber ≤ loaded.lastSequenceNumber)
    (done : attempt ((mk (writePositionDeleteFiles staged groups) ref).commit t) loaded
      current = .ok after) :
    (∀ r ∈ liveRows (headManifests after ref), ∀ k ∈ marked (writePositionDeleteFiles staged groups),
        ident r.place ≠ ident k) ↔
      ∀ r ∈ liveRows loaded.currentManifests,
        (∃ k ∈ marked (writePositionDeleteFiles staged groups), ident r.place = ident k) →
          r.place ∈ marked (writePositionDeleteFiles staged groups) := by
  have fit : DeletesFit (writePositionDeleteFiles staged groups) loaded := by
    refine ⟨?_,older⟩
    intro w member
    obtain ⟨g,inside,path,rfl⟩ := mem_writePositionDeleteFiles member
    refine ⟨path,g,rfl,?_⟩
    intro f live own
    obtain ⟨source,known,samePath,spec,partition⟩ := withPartitions_ok scanned g inside
    obtain ⟨sameSpec,samePartition⟩ := samePaths source known f live (by rw [own, samePath])
    exact ⟨by rw [sameSpec, spec],by rw [samePartition, partition]⟩
  have places := livePlaces_after_delete fit done
  constructor
  · intro clear r live copy
    by_contra elsewhere
    have stays : r.place ∈ livePlaces (headManifests after ref) := by
      rw [places]
      exact mem_filter.mpr ⟨mem_map_of_mem live,by simpa using elsewhere⟩
    obtain ⟨r',live',same⟩ := mem_map.mp stays
    obtain ⟨k,mark,ident'⟩ := copy
    exact clear r' live' k mark (by rw [same, ident'])
  · intro inPlace r live k mark same
    have stays : r.place ∈ livePlaces (headManifests after ref) := mem_map_of_mem live
    rw [places] at stays
    obtain ⟨before,unmarked⟩ := mem_filter.mp stays
    obtain ⟨r',live',samePlace⟩ := mem_map.mp before
    have mark' := inPlace r' live' ⟨k,mark,by rw [samePlace, same]⟩
    rw [samePlace] at mark'
    simp [mark'] at unmarked

def twoTickets : List StoredRow :=
  [⟨[.int 1], none⟩, ⟨[.int 2], none⟩]

def ticketsTable : TableMetadata :=
  ⟨.v2, "tickets", 0, 0, [0], 1, 0, some 1,
    [⟨1, none, 1, 0, "tickets/metadata/snap-1.avro",
      [⟨"tickets/metadata/m-1.avro", .data, 0, 1, none,
        [⟨.added, 1, 1, DataFile.ofRows "tickets-1" [] twoTickets⟩]⟩],
      .append, [], none⟩],
    [("main", 1)]⟩

def isFirstTicket (values : List Value) : Bool :=
  values = [.int 1]

def ticketGroups : List PartitionedDeleteGroup :=
  [⟨⟨"tickets-1", [0]⟩, 0, []⟩]

def ticketDeletes : List WrittenFile :=
  writePositionDeleteFiles (fun _ => "tickets/position-delete-0.parquet") ticketGroups

def secondDeleted : TableMetadata :=
  (attempt ((mk (writePositionDeleteFiles (fun _ => "tickets/position-delete-1.parquet")
    [⟨⟨"tickets-1", [1]⟩, 0, []⟩]) "main").commit ⟨"c", 2, 0⟩) ticketsTable ticketsTable).toOption.getD
      ticketsTable

/-- A row is known by the place it stands at. -/
theorem delete_stays_iff_tickets :
    (liveRows (headManifests secondDeleted "main")).map LiveRow.place = [("tickets-1", 0)] ∧
      ∃ after, attempt ((mk ticketDeletes "main").commit ⟨"d", 3, 0⟩) secondDeleted secondDeleted =
          .ok after ∧
        ∀ r ∈ liveRows (headManifests after "main"), ∀ k ∈ marked ticketDeletes, r.place ≠ k := by
  obtain ⟨after,done⟩ : ∃ after, attempt ((mk ticketDeletes "main").commit ⟨"d",3,0⟩)
    secondDeleted secondDeleted = .ok after := ⟨_,rfl⟩
  have scanned : scanForPositionDeletes (headManifests ticketsTable "main") isFirstTicket =
    .ok ticketGroups := by rfl
  refine ⟨by decide,after,done,(delete_stays_iff id scanned (by decide) (by decide) done).mpr ?_⟩
  rintro r live ⟨k,mark,same⟩
  have place : r.place = k := same
  rwa [place]

def ticketsCompacted : TableMetadata :=
  (attempt ((RewriteDataFiles.mk [⟨DataFile.ofRows "tickets-2" [] twoTickets, 0⟩] 0 none false
    "main").commit ⟨"o", 2, 0⟩) ticketsTable ticketsTable).toOption.getD ticketsTable

/-- The first ticket is marked in the old file and live in the new one. -/
theorem compacted_ticket_survives :
    scanForPositionDeletes (headManifests ticketsTable "main") isFirstTicket = .ok ticketGroups ∧
      marked ticketDeletes = [("tickets-1", 0)] ∧
      ∃ after, attempt ((mk ticketDeletes "main").commit ⟨"d", 3, 0⟩) ticketsCompacted
          ticketsCompacted = .ok after ∧
        liveRows (headManifests after "main") =
          [⟨"tickets-2", 0, [.int 1], none⟩, ⟨"tickets-2", 1, [.int 2], none⟩] := by
  refine ⟨rfl,rfl,_,rfl,?_⟩
  decide

end NovaRocks.Iceberg
