import NovaRocks.Iceberg.Actions
import Mathlib.Data.List.Flatten

/-!
Facts about reading: which data files a manifest list holds does not depend on
the delete files, and more delete files leave fewer rows.
-/
namespace NovaRocks.Iceberg
open List

def scanFiles (manifests : List ManifestFile) : List IcebergReadFile :=
  (manifests.filter fun m => m.content = .data).flatMap fun m =>
    readEntries [] m.partitionSpecId m.firstRowId m.entries

namespace IcebergReadFile

variable (deletes : List IcebergReadDeleteFile) (f : IcebergReadFile)

def attach : IcebergReadFile :=
  { f with deletes := attachDeletes deletes f.file f.partitionSpecId f.dataSequenceNumber }

def rowAt (p : StoredRow × Nat) : LiveRow :=
  ⟨f.file.path, p.2, p.1.values, p.1.rowId.or (f.firstRowId.map (· + p.2))⟩

def removed (p : StoredRow × Nat) : Bool :=
  (attachDeletes deletes f.file f.partitionSpecId f.dataSequenceNumber).any fun d =>
    d.removes f.file.path p.2 p.1

def rowsLeft : List LiveRow :=
  (f.file.rows.zipIdx.filter fun p => !f.removed deletes p).map f.rowAt

end IcebergReadFile

theorem readEntries_attach (deletes : List IcebergReadDeleteFile) (specId : Nat) (next : Option Nat)
    (entries : List ManifestEntry) :
    readEntries deletes specId next entries =
      (readEntries [] specId next entries).map (IcebergReadFile.attach deletes) := by
  induction entries generalizing next with
  | nil => rfl
  | cons e rest ih =>
    rw [readEntries, readEntries]
    split
    · rw [map_cons, ih]
      rfl
    · exact ih next

theorem buildReadSnapshot_eq (manifests : List ManifestFile) :
    buildReadSnapshot manifests =
      (scanFiles manifests).map (IcebergReadFile.attach (readDeletes manifests)) := by
  rw [buildReadSnapshot, scanFiles, map_flatMap]
  apply flatMap_congr
  intro m _
  exact readEntries_attach _ _ _ _

theorem liveRows_eq_rowsLeft (manifests : List ManifestFile) :
    liveRows manifests =
      (scanFiles manifests).flatMap (IcebergReadFile.rowsLeft (readDeletes manifests)) := by
  rw [liveRows, buildReadSnapshot_eq, flatMap_map]
  rfl

theorem mem_attachDeletes : d ∈ attachDeletes deletes f specId seq ↔
      d ∈ deletes ∧ deleteAppliesToDataFile d f specId seq := by
  simp only [attachDeletes, mem_append, mem_filter, decide_eq_true_eq]
  constructor
  · rintro (⟨⟨inside,_⟩,applies⟩ | ⟨⟨inside,_⟩,applies⟩)
    · exact ⟨inside,applies⟩
    · exact ⟨inside,applies⟩
  · rintro ⟨inside,applies⟩
    cases refers : d.file.referencedDataFile with
    | none => exact .inr ⟨⟨inside,rfl⟩,applies⟩
    | some path =>
      have same : path = f.path := by
        simp only [deleteAppliesToDataFile, refers, Option.all_some, Bool.and_eq_true,
          decide_eq_true_eq] at applies
        exact applies.1.2
      exact .inl ⟨⟨inside,by rw [same]⟩,applies⟩

variable {f : IcebergReadFile}

theorem removed_iff : f.removed deletes p ↔ ∃ d ∈ deletes,
      deleteAppliesToDataFile d f.file f.partitionSpecId f.dataSequenceNumber ∧
        d.removes f.file.path p.2 p.1 := by
  simp only [IcebergReadFile.removed, any_eq_true, mem_attachDeletes, and_assoc]

theorem rowsLeft_sublist (covers : ∀ p, f.removed old p ∨ !keep (f.rowAt p) → f.removed new p) :
    (f.rowsLeft new).Sublist ((f.rowsLeft old).filter keep) := by
  rw [IcebergReadFile.rowsLeft, IcebergReadFile.rowsLeft, filter_map, filter_filter]
  apply Sublist.map
  apply monotone_filter_right
  intro p stays
  have notOld : f.removed old p = false := by
    by_contra gone
    rw [covers p (.inl (by simpa using gone))] at stays
    cases stays
  have kept : keep (f.rowAt p) = true := by
    by_contra gone
    rw [covers p (.inr (by simpa using gone))] at stays
    cases stays
  simp [notOld, kept]

theorem rowsLeft_filter (takes : ∀ p, f.removed new p = (f.removed old p || !keep (f.rowAt p))) :
    f.rowsLeft new = (f.rowsLeft old).filter keep := by
  rw [IcebergReadFile.rowsLeft, IcebergReadFile.rowsLeft, filter_map, filter_filter]
  congr 1
  apply filter_congr
  intro p _
  rw [takes, Function.comp_apply, Bool.not_or, Bool.not_not, Bool.and_comm]

theorem rowsLeft_append (takes : ∀ p, f.removed new p = !keep (f.rowAt p)) :
    f.rowsLeft (old ++ new) = (f.rowsLeft old).filter keep := by
  apply rowsLeft_filter
  intro p
  rw [← takes, Bool.eq_iff_iff, Bool.or_eq_true, removed_iff, removed_iff, removed_iff]
  simp only [mem_append, or_and_right, exists_or]

theorem scanFiles_append (as bs : List ManifestFile) :
    scanFiles (as ++ bs) = scanFiles as ++ scanFiles bs := by
  rw [scanFiles, filter_append, flatMap_append]
  rfl

theorem readDeletes_append (as bs : List ManifestFile) :
    readDeletes (as ++ bs) = readDeletes as ++ readDeletes bs := by
  rw [readDeletes, filter_append, flatMap_append]
  rfl

theorem mem_readEntries {next : Option Nat} (member : f ∈ readEntries [] specId next entries) :
    ∃ e ∈ entries, e.isAlive ∧ f.file = e.dataFile ∧ f.partitionSpecId = specId ∧
      f.dataSequenceNumber = e.sequenceNumber := by
  induction entries generalizing next with
  | nil => cases member
  | cons e rest ih =>
    rw [readEntries] at member
    split at member
    · rename_i alive
      rcases mem_cons.mp member with rfl | later
      · exact ⟨e,mem_cons_self,(Bool.and_eq_true_iff.mp alive).1,rfl,rfl,rfl⟩
      · obtain ⟨e',inside,rest⟩ := ih later
        exact ⟨e',mem_cons_of_mem _ inside,rest⟩
    · obtain ⟨e',inside,rest⟩ := ih member
      exact ⟨e',mem_cons_of_mem _ inside,rest⟩

theorem mem_scanFiles (member : f ∈ scanFiles manifests) :
    ∃ live ∈ liveFilesOf .data manifests, f.file = live.dataFile ∧
      f.partitionSpecId = live.partitionSpecId ∧ f.dataSequenceNumber = live.sequenceNumber := by
  obtain ⟨x,inside,entry⟩ := mem_flatMap.mp member
  obtain ⟨e,entryMem,alive,file,spec,seq⟩ := mem_readEntries entry
  refine ⟨⟨e.dataFile,x.partitionSpecId,e.snapshotId,e.sequenceNumber⟩,?_,file,spec,seq⟩
  exact mem_flatMap.mpr ⟨x,inside,mem_map.mpr ⟨e,mem_filter.mpr ⟨entryMem,alive⟩,rfl⟩⟩

theorem readEntries_added (snapshotId seq specId : Nat) (next : Option Nat)
    (data : ∀ f ∈ files, f.content = .data) :
    (readEntries [] specId next (files.map fun f => ⟨.added, snapshotId, seq, f⟩)).map
      IcebergReadFile.file = files := by
  induction files generalizing next with
  | nil => rfl
  | cons f files ih =>
    rw [map_cons, readEntries, if_pos (by simp [ManifestEntry.isAlive, data f]), map_cons,
      ih _ fun f member => data f (mem_cons_of_mem _ member)]

theorem scanFiles_added (content : ∀ w ∈ written, w.file.content = .data) (first : Option Nat) :
    (scanFiles [{ writeAddedDataManifest t path specId seq written with firstRowId := first }]).map
      IcebergReadFile.file = written.map WrittenFile.file := by
  have files : ∀ f ∈ written.map WrittenFile.file, f.content = .data := by
    intro f member
    obtain ⟨w,inside,rfl⟩ := mem_map.mp member
    exact content w inside
  have rows := readEntries_added t.snapshotId seq specId first files
  simpa [scanFiles, writeAddedDataManifest, writeAddedManifest] using rows

theorem reading_deleted (gone : ∀ x ∈ manifests, ∀ e ∈ x.entries, e.status = .deleted) :
    scanFiles manifests = [] ∧ readDeletes manifests = [] := by
  have dead : ∀ x ∈ manifests, ∀ e ∈ x.entries, e.isAlive = false := by
    intro x member e entry
    simp [ManifestEntry.isAlive, gone x member e entry]
  constructor
  · rw [scanFiles, flatMap_eq_nil_iff]
    intro x inside
    rw [eq_nil_iff_forall_not_mem]
    intro f member
    obtain ⟨e,entry,alive,_⟩ := mem_readEntries member
    rw [dead x (mem_filter.mp inside).1 e entry] at alive
    cases alive
  · rw [readDeletes, flatMap_eq_nil_iff]
    intro x inside
    have none' : x.live = [] := by
      rw [ManifestFile.live, filter_eq_nil_iff]
      intro e entry
      simp [dead x (mem_filter.mp inside).1 e entry]
    rw [none']
    rfl

theorem mem_readDeletes_iff :
    d ∈ readDeletes manifests ↔ ∃ live ∈ liveFilesOf .deletes manifests,
      live.dataFile.content ≠ .data ∧
        d = ⟨live.dataFile.asDelete, live.sequenceNumber, live.partitionSpecId⟩ := by
  constructor
  · intro member
    obtain ⟨x,inside,entry⟩ := mem_flatMap.mp member
    obtain ⟨e,kept,rfl⟩ := mem_map.mp entry
    obtain ⟨alive,content⟩ := mem_filter.mp kept
    exact ⟨_,mem_flatMap.mpr ⟨x,inside,mem_map_of_mem alive⟩,by simpa using content,rfl⟩
  · rintro ⟨live,member,content,rfl⟩
    obtain ⟨x,inside,entry⟩ := mem_flatMap.mp member
    obtain ⟨e,alive,rfl⟩ := mem_map.mp entry
    exact mem_flatMap.mpr ⟨x,inside,mem_map.mpr ⟨e,mem_filter.mpr
      ⟨alive,by simpa using content⟩,rfl⟩⟩

theorem liveFilesOf_append (content : ManifestContentType) (as bs : List ManifestFile) :
    liveFilesOf content (as ++ bs) = liveFilesOf content as ++ liveFilesOf content bs := by
  rw [liveFilesOf, filter_append, flatMap_append]
  rfl

theorem mem_grouped_iff {spec : β → Nat} {items : List β}
    (write : Nat → Nat × List β → ManifestFile) (live : Nat → β → LiveFile)
    (deletes : ∀ idx g, (write idx g).content = .deletes)
    (files : ∀ idx g, (write idx g).liveFiles = g.2.map (live g.1)) {f : LiveFile} :
    f ∈ liveFilesOf .deletes ((groupOn spec items).zipIdx.map fun (g, idx) => write idx g) ↔
      ∃ x ∈ items, f = live (spec x) x := by
  constructor
  · intro member
    obtain ⟨x,inside,found⟩ := mem_flatMap.mp member
    obtain ⟨g,group,rfl⟩ := mem_map.mp (mem_filter.mp inside).1
    rw [files] at found
    obtain ⟨x,own,rfl⟩ := mem_map.mp found
    obtain ⟨known,same⟩ := mem_groupOn (fst_mem_of_mem_zipIdx group) own
    exact ⟨x,known,by rw [same]⟩
  · rintro ⟨x,member,rfl⟩
    obtain ⟨g,group,same,own⟩ := exists_groupOn spec member
    have listed : g ∈ ((groupOn spec items).zipIdx).map Prod.fst := by
      rwa [zipIdx_map_fst]
    obtain ⟨⟨g,idx⟩,indexed,rfl⟩ := mem_map.mp listed
    refine mem_flatMap.mpr
      ⟨write idx g,mem_filter.mpr ⟨mem_map_of_mem indexed,by simp [deletes]⟩,?_⟩
    rw [files, ← same]
    exact mem_map_of_mem own

theorem mem_addedDeletes_iff {f : LiveFile} (path : Nat → String) :
    f ∈ liveFilesOf .deletes ((groupOn WrittenFile.partitionSpecId written).zipIdx.map
        fun (group, idx) => writeAddedManifest t (path idx) .deletes group.1 seq
          (group.2.map WrittenFile.file)) ↔
      ∃ w ∈ written, f = ⟨w.file, w.partitionSpecId, t.snapshotId, seq⟩ :=
  mem_grouped_iff (fun idx g => writeAddedManifest t (path idx) .deletes g.1 seq
      (g.2.map WrittenFile.file)) (fun spec w => ⟨w.file,spec,t.snapshotId,seq⟩) (fun _ _ => rfl)
    fun _ _ => by
      simp [writeAddedManifest, ManifestFile.liveFiles, ManifestFile.live, filter_map,
        ManifestEntry.isAlive, Function.comp_def]

/-! The list writer only numbers data manifests. -/

theorem filter_unnumber (content : ManifestContentType) (manifests : List ManifestFile) :
    ((manifests.map ManifestFile.unnumber).filter fun x => x.content = content) =
      (manifests.filter fun x => x.content = content).map ManifestFile.unnumber := by
  rw [filter_map]
  rfl

theorem readDeletes_unnumber (manifests : List ManifestFile) :
    readDeletes (manifests.map ManifestFile.unnumber) = readDeletes manifests := by
  rw [readDeletes, filter_unnumber, flatMap_map]
  rfl

theorem liveFilesOf_unnumber (content : ManifestContentType) (manifests : List ManifestFile) :
    liveFilesOf content (manifests.map ManifestFile.unnumber) = liveFilesOf content manifests := by
  rw [liveFilesOf, filter_unnumber, flatMap_map]
  rfl

theorem addManifests_filter {next last : Option Nat}
    (numbered : ∀ x ∈ manifests, x.content = .data → x.firstRowId.isSome)
    (done : addManifests next manifests = .ok (last, listed)) :
    (listed.filter fun x => x.content = .data) = manifests.filter fun x => x.content = .data := by
  induction manifests generalizing next listed with
  | nil =>
    cases done
    rfl
  | cons x rest ih =>
    rw [forall_mem_cons] at numbered
    rw [addManifests] at done
    split at done
    · cases done
    rename_i mid x' assigned
    split at done
    · cases done
    rename_i later
    cases done
    have data := ih numbered.2 later
    unfold assignFirstRowId at assigned
    cases content : x.content with
    | data =>
      obtain ⟨first,own⟩ := Option.isSome_iff_exists.mp (numbered.1 content)
      rw [content, own] at assigned
      cases next with
      | none => cases assigned
      | some n =>
        cases assigned
        simp [content, data]
    | deletes =>
      rw [content] at assigned
      cases assigned
      simp [content, data]

theorem addManifests_reading {next last : Option Nat}
    (numbered : ∀ x ∈ manifests, x.content = .data → x.firstRowId.isSome)
    (done : addManifests next manifests = .ok (last, listed)) :
    (listed.filter fun x => x.content = .data) = (manifests.filter fun x => x.content = .data) ∧
      readDeletes listed = readDeletes manifests ∧
      liveFilesOf .deletes listed = liveFilesOf .deletes manifests := by
  have same := addManifests_unnumber done
  refine ⟨addManifests_filter numbered done,?_,?_⟩
  · rw [← readDeletes_unnumber listed, same, readDeletes_unnumber]
  · rw [← liveFilesOf_unnumber _ listed, same, liveFilesOf_unnumber]

/-! Apart from row ids, reading does not see the numbers. -/

def IcebergReadFile.unnumber (f : IcebergReadFile) : IcebergReadFile :=
  { f with firstRowId := none }

open IcebergReadFile (unnumber)

def LiveRow.content (r : LiveRow) : LiveRow :=
  { r with rowId := none }

def liveContent (manifests : List ManifestFile) : List LiveRow :=
  (liveRows manifests).map LiveRow.content

theorem readEntries_unnumber (specId : Nat) (next next' : Option Nat) (entries : List ManifestEntry) :
    (readEntries [] specId next entries).map unnumber =
      (readEntries [] specId next' entries).map unnumber := by
  induction entries generalizing next next' with
  | nil => rfl
  | cons e rest ih =>
    rw [readEntries, readEntries]
    split
    · rw [map_cons, map_cons, ih]
      rfl
    · exact ih next next'

section
variable (manifests : List ManifestFile)

theorem scanFiles_unnumber :
    (scanFiles (manifests.map ManifestFile.unnumber)).map unnumber =
      (scanFiles manifests).map unnumber := by
  rw [scanFiles, filter_unnumber, flatMap_map, map_flatMap, scanFiles, map_flatMap]
  apply flatMap_congr
  intro x _
  exact readEntries_unnumber _ _ _ _

theorem rowsLeft_unnumber (deletes : List IcebergReadDeleteFile) (f : IcebergReadFile) :
    (f.rowsLeft deletes).map LiveRow.content = (f.unnumber.rowsLeft deletes).map LiveRow.content := by
  rw [IcebergReadFile.rowsLeft, IcebergReadFile.rowsLeft, map_map, map_map]
  rfl

theorem liveContent_eq :
    liveContent manifests = ((scanFiles manifests).map unnumber).flatMap
      fun f => (f.rowsLeft (readDeletes manifests)).map LiveRow.content := by
  rw [liveContent, liveRows_eq_rowsLeft, map_flatMap, flatMap_map]
  apply flatMap_congr
  intro f _
  exact rowsLeft_unnumber _ f

theorem liveContent_unnumber : liveContent (manifests.map ManifestFile.unnumber) = liveContent manifests := by
  rw [liveContent_eq, liveContent_eq, scanFiles_unnumber, readDeletes_unnumber]

end

theorem liveContent_listed (done : writeManifestList version first manifests = .ok (last, listed)) :
    liveContent listed = liveContent manifests := by
  rw [← liveContent_unnumber listed, writeManifestList_unnumber done, liveContent_unnumber]

end NovaRocks.Iceberg
