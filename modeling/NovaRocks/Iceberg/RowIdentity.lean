import NovaRocks.Iceberg.RowDeltaDv
import NovaRocks.Iceberg.Reading
import Mathlib.Data.List.Pairwise

/-!
Row identity under merge-on-read statements. A statement matches live rows of
the snapshot it starts from, removes them by position and, for an UPDATE, writes
one new version under each row id. The commit runs on whatever snapshot is the
head by then and does not compare it with the one the statement started from.
-/
namespace NovaRocks.Iceberg
open List
open LiveRow (rowId)
open DataFile (ofRows)

structure DvStatement where
  matched : List LiveRow
  written : List WrittenFile
  rowLineageFirstRowId : Nat
  targetRef : String

def DvStatement.action (q : DvStatement) : RowDeltaDv :=
  ⟨groupsOf q.matched, q.written, q.rowLineageFirstRowId, q.targetRef⟩

def storedIds (written : List WrittenFile) : List Nat :=
  written.flatMap fun w => w.file.rows.filterMap StoredRow.rowId

def rowIds (manifests : List ManifestFile) : List Nat :=
  (liveRows manifests).filterMap rowId

/-- The statement started on `base`: it matched live rows, each once, and its new
rows carry row ids of matched rows, each at most once. -/
structure DvStatement.Started (q : DvStatement) (base : TableMetadata) : Prop where
  matched : ∃ manifests, targetManifests base q.targetRef = .ok manifests ∧
    ∀ r ∈ q.matched, r ∈ liveRows manifests
  once : q.matched.Nodup
  content : ∀ w ∈ q.written, w.file.content = .data
  stored : ∀ w ∈ q.written, ∀ r ∈ w.file.rows, r.rowId.isSome
  ids : (storedIds q.written).Subperm (q.matched.filterMap rowId)

def DvStatement.NewNames (q : DvStatement) (manifests : List ManifestFile) : Prop :=
  (q.written.map fun w => w.file.path).Nodup ∧
    ∀ w ∈ q.written, ∀ f ∈ liveFilesOf .data manifests, f.dataFile.path ≠ w.file.path

def DvStatement.StillLive (q : DvStatement) (manifests : List ManifestFile) : Prop :=
  ∀ r ∈ q.matched, r ∈ liveRows manifests

/-- Data files are listed once and nothing is newer than the snapshot. -/
structure ListedOnce (seq : Nat) (manifests : List ManifestFile) : Prop where
  names : ((liveFilesOf .data manifests).map fun f => f.dataFile.path).Nodup
  data : ∀ f ∈ liveFilesOf .data manifests, f.sequenceNumber ≤ seq
  deletes : ∀ f ∈ liveFilesOf .deletes manifests, f.sequenceNumber ≤ seq

/-- The data manifests are numbered too. -/
structure SoundList (seq : Nat) (manifests : List ManifestFile) : Prop
    extends ListedOnce seq manifests where
  numbered : ∀ x ∈ manifests, x.content = .data → x.firstRowId.isSome

/-! Vectors. -/

theorem mem_mergeVector (path : String) (positions : List Nat) (out : Vectors) :
    (∃ ps, (path, ps) ∈ mergeVector path positions out ∧ positions ⊆ ps) ∧
      ∀ v ∈ out, ∃ ps, (v.1, ps) ∈ mergeVector path positions out ∧ v.2 ⊆ ps := by
  induction out with
  | nil => exact ⟨⟨positions,mem_singleton.mpr rfl,Subset.refl _⟩,by simp⟩
  | cons head rest ih =>
    obtain ⟨p,ps⟩ := head
    rw [mergeVector]
    split
    · rename_i same
      subst same
      refine ⟨⟨ps ++ positions,mem_cons_self,subset_append_right _ _⟩,forall_mem_cons.mpr ⟨?_,?_⟩⟩
      · exact ⟨ps ++ positions,mem_cons_self,subset_append_left _ _⟩
      · exact fun v later => ⟨v.2,mem_cons_of_mem _ later,Subset.refl _⟩
    · obtain ⟨⟨own,inside,all⟩,old⟩ := ih
      refine ⟨⟨own,mem_cons_of_mem _ inside,all⟩,forall_mem_cons.mpr ⟨?_,fun v later => ?_⟩⟩
      · exact ⟨ps,mem_cons_self,Subset.refl _⟩
      · obtain ⟨ps',kept,more⟩ := old v later
        exact ⟨ps',mem_cons_of_mem _ kept,more⟩

theorem groupsToVectors_covers (done : groupsToVectors out groups = .ok vectors) :
    (∀ g ∈ groups, ∀ pos : Nat, (pos : Int) ∈ g.positions →
      ∃ v ∈ vectors, v.1 = g.referencedDataFile ∧ pos ∈ v.2) ∧
      ∀ v ∈ out, ∃ ps, (v.1, ps) ∈ vectors ∧ v.2 ⊆ ps := by
  induction groups generalizing out with
  | nil =>
    cases done
    exact ⟨by simp,fun v member => ⟨v.2,member,Subset.refl _⟩⟩
  | cons g rest ih =>
    rw [groupsToVectors] at done
    split at done
    · rename_i empty
      obtain ⟨later,old⟩ := ih done
      refine ⟨forall_mem_cons.mpr ⟨fun pos inside => ?_,later⟩,old⟩
      rw [isEmpty_iff.mp empty] at inside
      cases inside
    split at done
    · cases done
    obtain ⟨later,kept⟩ := ih done
    obtain ⟨⟨own,merged,all⟩,old⟩ :=
      mem_mergeVector g.referencedDataFile (g.positions.map Int.toNat) out
    constructor
    · refine forall_mem_cons.mpr ⟨fun pos inside => ?_,later⟩
      obtain ⟨ps,final,more⟩ := kept _ merged
      refine ⟨_,final,rfl,more (all ?_)⟩
      exact mem_map.mpr ⟨_,inside,Int.toNat_natCast pos⟩
    · intro v member
      obtain ⟨ps,mid,more⟩ := old v member
      obtain ⟨ps',final,evenMore⟩ := kept _ mid
      exact ⟨ps',final,Subset.trans more evenMore⟩

theorem vectors_cover_matched (done : groupsToVectors [] (groupsOf matched) = .ok vectors) :
    ∀ r ∈ matched, ∃ v ∈ vectors, v.1 = r.path ∧ r.pos ∈ v.2 := by
  intro r member
  have group : ⟨r.path,(matched.filter fun r' => r'.path = r.path).map fun r' => (r'.pos : Int)⟩ ∈
      groupsOf matched := mem_map.mpr
    ⟨r.path,mem_dedup.mpr (mem_map_of_mem member),rfl⟩
  apply (groupsToVectors_covers done).1 _ group
  exact mem_map.mpr ⟨r,mem_filter.mpr ⟨member,by simp⟩,rfl⟩

/-! The delete files of the new snapshot. -/

theorem mem_existingDeletes_iff :
    f ∈ liveFilesOf .deletes (existingDeleteManifests t m files) ↔ f ∈ files := by
  refine (mem_grouped_iff (fun idx g => writeExistingManifest t
      (metadataDir m ++ "/" ++ t.commitUuid ++ "-row-delta-dv-existing-" ++ toString idx ++ ".avro")
      .deletes g.1 g.2) (fun spec f => ⟨f.dataFile,spec,f.snapshotId,f.sequenceNumber⟩)
    (fun _ _ => rfl) (fun _ _ => by
      simp [writeExistingManifest, ManifestFile.liveFiles, ManifestFile.live, filter_map,
        ManifestEntry.isAlive, Function.comp_def])).trans ?_
  simp

theorem mem_addedDvs_iff :
    f ∈ liveFilesOf .deletes (addedDvManifests t m dvs) ↔
      ∃ w ∈ dvs, f = ⟨w.file, w.partitionSpecId, t.snapshotId, newSequenceNumber m⟩ := by
  exact mem_addedDeletes_iff fun idx =>
    metadataDir m ++ "/" ++ t.commitUuid ++ "-row-delta-dv-added-" ++ toString idx ++ ".avro"

section
variable {a : RowDeltaDv}

theorem mem_liveFilesOf_untouched :
    f ∈ liveFilesOf .deletes (manifests.filter fun x => !touchedManifest touched x) ∨
        f ∈ (manifests.filter (touchedManifest touched)).flatMap (fun x =>
          x.liveFiles.filter fun f => !refersTo touched f.dataFile) ↔
      f ∈ liveFilesOf .deletes manifests ∧ !refersTo touched f.dataFile := by
  have untouched : ∀ x : ManifestFile, x.content = .deletes → !touchedManifest touched x →
      ∀ f ∈ x.liveFiles, !refersTo touched f.dataFile := by
    intro x content clear f live
    obtain ⟨e,alive,rfl⟩ := mem_map.mp live
    simp only [touchedManifest, content, decide_true, Bool.true_and, Bool.not_eq_true',
      any_eq_false] at clear
    simpa using clear e alive
  constructor
  · rintro (member | member)
    · obtain ⟨x,inside,live⟩ := mem_flatMap.mp member
      obtain ⟨kept,content⟩ := mem_filter.mp inside
      obtain ⟨known,clear⟩ := mem_filter.mp kept
      have isDeletes : x.content = .deletes := by simpa using content
      exact ⟨mem_flatMap.mpr ⟨x,mem_filter.mpr ⟨known,content⟩,live⟩,untouched x isDeletes clear f live⟩
    · obtain ⟨x,inside,live⟩ := mem_flatMap.mp member
      obtain ⟨known,touches⟩ := mem_filter.mp inside
      obtain ⟨own,clear⟩ := mem_filter.mp live
      have content := (Bool.and_eq_true_iff.mp touches).1
      exact ⟨mem_flatMap.mpr ⟨x,mem_filter.mpr ⟨known,content⟩,own⟩,clear⟩
  · rintro ⟨member,clear⟩
    obtain ⟨x,inside,live⟩ := mem_flatMap.mp member
    obtain ⟨known,content⟩ := mem_filter.mp inside
    by_cases touches : touchedManifest touched x
    · exact .inr (mem_flatMap.mpr ⟨x,mem_filter.mpr ⟨known,touches⟩,mem_filter.mpr ⟨live,clear⟩⟩)
    · exact .inl (mem_flatMap.mpr ⟨x,mem_filter.mpr ⟨mem_filter.mpr
        ⟨known,by simpa using touches⟩,content⟩,live⟩)

theorem replacement_data : ∀ x ∈ a.replacementManifests t m, x.content = .data ∧ x.firstRowId.isSome := by
  rw [RowDeltaDv.replacementManifests]
  split
  · simp
  · exact forall_mem_singleton.mpr ⟨rfl,rfl⟩

theorem mem_newDeletes_iff :
    f ∈ liveFilesOf .deletes (a.manifests t m (indexOf manifests vectors)) ↔
      (f ∈ liveFilesOf .deletes manifests ∧ !refersTo (vectors.map Prod.fst) f.dataFile) ∨
        ∃ w ∈ writeVectors m t (indexOf manifests vectors),
          f = ⟨w.file, w.partitionSpecId, t.snapshotId, newSequenceNumber m⟩ := by
  have replacement : f ∉ liveFilesOf .deletes (a.replacementManifests t m) := by
    intro member
    obtain ⟨x,inside,_⟩ := mem_flatMap.mp member
    obtain ⟨known,content⟩ := mem_filter.mp inside
    simp [(replacement_data x known).1] at content
  rw [RowDeltaDv.manifests, liveFilesOf_append, liveFilesOf_append, liveFilesOf_append,
    mem_append, mem_append, mem_append, mem_existingDeletes_iff, mem_addedDvs_iff,
    ← mem_liveFilesOf_untouched]
  simp only [indexOf, replacement, or_false]

theorem replacement_filter : ((a.replacementManifests t m).filter fun x => x.content = .data) =
    a.replacementManifests t m :=
  filter_eq_self.mpr fun x member => decide_eq_true (replacement_data x member).1

theorem newData_filter :
    ((a.manifests t m (indexOf manifests vectors)).filter fun x => x.content = .data) =
      (manifests.filter fun x => x.content = .data) ++ a.replacementManifests t m := by
  have untouched : ((indexOf manifests vectors).untouchedManifests.filter fun x =>
      x.content = .data) = manifests.filter fun x => x.content = .data := by
    rw [indexOf, filter_filter]
    apply filter_congr
    intro x _
    cases content : x.content with
    | data => simp [touchedManifest, content]
    | deletes => simp
  have existing : ((existingDeleteManifests t m
      (indexOf manifests vectors).touchedDeleteExisting).filter fun x => x.content = .data) = [] :=
    filter_eq_nil_iff.mpr (forall_mem_map.mpr fun _ _ => by simp [writeExistingManifest])
  have added : ((addedDvManifests t m (writeVectors m t (indexOf manifests vectors))).filter fun x =>
      x.content = .data) = [] :=
    filter_eq_nil_iff.mpr (forall_mem_map.mpr fun _ _ => by simp [writeAddedManifest])
  rw [RowDeltaDv.manifests, filter_append, filter_append, filter_append, untouched,
    existing, added, replacement_filter, append_nil, append_nil]

theorem replacement_liveFiles : liveFilesOf .data (a.replacementManifests t m) =
    a.written.map fun w => ⟨w.file, m.defaultSpecId, t.snapshotId, newSequenceNumber m⟩ := by
  rw [RowDeltaDv.replacementManifests]
  split
  · rename_i empty
    rw [isEmpty_iff.mp empty]
    rfl
  · simp [liveFilesOf, ManifestFile.liveFiles, ManifestFile.live, writeAddedDataManifest,
      writeAddedManifest, filter_map, Function.comp_def, ManifestEntry.isAlive]

theorem dataFileAt_some (found : dataFileAt files path = some f) : f ∈ files ∧ f.dataFile.path = path :=
  ⟨mem_reverse.mp (mem_of_find?_eq_some found),by simpa using find?_some found⟩

variable {f : IcebergReadFile}

theorem newVector_removes (sound : ListedOnce seq manifests) (later : seq < newSequenceNumber m)
    (present : ∀ v ∈ vectors, ∃ f, dataFileAt (liveFilesOf .data manifests) v.1 = some f)
    (scanned : f ∈ scanFiles manifests) (vector : v ∈ vectors) (own : v.1 = f.file.path)
    (holds : p.2 ∈ v.2 ++ oldPositions manifests v.1) :
    f.removed (readDeletes (a.manifests t m (indexOf manifests vectors))) p := by
  obtain ⟨g,found⟩ := present v vector
  obtain ⟨gLive,gPath⟩ := dataFileAt_some found
  obtain ⟨live,fLive,file,spec,fSeq⟩ := mem_scanFiles scanned
  have same : g = live := by
    apply inj_on_of_nodup_map sound.names gLive fLive
    rw [gPath, own, file]
  subst same
  have indexed : (v.1, v.2 ++ oldPositions manifests v.1) ∈
      (indexOf manifests vectors).vectors.zipIdx.map Prod.fst := by
    rw [zipIdx_map_fst]
    exact mem_map_of_mem (f := fun v => (v.1, v.2 ++ oldPositions manifests v.1)) vector
  obtain ⟨⟨v',idx⟩,place,rfl⟩ := mem_map.mp indexed
  have written : ⟨dvDataFile (dvPath m t idx) (v.1, v.2 ++ oldPositions manifests v.1) g,
      g.partitionSpecId⟩ ∈ writeVectors m t (indexOf manifests vectors) :=
    mem_filterMap.mpr ⟨_,place,by rw [Option.map_eq_some_iff]; exact ⟨g,found,rfl⟩⟩
  have read := mem_readDeletes_iff.mpr ⟨_,mem_newDeletes_iff (a := a).mpr (.inr ⟨_,written,rfl⟩),
    by simp [dvDataFile],rfl⟩
  rw [DataFile.asDelete_of_position (by simp [dvDataFile])] at read
  refine removed_iff.mpr ⟨_,read,?_,?_⟩
  · have older : f.dataSequenceNumber < newSequenceNumber m := by
      have := sound.data g fLive
      omega
    cases key : partitionKey g.dataFile.partition with
    | none => simp [deleteAppliesToDataFile, dvDataFile, older, own, key]
    | some k => simp [deleteAppliesToDataFile, dvDataFile, older, own, key, spec, file]
  · rw [IcebergReadDeleteFile.removes]
    simp only [dvDataFile, contains_eq_mem, decide_eq_true_eq]
    exact mem_map.mpr ⟨p.2,mem_dedup.mpr holds,by rw [own]⟩

theorem validateAll_ok (valid : validateAll files = .ok ()) :
    ∀ f ∈ files, f.content ≠ .equalityDeletes ∧ f.referencedDataFile.isSome := by
  induction files with
  | nil => simp
  | cons f rest ih =>
    rw [validateAll] at valid
    split at valid
    · cases valid
    rename_i own
    refine forall_mem_cons.mpr ⟨?_,ih valid⟩
    unfold validateDeleteFileForRowLineage at own
    split at own
    · cases own
    split at own
    · cases own
    split at own
    · cases own
    rename_i content _ refers
    exact ⟨content,by simpa [Option.isSome_iff_ne_none] using refers⟩

theorem newDeletes_keep (sound : ListedOnce seq manifests) (later : seq < newSequenceNumber m)
    (valid : validateAll ((liveFilesOf .deletes manifests).map LiveFile.dataFile) = .ok ())
    (present : ∀ v ∈ vectors, ∃ f, dataFileAt (liveFilesOf .data manifests) v.1 = some f)
    (scanned : f ∈ scanFiles manifests) (gone : f.removed (readDeletes manifests) p) :
    f.removed (readDeletes (a.manifests t m (indexOf manifests vectors))) p := by
  obtain ⟨d,read,applies,removes⟩ := removed_iff.mp gone
  obtain ⟨live,member,content,rfl⟩ := mem_readDeletes_iff.mp read
  obtain ⟨notEquality,refers⟩ := validateAll_ok valid _ (mem_map_of_mem member)
  rw [DataFile.asDelete_of_position notEquality] at applies removes
  obtain ⟨path,refers⟩ := Option.isSome_iff_exists.mp refers
  have own : path = f.file.path := by
    simp only [deleteAppliesToDataFile, refers, Option.all_some, Bool.and_eq_true,
      decide_eq_true_eq] at applies
    exact applies.1.2
  subst own
  by_cases touched : f.file.path ∈ vectors.map Prod.fst
  · obtain ⟨v,vector,same⟩ := mem_map.mp touched
    apply newVector_removes sound later present scanned vector same
    apply mem_append_right
    have inside : (f.file.path, p.2) ∈ live.dataFile.positions := by
      rw [IcebergReadDeleteFile.removes] at removes
      split at removes
      · rename_i equality
        exact (notEquality equality).elim
      · simpa using removes
    refine mem_flatMap.mpr ⟨live,mem_filter.mpr ⟨member,?_⟩,mem_map_of_mem inside⟩
    simp [refers, same]
  · have clear : !refersTo (vectors.map Prod.fst) live.dataFile := by
      simp only [refersTo, refers, Option.any_some, Bool.not_eq_true', contains_eq_mem,
        decide_eq_false_iff_not]
      exact touched
    have kept := mem_readDeletes_iff.mpr
      ⟨live,mem_newDeletes_iff (a := a) (t := t) (m := m) |>.mpr (.inl ⟨member,clear⟩),content,rfl⟩
    rw [DataFile.asDelete_of_position notEquality] at kept
    exact removed_iff.mpr ⟨_,kept,applies,removes⟩

/-! The rows of the new snapshot. -/

theorem scanFiles_replacement (content : ∀ w ∈ a.written, w.file.content = .data) :
    (scanFiles (a.replacementManifests t m)).map IcebergReadFile.file = a.written.map WrittenFile.file ∧
      ∀ f ∈ scanFiles (a.replacementManifests t m), f.dataSequenceNumber = newSequenceNumber m := by
  constructor
  · rw [RowDeltaDv.replacementManifests]
    split
    · rename_i empty
      rw [isEmpty_iff.mp empty]
      rfl
    · exact scanFiles_added content _
  · intro f member
    obtain ⟨live,inside,_,_,seq⟩ := mem_scanFiles member
    rw [replacement_liveFiles] at inside
    obtain ⟨w,_,rfl⟩ := mem_map.mp inside
    exact seq

/-- No delete file is newer than the replacement rows. -/
theorem replacement_whole (sound : ListedOnce seq manifests) (later : seq < newSequenceNumber m)
    (content : ∀ w ∈ a.written, w.file.content = .data)
    (replaces : f ∈ scanFiles (a.replacementManifests t m)) (p : StoredRow × Nat) :
    f.removed (readDeletes (a.manifests t m (indexOf manifests vectors))) p = false := by
  by_contra gone
  obtain ⟨d,read,applies,_⟩ := removed_iff.mp (by simpa using gone)
  obtain ⟨live,inside,_,rfl⟩ := mem_readDeletes_iff.mp read
  have young : newSequenceNumber m < live.sequenceNumber := by
    simp only [deleteAppliesToDataFile, Bool.and_eq_true, decide_eq_true_eq] at applies
    rw [← (scanFiles_replacement content).2 f replaces]
    exact applies.1.1
  rcases mem_newDeletes_iff.mp inside with ⟨old,_⟩ | ⟨w,_,rfl⟩
  · have := sound.deletes live old
    omega
  · exact Nat.lt_irrefl _ young

theorem rowsLeft_stored
    (whole : ∀ p, f.removed deletes p = false) (stored : ∀ r ∈ f.file.rows, r.rowId.isSome) :
    (f.rowsLeft deletes).filterMap rowId = f.file.rows.filterMap StoredRow.rowId := by
  have all : (f.file.rows.zipIdx.filter fun p => !f.removed deletes p) = f.file.rows.zipIdx := by
    rw [filter_eq_self]
    intro p _
    simp [whole p]
  have own : ∀ p ∈ f.file.rows.zipIdx,
      (rowId ∘ f.rowAt) p = (StoredRow.rowId ∘ Prod.fst) p := by
    intro p member
    obtain ⟨id,here⟩ := Option.isSome_iff_exists.mp (stored p.1 (fst_mem_of_mem_zipIdx member))
    simp [IcebergReadFile.rowAt, here]
  rw [IcebergReadFile.rowsLeft, all, filterMap_map, filterMap_congr own, ← filterMap_map, zipIdx_map_fst]

end

section
variable {q : DvStatement} {manifests listed : List ManifestFile}

structure DvWrote (q : DvStatement) (t : Stamp) (m : TableMetadata) (manifests : List ManifestFile)
    (vectors : Vectors) (listed : List ManifestFile) : Prop where
  grouped : groupsToVectors [] (groupsOf q.matched) = .ok vectors
  valid : validateAll ((liveFilesOf .deletes manifests).map LiveFile.dataFile) = .ok ()
  present : ∀ v ∈ vectors, ∃ f, dataFileAt (liveFilesOf .data manifests) v.1 = some f
  listed : addManifests (some q.rowLineageFirstRowId)
    (q.action.manifests t m (indexOf manifests vectors)) = .ok (some q.rowLineageFirstRowId, listed)

theorem DvWrote.numbered (sound : SoundList seq manifests) :
    ∀ x ∈ q.action.manifests t m (indexOf manifests vectors), x.content = .data → x.firstRowId.isSome := by
  intro x member content
  have data : x ∈ (q.action.manifests t m (indexOf manifests vectors)).filter fun x =>
      x.content = .data := mem_filter.mpr ⟨member,by simpa using content⟩
  rw [newData_filter] at data
  rcases mem_append.mp data with old | new
  · exact sound.numbered x (mem_filter.mp old).1 content
  · exact (replacement_data x new).2

variable (wrote : DvWrote q t m manifests vectors listed)

include wrote in
theorem DvWrote.rows (sound : SoundList seq manifests) (later : seq < newSequenceNumber m)
    (content : ∀ w ∈ q.written, w.file.content = .data)
    (stored : ∀ w ∈ q.written, ∀ r ∈ w.file.rows, r.rowId.isSome) :
    ∃ kept added, liveRows listed = kept ++ added ∧
      kept.Sublist ((liveRows manifests).filter fun r => r ∉ q.matched) ∧
      added.filterMap rowId = storedIds q.written := by
  obtain ⟨data,deletes,files⟩ := addManifests_reading (DvWrote.numbered sound) wrote.listed
  have scanned : scanFiles listed = scanFiles manifests ++
      scanFiles (q.action.replacementManifests t m) := by
    rw [scanFiles, data, newData_filter, flatMap_append, scanFiles, scanFiles, replacement_filter]
  refine ⟨_,_,by rw [liveRows_eq_rowsLeft, scanned, flatMap_append],?_,?_⟩
  · rw [liveRows_eq_rowsLeft manifests, filter_flatMap]
    apply Sublist.flatMap_right
    intro f member
    apply rowsLeft_sublist
    intro p gone
    rw [deletes]
    rcases gone with old | matched
    · exact newDeletes_keep sound.toListedOnce later wrote.valid wrote.present member old
    · have inside : f.rowAt p ∈ q.matched := by simpa using matched
      obtain ⟨v,vector,path,pos⟩ := vectors_cover_matched wrote.grouped _ inside
      exact newVector_removes sound.toListedOnce later wrote.present member vector path
        (mem_append_left _ pos)
  · have named := (scanFiles_replacement (t := t) (m := m) (a := q.action) content).1
    have whole : ∀ f ∈ scanFiles (q.action.replacementManifests t m),
        ∀ p, f.removed (readDeletes listed) p = false := by
      rw [deletes]
      exact fun f member => replacement_whole sound.toListedOnce later content member
    have ids := fun f member => rowsLeft_stored (whole f member) fun r inside => by
      have file : f.file ∈ q.action.written.map WrittenFile.file := named ▸ mem_map_of_mem member
      obtain ⟨w,written,same⟩ := mem_map.mp file
      exact stored w written r (same ▸ inside)
    rw [filterMap_flatMap, flatMap_congr ids,
      ← flatMap_map IcebergReadFile.file fun f => f.rows.filterMap StoredRow.rowId, named, storedIds, flatMap_map]
    rfl

/-! Row ids. -/

theorem eq_of_rowId {rows : List LiveRow} (distinct : (rows.filterMap rowId).Nodup)
    (member : r ∈ rows) (member' : r' ∈ rows) {id : Nat}
    (own : r.rowId = some id) (own' : r'.rowId = some id) : r = r' := by
  rw [Nodup, pairwise_filterMap] at distinct
  have symm : Std.Symm fun a b : LiveRow =>
      ∀ c, a.rowId = some c → ∀ d, b.rowId = some d → c ≠ d :=
    ⟨fun a b apart c ofB d ofA => (apart d ofA c ofB).symm⟩
  by_contra other
  exact distinct.forall member member' other id own id own' rfl

theorem nodup_ids_of_subset {some' all : List LiveRow} (once : some'.Nodup) (sub : some' ⊆ all)
    (distinct : (all.filterMap rowId).Nodup) : (some'.filterMap rowId).Nodup := by
  obtain ⟨ordered,perm,inside⟩ := subperm_of_subset once sub
  exact (perm.filterMap rowId).nodup_iff.mp (distinct.sublist (inside.filterMap _))

include wrote in
theorem DvWrote.rowIds_nodup (sound : SoundList seq manifests) (later : seq < newSequenceNumber m)
    (started : q.Started base) (live : q.StillLive manifests)
    (distinct : (rowIds manifests).Nodup) : (rowIds listed).Nodup := by
  obtain ⟨kept,added,rows,sub,ids⟩ := wrote.rows sound later started.content started.stored
  have matchedIds := nodup_ids_of_subset started.once live distinct
  have keptLive : kept.Sublist (liveRows manifests) := sub.trans filter_sublist
  have addedIds : (storedIds q.written).Nodup := by
    obtain ⟨ordered,perm,inside⟩ := started.ids
    exact perm.nodup_iff.mp (matchedIds.sublist inside)
  rw [rowIds, rows, filterMap_append, ids, nodup_append]
  refine ⟨distinct.sublist (keptLive.filterMap _),addedIds,?_⟩
  intro id old id' new same
  subst same
  obtain ⟨r,inKept,own⟩ := mem_filterMap.mp old
  obtain ⟨d,matched,own'⟩ := mem_filterMap.mp (started.ids.subset new)
  have one := eq_of_rowId distinct (keptLive.subset inKept) (live d matched) own own'
  have apart := (mem_filter.mp (sub.subset inKept)).2
  simp [one, matched] at apart

include wrote in
theorem DvWrote.sound (sound : SoundList seq manifests) (later : seq < newSequenceNumber m)
    (names : q.NewNames manifests) : SoundList (newSequenceNumber m) listed := by
  obtain ⟨data,_,deletes⟩ := addManifests_reading (DvWrote.numbered sound) wrote.listed
  have files : liveFilesOf .data listed = liveFilesOf .data manifests ++
      q.written.map fun w => ⟨w.file,m.defaultSpecId,t.snapshotId,newSequenceNumber m⟩ := by
    have new := replacement_liveFiles (a := q.action) (t := t) (m := m)
    rw [liveFilesOf, replacement_filter] at new
    rw [liveFilesOf, data, newData_filter, flatMap_append, new]
    rfl
  refine ⟨⟨?_,?_,?_⟩,?_⟩
  · rw [files, map_append, map_map, nodup_append]
    refine ⟨sound.names,names.1,?_⟩
    intro path old path' new same
    obtain ⟨f,inside,rfl⟩ := mem_map.mp old
    obtain ⟨w,written,rfl⟩ := mem_map.mp new
    exact names.2 w written f inside same
  · intro f member
    rw [files] at member
    rcases mem_append.mp member with old | new
    · have := sound.data f old
      omega
    · obtain ⟨w,_,rfl⟩ := mem_map.mp new
      exact Nat.le_refl _
  · intro f member
    rw [deletes] at member
    rcases mem_newDeletes_iff.mp member with ⟨old,_⟩ | ⟨w,_,rfl⟩
    · have := sound.deletes f old
      omega
    · exact Nat.le_refl _
  · intro x member content
    have inside : x ∈ listed.filter fun x => x.content = .data :=
      mem_filter.mpr ⟨member,by simpa using content⟩
    rw [data] at inside
    exact DvWrote.numbered sound x (mem_filter.mp inside).1 content

end

/-! Runs. -/

structure SoundTable (m : TableMetadata) : Prop where
  lists : ∀ s ∈ m.snapshots, SoundList s.sequenceNumber s.manifests
  ids : ∀ s ∈ m.snapshots, (rowIds s.manifests).Nodup
  newest : ∀ s ∈ m.snapshots, s.sequenceNumber ≤ m.lastSequenceNumber

/-- Tables the catalog has held, the latest first. Each statement starts on one of
them and each attempt runs on one that was current when it was loaded. -/
inductive DvRun : List TableMetadata → Prop
  | start {m : TableMetadata} (sound : SoundTable m) : DvRun [m]
  | commit {current base loaded after : TableMetadata} {past : List TableMetadata}
    {q : DvStatement} {t : Stamp} {manifests : List ManifestFile}
    (before : DvRun (current :: past)) (began : base ∈ current :: past) (started : q.Started base)
    (refreshed : loaded ∈ current :: past)
    (target : targetManifests loaded q.targetRef = .ok manifests) (names : q.NewNames manifests)
    (live : q.StillLive manifests)
    (done : attempt (q.action.commit t) loaded current = .ok after) :
    DvRun (after :: current :: past)

theorem addSnapshot_newer {m after : TableMetadata}
    (done : m.addSnapshot s = .ok after) (child : s.parentSnapshotId.isSome) :
    m.lastSequenceNumber < s.sequenceNumber := by
  unfold TableMetadata.addSnapshot at done
  split at done
  · cases done
  split at done
  · cases done
  · rename_i newer
    exact Nat.lt_of_not_le fun old => newer ⟨old,child⟩

theorem targetManifests_ok (target : targetManifests m ref = .ok manifests) :
    (∃ s ∈ m.snapshots, s.manifests = manifests) ∧ (parentOf m ref).isSome := by
  unfold targetManifests at target
  split at target
  · rename_i main
    split at target
    · cases target
    · rename_i s current
      cases target
      obtain ⟨id,_,found⟩ := Option.bind_eq_some_iff.mp current
      refine ⟨⟨s,mem_of_find?_eq_some found,rfl⟩,?_⟩
      rw [parentOf, if_pos main, current]
      cases m.refSnapshotId ref with
      | none | some => rfl
  · split at target
    · cases target
    rename_i id named
    split at target
    · cases target
    · rename_i s found
      cases target
      refine ⟨⟨s,mem_of_find?_eq_some found,rfl⟩,?_⟩
      rw [parentOf, named]
      rfl

theorem SoundTable.commit {current base loaded after : TableMetadata} {q : DvStatement}
    (now : SoundTable current) (seen : SoundTable loaded)
    (started : q.Started base) (target : targetManifests loaded q.targetRef = .ok manifests)
    (names : q.NewNames manifests) (live : q.StillLive manifests)
    (done : attempt (q.action.commit t) loaded current = .ok after) : SoundTable after := by
  obtain ⟨c,ran,applied⟩ := attempt_ok done
  obtain ⟨_,vectors,manifests',listed,_,_,_,grouped,target',valid,present,wrote,_,_,_,rfl⟩ :=
    RowDeltaDv.commit_ok ran
  have same : manifests' = manifests := by
    have both := target'.symm.trans target
    cases both
    rfl
  subst same
  obtain ⟨⟨s,member,rfl⟩,child⟩ := targetManifests_ok target
  have write : DvWrote q t loaded s.manifests vectors listed := ⟨grouped,valid,present,wrote⟩
  have older : s.sequenceNumber < newSequenceNumber loaded := by
    have := seen.newest s member
    rw [newSequenceNumber]
    omega
  obtain ⟨_,set⟩ := committed applied
  have newer : current.lastSequenceNumber < newSequenceNumber loaded := by
    have updates := (updateTable_ok applied).2
    simp only [commitSnapshot, TableMetadata.applyUpdates] at updates
    split at updates
    · cases updates
    · rename_i added
      exact addSnapshot_newer added child
  have sound := write.sound (seen.lists s member) older names
  have ids := write.rowIds_nodup (seen.lists s member) older started live (seen.ids s member)
  constructor <;> rw [set.snapshots, forall_mem_append]
  · exact ⟨now.lists,forall_mem_singleton.mpr sound⟩
  · exact ⟨now.ids,forall_mem_singleton.mpr ids⟩
  · rw [set.sequence]
    refine ⟨fun x old => ?_,forall_mem_singleton.mpr (Nat.le_refl _)⟩
    have := now.newest x old
    dsimp only
    omega

theorem DvRun.sound (run : DvRun tables) : ∀ m ∈ tables, SoundTable m := by
  induction run with
  | start sound => exact forall_mem_singleton.mpr sound
  | commit _ began started refreshed target names live done ih =>
    refine forall_mem_cons.mpr ⟨?_,ih⟩
    exact (ih _ mem_cons_self).commit (ih _ refreshed) started target names live done

/-- While every statement finds the rows it matched still live, no snapshot ever
shows two rows under one row id. -/
theorem one_row_per_id {tables : List TableMetadata} (run : DvRun tables) :
    ∀ m ∈ tables, ∀ s ∈ m.snapshots, (rowIds s.manifests).Nodup :=
  fun m member => (run.sound m member).ids

def accountsTable : TableMetadata :=
  let accounts := ofRows "accounts-1" [] [⟨[.int 100], none⟩, ⟨[.int 200], none⟩]
  ⟨.v3, "accounts", 0, 0, [0], 1, 2, some 1,
    [⟨1, none, 1, 0, "accounts/metadata/snap-1.avro",
      [⟨"accounts/metadata/m-1.avro", .data, 0, 1, some 0, [⟨.added, 1, 1, accounts⟩]⟩],
      .append, [], some (0, 2)⟩],
    [("main", 1)]⟩

def firstAccount : LiveRow :=
  ⟨"accounts-1", 0, [.int 100], some 0⟩

def updateFirst (path : String) (amount : Int) : DvStatement :=
  ⟨[firstAccount],
    [⟨{ ofRows path [] [⟨[.int amount], some 0⟩] with firstRowId := some 0 }, 0⟩], 2, "main"⟩

def accountsUpdated : TableMetadata :=
  (attempt ((updateFirst "update-1" 110).action.commit ⟨"a", 2, 0⟩) accountsTable
    accountsTable).toOption.getD accountsTable

theorem accountsTable_sound : SoundTable accountsTable := by
  refine ⟨?_,?_,?_⟩
  · exact forall_mem_singleton.mpr ⟨⟨by decide,by decide,by decide⟩,by decide⟩
  · decide
  · decide

theorem updateFirst_live (path : String) (amount : Int) :
    (updateFirst path amount).StillLive accountsTable.currentManifests := by
  have live : firstAccount ∈ liveRows accountsTable.currentManifests := by decide
  exact forall_mem_singleton.mpr live

theorem updateFirst_started (path : String) (amount : Int) :
    (updateFirst path amount).Started accountsTable := by
  refine ⟨⟨_,rfl,updateFirst_live path amount⟩,nodup_singleton _,?_,?_,?_⟩
  · simp [updateFirst, ofRows]
  · simp [updateFirst, ofRows]
  · simp [updateFirst, ofRows, storedIds, firstAccount]

def updateSecond : DvStatement :=
  ⟨[⟨"accounts-1", 1, [.int 200], some 1⟩],
    [⟨{ ofRows "update-2" [] [⟨[.int 210], some 1⟩] with firstRowId := some 1 }, 0⟩], 2, "main"⟩

theorem updateSecond_live : updateSecond.StillLive accountsUpdated.currentManifests := by
  unfold DvStatement.StillLive
  decide

theorem updateSecond_started : updateSecond.Started accountsUpdated := by
  refine ⟨⟨_,rfl,updateSecond_live⟩,nodup_singleton _,?_,?_,?_⟩
  · simp [updateSecond, ofRows]
  · simp [updateSecond, ofRows]
  · simp [updateSecond, ofRows, storedIds]

theorem one_row_per_id_accounts :
    ∃ after, attempt (updateSecond.action.commit ⟨"b", 3, 0⟩) accountsUpdated accountsUpdated = .ok after ∧
      (rowIds after.currentManifests) = [0, 1] ∧ ∀ s ∈ after.snapshots, (rowIds s.manifests).Nodup := by
  have start : DvRun [accountsTable] := .start accountsTable_sound
  have here : accountsTable ∈ [accountsTable] := mem_singleton.mpr rfl
  have first : DvRun [accountsUpdated,accountsTable] :=
    start.commit here (updateFirst_started "update-1" 110) here rfl ⟨by decide,by decide⟩
      (updateFirst_live "update-1" 110) (t := ⟨"a",2,0⟩) rfl
  have second := first.commit mem_cons_self updateSecond_started mem_cons_self rfl
    ⟨by decide,by decide⟩ updateSecond_live (t := ⟨"b",3,0⟩) rfl
  exact ⟨_,rfl,by decide,one_row_per_id second _ mem_cons_self⟩

/-- Two UPDATEs of the same row, both started on the first snapshot: both commit,
and the row id is live twice. -/
theorem both_updates_live :
    ∃ after, (updateFirst "update-2" 120).Started accountsTable ∧
      attempt ((updateFirst "update-2" 120).action.commit ⟨"b", 3, 0⟩) accountsUpdated
        accountsUpdated = .ok after ∧
      (liveRows after.currentManifests).map (fun r => (r.path, r.rowId)) =
        [("accounts-1", some 1), ("update-1", some 0), ("update-2", some 0)] := by
  refine ⟨_,updateFirst_started "update-2" 120,rfl,?_⟩
  decide

end NovaRocks.Iceberg
