import NovaRocks.Iceberg.Reading
import Mathlib.Data.List.Perm.Subperm

/-!
The OPTIMIZE job. It checks its base snapshot, reads all rows, writes them to new
files, checks the base snapshot again and commits. The commit removes every file
that is live in the table its transaction has loaded, which may be a later one
than the job has checked.
-/
namespace NovaRocks.Iceberg
open List
open IcebergReadFile (file rowsLeft)

def liveValues (manifests : List ManifestFile) : List (List Value) :=
  (liveRows manifests).map LiveRow.values

def validateBaseSnapshot (base : SnapshotId) (m : TableMetadata) : Except String Unit :=
  match m.currentSnapshot with
  | none => .error "iceberg optimize job requires table to have current snapshot"
  | some s =>
    if s.snapshotId = base then .ok () else .error "iceberg optimize job base snapshot mismatch"

def writtenValues (written : List WrittenFile) : List (List Value) :=
  written.flatMap fun w => w.file.rows.map StoredRow.values

/-- A job that preserves row ids names the table's next row id and takes none, one that writes with
row lineage takes one for each row. -/
def rewriteOf (checked : TableMetadata) (preserve lineage : Bool) (written : List WrittenFile) :
    RewriteDataFiles :=
  ⟨written, checked.defaultSpecId, if preserve || lineage then some checked.nextRowId else none,
    preserve, "main"⟩

/-- A job whose commit went through. The tables are those of its first check, of
its SELECT, of its second check, of the transaction's last attempt and of the
catalog when that attempt arrived; between any two of them other writers may have
committed. -/
structure OptimizeRun (base : SnapshotId) (preserve lineage : Bool) (written : List WrittenFile) (t : Stamp)
    (opened read checked loaded current after : TableMetadata) : Prop where
  validated : validateBaseSnapshot base opened = .ok ()
  content : ∀ w ∈ written, w.file.content = .data
  wrote : (writtenValues written).Perm (liveValues read.currentManifests)
  revalidated : validateBaseSnapshot base checked = .ok ()
  committed : attempt ((rewriteOf checked preserve lineage written).commit t) loaded current = .ok after

theorem liveValues_eq (manifests : List ManifestFile) :
    liveValues manifests = (liveContent manifests).map LiveRow.values := by
  rw [liveContent, map_map]
  rfl

theorem rowsLeft_nil (f : IcebergReadFile) :
    (f.rowsLeft []).map LiveRow.values = f.file.rows.map StoredRow.values := by
  have all : (f.file.rows.zipIdx.filter fun p => !f.removed [] p) = f.file.rows.zipIdx := by
    rw [filter_eq_self]
    intro p _
    rfl
  have first : f.file.rows.zipIdx.map (LiveRow.values ∘ f.rowAt) =
      (f.file.rows.zipIdx.map Prod.fst).map StoredRow.values := by
    rw [map_map]
    rfl
  rw [rowsLeft, all, map_map, first, zipIdx_map_fst]

theorem liveValues_of_files (whole : readDeletes manifests = [])
    (scanned : (scanFiles manifests).map file = files) :
    liveValues manifests = files.flatMap fun f => f.rows.map StoredRow.values := by
  rw [liveValues, liveRows_eq_rowsLeft, whole, map_flatMap, ← scanned, flatMap_map]
  apply flatMap_congr
  intro f _
  exact rowsLeft_nil f

theorem rewriteDeleted_gone (t : Stamp) (m : TableMetadata) (content : ManifestContentType) (name : String) :
    ∀ x ∈ writeRewriteDeleted t m content name, ∀ e ∈ x.entries, e.status = .deleted := by
  intro x member e entry
  obtain ⟨g,_,rfl⟩ := mem_map.mp member
  obtain ⟨f,_,rfl⟩ := mem_map.mp entry
  rfl

theorem liveValues_after_rewrite {a : RewriteDataFiles} {loaded current after : TableMetadata}
    (content : ∀ w ∈ a.written, w.file.content = .data) (onMain : a.targetRef = "main")
    (files : ¬ (a.written = [] ∧ liveFilesOf .data loaded.currentManifests = [] ∧
      liveFilesOf .deletes loaded.currentManifests = []))
    (done : attempt (a.commit t) loaded current = .ok after) :
    liveValues after.currentManifests = writtenValues a.written := by
  obtain ⟨c,ran,applied⟩ := attempt_ok done
  obtain ⟨empty,noData,noDeletes,_⟩ | ⟨_,next,manifests,added,wrote,new,rowRange,rfl⟩ :=
    RewriteDataFiles.commit_ok ran
  · exact (files ⟨empty,noData,noDeletes⟩).elim
  obtain ⟨_,set⟩ := committed applied
  rw [onMain] at set
  rw [set.currentManifests, liveValues_eq, liveContent_listed wrote, ← liveValues_eq]
  have gone := fun kind name => reading_deleted (rewriteDeleted_gone t loaded kind name)
  have shown : (scanFiles added).map file = a.written.map WrittenFile.file ∧
      readDeletes added = [] := by
    obtain ⟨rfl,empty⟩ | ⟨path,rfl⟩ := new
    · rw [empty]
      exact ⟨rfl,rfl⟩
    · exact ⟨scanFiles_added content none,rfl⟩
  have whole : readDeletes (writeRewriteDeleted t loaded .data "-rewrite-deleted-data-" ++ added ++
      writeRewriteDeleted t loaded .deletes "-rewrite-deleted-delete-") = [] := by
    rw [readDeletes_append, readDeletes_append, (gone _ _).2, (gone _ _).2, shown.2]
    rfl
  have scanned : (scanFiles (writeRewriteDeleted t loaded .data "-rewrite-deleted-data-" ++ added ++
      writeRewriteDeleted t loaded .deletes "-rewrite-deleted-delete-")).map file =
      a.written.map WrittenFile.file := by
    rw [scanFiles_append, scanFiles_append, (gone _ _).1, (gone _ _).1, nil_append, append_nil, shown.1]
  rw [liveValues_of_files whole scanned, flatMap_map]
  rfl

/-- No row is lost exactly when every row live at the commit was there when the
job read the table, or the commit has nothing to do. -/
theorem optimize_keeps_rows_iff {base : SnapshotId} {preserve lineage : Bool} {written : List WrittenFile}
    {t : Stamp} {opened read checked loaded current after : TableMetadata}
    (run : OptimizeRun base preserve lineage written t opened read checked loaded current after) :
    (liveValues current.currentManifests).Subperm (liveValues after.currentManifests) ↔
      (liveValues current.currentManifests).Subperm (liveValues read.currentManifests) ∨
        written = [] ∧ liveFilesOf .data loaded.currentManifests = [] ∧
          liveFilesOf .deletes loaded.currentManifests = [] := by
  by_cases nothing : written = [] ∧ liveFilesOf .data loaded.currentManifests = [] ∧
      liveFilesOf .deletes loaded.currentManifests = []
  · have same : after = current := by
      obtain ⟨c,ran,applied⟩ := attempt_ok run.committed
      obtain ⟨_,_,_,rfl⟩ | ⟨some',_⟩ := RewriteDataFiles.commit_ok ran
      · cases applied
        rfl
      · exact (some' nothing).elim
    rw [same]
    exact ⟨fun _ => .inr nothing,fun _ => Subperm.refl _⟩
  · have rows := liveValues_after_rewrite (a := rewriteOf checked preserve lineage written) run.content rfl
      nothing run.committed
    have read : (liveValues after.currentManifests).Perm (liveValues read.currentManifests) := by
      rw [rows]
      exact run.wrote
    rw [read.subperm_left]
    exact ⟨.inl,fun kept => kept.resolve_right nothing⟩

def metricsTable : TableMetadata :=
  let metrics := DataFile.ofRows "metrics-1" [] [⟨[.int 1], none⟩]
  ⟨.v2, "metrics", 0, 0, [0], 1, 0, some 1,
    [⟨1, none, 1, 0, "metrics/metadata/snap-1.avro",
      [⟨"metrics/metadata/m-1.avro", .data, 0, 1, none, [⟨.added, 1, 1, metrics⟩]⟩],
      .append, [], none⟩],
    [("main", 1)]⟩

def metricsRewritten : List WrittenFile :=
  [⟨DataFile.ofRows "metrics-2" [] [⟨[.int 1], none⟩], 0⟩]

theorem optimize_keeps_rows_iff_metrics :
    ∃ after, OptimizeRun 1 false false metricsRewritten ⟨"a", 2, 0⟩ metricsTable metricsTable metricsTable
        metricsTable metricsTable after ∧
      (liveValues metricsTable.currentManifests).Subperm (liveValues after.currentManifests) := by
  obtain ⟨after,done⟩ : ∃ after, attempt ((rewriteOf metricsTable false false metricsRewritten).commit
    ⟨"a",2,0⟩) metricsTable metricsTable = .ok after := ⟨_,rfl⟩
  have run : OptimizeRun 1 false false metricsRewritten ⟨"a",2,0⟩ metricsTable metricsTable metricsTable
      metricsTable metricsTable after :=
    ⟨rfl,by decide,Perm.of_eq (by decide),rfl,done⟩
  exact ⟨after,run,(optimize_keeps_rows_iff run).mpr (.inl (Subperm.refl _))⟩

def metricsOverwritten : TableMetadata :=
  (attempt ((Overwrite.mk [⟨DataFile.ofRows "metrics-3" [] [⟨[.int 2], none⟩], 0⟩] 0 none "main").commit
    ⟨"b", 2, 0⟩) metricsTable metricsTable).toOption.getD metricsTable

theorem optimize_loses_overwrite :
    ∃ after, OptimizeRun 1 false false metricsRewritten ⟨"a", 3, 0⟩ metricsTable metricsTable metricsTable
        metricsOverwritten metricsOverwritten after ∧
      liveValues metricsOverwritten.currentManifests = [[.int 2]] ∧
      liveValues after.currentManifests = [[.int 1]] := by
  refine ⟨_,⟨rfl,by decide,Perm.of_eq (by decide),rfl,rfl⟩,?_,?_⟩
  · decide
  · decide

end NovaRocks.Iceberg
