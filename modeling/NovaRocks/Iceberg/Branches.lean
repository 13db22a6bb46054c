import NovaRocks.Iceberg.Actions

/-!
Writes to a branch. The new snapshot's parent is the head of the branch, but its
files start from the current snapshot, which is the head of main. The result is
the branch's own content changed by the action only where the two agree on what
the action leaves alone.
-/
namespace NovaRocks.Iceberg
open List
open WrittenFile (file)
open LiveFile (dataFile)

def headManifests (m : TableMetadata) (ref : String) : List ManifestFile :=
  ((m.refSnapshotId ref).bind m.snapshotById).elim [] Snapshot.manifests

def filesIn (manifests : List ManifestFile) : List DataFile :=
  manifests.flatMap fun m => m.live.map ManifestEntry.dataFile

inductive BranchAction where
  | fastAppend (a : FastAppendV3)
  | rowDelta (a : RowDelta)
  | overwrite (a : Overwrite)
  | overwritePartitions (a : OverwritePartitions)

def WrittenFile.files (written : List WrittenFile) : List DataFile :=
  written.map file

def outside (written : List WrittenFile) (f : DataFile) : Bool :=
  !(written.map fun w => w.file.partition).contains f.partition

namespace BranchAction

def targetRef : BranchAction → String
  | fastAppend a => a.targetRef
  | rowDelta a => a.targetRef
  | overwrite a => a.targetRef
  | overwritePartitions a => a.targetRef

def commit (t : Stamp) : BranchAction → Action
  | fastAppend a => a.commit t
  | rowDelta a => a.commit t
  | overwrite a => a.commit t
  | overwritePartitions a => a.commit t

def changed (head : List DataFile) : BranchAction → List DataFile
  | fastAppend a => head ++ WrittenFile.files a.written
  | rowDelta a => head ++ WrittenFile.files a.written
  | overwrite a => WrittenFile.files a.written
  | overwritePartitions a => head.filter (outside a.written) ++ WrittenFile.files a.written

/-- Main and the branch agree on what the action leaves alone. An overwrite
leaves nothing, but one without rows is dropped when main has no data. -/
def MainAgrees (m : TableMetadata) : BranchAction → Prop
  | fastAppend a => (filesIn m.currentManifests).Perm (filesIn (headManifests m a.targetRef))
  | rowDelta a => (filesIn m.currentManifests).Perm (filesIn (headManifests m a.targetRef))
  | overwrite a => a.written = [] → liveFilesOf .data m.currentManifests = [] →
      filesIn (headManifests m a.targetRef) = []
  | overwritePartitions a => ((filesIn m.currentManifests).filter (outside a.written)).Perm
      ((filesIn (headManifests m a.targetRef)).filter (outside a.written))

end BranchAction

/-! The files of a manifest list do not depend on row ids. -/

theorem filesIn_unnumber (manifests : List ManifestFile) :
    filesIn (manifests.map ManifestFile.unnumber) = filesIn manifests := by
  rw [filesIn, flatMap_map]
  rfl

theorem writeManifestList_filesIn (done : writeManifestList version first manifests = .ok (last, written)) :
    filesIn written = filesIn manifests := by
  rw [← filesIn_unnumber written, writeManifestList_unnumber done, filesIn_unnumber]

theorem filesIn_append (as bs : List ManifestFile) : filesIn (as ++ bs) = filesIn as ++ filesIn bs :=
  flatMap_append

theorem filesIn_single (m : ManifestFile) : filesIn [m] = m.live.map ManifestEntry.dataFile := by
  rw [filesIn, flatMap_singleton]

section
variable (t : Stamp) (path : String) (content : ManifestContentType) (specId seq : Nat)

theorem filesIn_added (files : List DataFile) :
    filesIn [writeAddedManifest t path content specId seq files] = files := by
  rw [filesIn_single]
  simp [writeAddedManifest, ManifestFile.live, ManifestEntry.isAlive, filter_map, Function.comp_def]

variable (files : List LiveFile)

theorem filesIn_existing :
    filesIn [writeExistingManifest t path content specId files] = files.map dataFile := by
  rw [filesIn_single]
  simp [writeExistingManifest, ManifestFile.live, ManifestEntry.isAlive, filter_map, Function.comp_def]

theorem filesIn_deleted : filesIn [writeDeletedManifest t path content specId files] = [] := by
  rw [filesIn_single]
  simp [writeDeletedManifest, ManifestFile.live, ManifestEntry.isAlive]

theorem filesIn_manifestIf_existing :
    filesIn (manifestIf files (writeExistingManifest t path content specId files)) =
      files.map dataFile := by
  rw [manifestIf]
  split
  · rename_i empty
    rw [isEmpty_iff.mp empty]
    rfl
  · exact filesIn_existing t path content specId files

theorem filesIn_manifestIf_deleted :
    filesIn (manifestIf files (writeDeletedManifest t path content specId files)) = [] := by
  rw [manifestIf]
  split
  · rfl
  · exact filesIn_deleted t path content specId files

end

theorem filesIn_perm_liveFiles (manifests : List ManifestFile) :
    (filesIn manifests).Perm
      ((liveFilesOf .data manifests ++ liveFilesOf .deletes manifests).map dataFile) := by
  have own : ∀ m : ManifestFile, m.liveFiles.map dataFile = m.live.map ManifestEntry.dataFile := by
    intro m
    rw [ManifestFile.liveFiles, map_map]
    rfl
  have other : (fun m : ManifestFile => decide (m.content = .deletes)) =
      fun m => !decide (m.content = .data) := by
    funext m
    cases m.content with
    | data | deletes => rfl
  rw [liveFilesOf, liveFilesOf, ← flatMap_append, map_flatMap, filesIn, other]
  simp only [own]
  exact ((filter_append_perm _ _).flatMap_right _).symm

/-! What each action puts on the branch. -/

section
variable {t : Stamp} {m now after : TableMetadata}

theorem headManifests_committed (c : Committed m after ref s) : headManifests after ref = s.manifests := by
  rw [headManifests, c.head_id, Option.bind_some, c.snapshot]
  rfl

theorem filesIn_after_fastAppend {a : FastAppendV3} (done : attempt (a.commit t) m now = .ok after) :
    filesIn (headManifests after a.targetRef) =
      filesIn m.currentManifests ++ WrittenFile.files a.written := by
  obtain ⟨commit,ran,applied⟩ := attempt_ok done
  obtain ⟨manifests,wrote,rfl⟩ := FastAppendV3.commit_ok ran
  rw [headManifests_committed (committed applied).2, writeManifestList_filesIn wrote,
    filesIn_append, writeAddedDataManifest, filesIn_added]
  rfl

theorem filesIn_after_rowDelta {a : RowDelta} (done : attempt (a.commit t) m now = .ok after) :
    (filesIn (headManifests after a.targetRef)).Perm
      (filesIn m.currentManifests ++ WrittenFile.files a.written) := by
  obtain ⟨commit,ran,applied⟩ := attempt_ok done
  obtain ⟨next,manifests,wrote,rfl⟩ := RowDelta.commit_ok ran
  rw [headManifests_committed (committed applied).2, writeManifestList_filesIn wrote, filesIn_append]
  apply Perm.append_left
  have groups : ∀ gs : List ((Nat × List WrittenFile) × Nat),
      filesIn (gs.map fun g => writeAddedManifest t
        (metadataDir m ++ "/" ++ t.commitUuid ++ "-row-delta-deletes-" ++ toString g.2 ++ ".avro")
        .deletes g.1.1 (newSequenceNumber m) (g.1.2.map file)) =
      ((gs.map Prod.fst).flatMap Prod.snd).map file := by
    intro gs
    induction gs with
    | nil => rfl
    | cons g gs ih =>
      rw [map_cons, map_cons, flatMap_cons, map_append, ← ih,
        ← singleton_append, filesIn_append, filesIn_added]
  rw [groups, zipIdx_map_fst]
  exact (groupOn_perm WrittenFile.partitionSpecId a.written).map file

theorem filesIn_after_overwrite {a : Overwrite} (done : attempt (a.commit t) m now = .ok after)
    (some' : ¬ (a.written = [] ∧ liveFilesOf .data m.currentManifests = [])) :
    filesIn (headManifests after a.targetRef) = WrittenFile.files a.written := by
  obtain ⟨commit,ran,applied⟩ := attempt_ok done
  obtain ⟨empty,none',_⟩ | ⟨_,next,manifests,deleted,added,wrote,removed,new,rowRange,rfl⟩ :=
    Overwrite.commit_ok ran
  · exact (some' ⟨empty,none'⟩).elim
  have gone : filesIn deleted = [] := by
    rw [filesIn, flatMap_eq_nil_iff]
    intro d member
    obtain ⟨path,files,rfl⟩ := removed d member
    rw [← filesIn_single]
    exact filesIn_deleted t path .data a.partitionSpecId files
  rw [headManifests_committed (committed applied).2, writeManifestList_filesIn wrote,
    filesIn_append, gone, nil_append]
  obtain ⟨rfl,empty⟩ | ⟨path,rfl⟩ := new
  · rw [empty]
    rfl
  · exact filesIn_added t path .data a.partitionSpecId _ _

theorem unchanged_after_empty_overwrite {a : Overwrite} (done : attempt (a.commit t) m m = .ok after)
    (empty : a.written = []) (noData : liveFilesOf .data m.currentManifests = []) : after = m := by
  obtain ⟨commit,ran,applied⟩ := attempt_ok done
  obtain ⟨_,_,rfl⟩ | ⟨some',_⟩ := Overwrite.commit_ok ran
  · cases applied
    rfl
  · exact (some' ⟨empty,noData⟩).elim

theorem filesIn_after_overwritePartitions {a : OverwritePartitions}
    (done : attempt (a.commit t) m now = .ok after) :
    (filesIn (headManifests after a.targetRef)).Perm
      ((filesIn m.currentManifests).filter (outside a.written) ++ WrittenFile.files a.written) := by
  obtain ⟨commit,ran,applied⟩ := attempt_ok done
  obtain ⟨_,next,manifests,path,added,wrote,new,rfl⟩ := OverwritePartitions.commit_ok ran
  have addedFiles : filesIn added = WrittenFile.files a.written := by
    obtain ⟨rfl,empty⟩ | rfl := new
    · rw [empty]
      rfl
    · exact filesIn_added t _ .data a.partitionSpecId _ _
  have survivors : ∀ files : List LiveFile, (files.filter fun f => !a.touches f).map dataFile =
        (files.map dataFile).filter (outside a.written) := by
    intro files
    rw [filter_map]
    rfl
  rw [headManifests_committed (committed applied).2, writeManifestList_filesIn wrote,
    filesIn_append, filesIn_append, filesIn_append, filesIn_append, filesIn_manifestIf_existing,
    filesIn_manifestIf_existing, filesIn_manifestIf_deleted, filesIn_manifestIf_deleted, addedFiles,
    append_nil, append_nil, survivors, survivors, ← filter_append, ← map_append]
  exact ((filesIn_perm_liveFiles m.currentManifests).filter _).symm.append_right _

/-- The branch gets its own content, changed, exactly where main agrees. -/
theorem branch_isolation_iff (a : BranchAction) (done : attempt (a.commit t) m m = .ok after) :
    (filesIn (headManifests after a.targetRef)).Perm
        (a.changed (filesIn (headManifests m a.targetRef))) ↔ a.MainAgrees m := by
  cases a with
  | fastAppend a =>
    have files := filesIn_after_fastAppend (a := a) done
    exact ((Perm.of_eq files).congr_left _).trans (perm_append_right_iff _)
  | rowDelta a =>
    have files := filesIn_after_rowDelta (a := a) done
    exact (files.congr_left _).trans (perm_append_right_iff _)
  | overwrite a =>
    by_cases none' : a.written = [] ∧ liveFilesOf .data m.currentManifests = []
    · have same := unchanged_after_empty_overwrite (a := a) done none'.1 none'.2
      subst same
      simp only [BranchAction.changed, BranchAction.MainAgrees, none'.1, none'.2, true_implies]
      exact perm_nil
    · have files := filesIn_after_overwrite (a := a) done none'
      constructor
      · intro _ empty noData
        exact (none' ⟨empty,noData⟩).elim
      · intro _
        exact Perm.of_eq files
  | overwritePartitions a =>
    have files := filesIn_after_overwritePartitions (a := a) done
    exact (files.congr_left _).trans (perm_append_right_iff _)

end

def ordersTable : TableMetadata :=
  let orders := DataFile.ofRows "orders-1" [] [⟨[.int 1], none⟩]
  ⟨.v3, "orders", 0, 0, [0], 1, 1, some 10,
    [⟨10, none, 1, 0, "orders/metadata/snap-10.avro",
      [⟨"orders/metadata/m-10.avro", .data, 0, 10, some 0, [⟨.added, 10, 1, orders⟩]⟩],
      .append, [], some (0, 1)⟩],
    [("main", 10), ("dev", 10)]⟩

def appendToDev (path : String) (firstRowId : Nat) : FastAppendV3 :=
  ⟨[⟨DataFile.ofRows path [] [⟨[.int 2], none⟩], 0⟩], 0, firstRowId, "dev"⟩

def draftsOnce : Except String TableMetadata :=
  attempt ((appendToDev "drafts-1" 1).commit ⟨"a", 11, 0⟩) ordersTable ordersTable

theorem branch_isolation_iff_drafts :
    ∃ after, draftsOnce = .ok after ∧
      (filesIn (headManifests after "dev")).Perm
        ((BranchAction.fastAppend (appendToDev "drafts-1" 1)).changed
          (filesIn (headManifests ordersTable "dev"))) := by
  obtain ⟨after,done⟩ : ∃ after, draftsOnce = .ok after := ⟨_,rfl⟩
  have agrees : (BranchAction.fastAppend (appendToDev "drafts-1" 1)).MainAgrees ordersTable :=
    Perm.refl _
  exact ⟨after,done,(branch_isolation_iff (.fastAppend (appendToDev "drafts-1" 1)) done).mpr agrees⟩

/-- Two appends to the branch: the second starts from main again. -/
theorem second_draft_replaces_first :
    ∃ once twice, draftsOnce = .ok once ∧
      attempt ((appendToDev "drafts-2" 2).commit ⟨"b", 12, 0⟩) once once = .ok twice ∧
      (filesIn (headManifests once "dev")).map DataFile.path = ["orders-1", "drafts-1"] ∧
      (filesIn (headManifests twice "dev")).map DataFile.path = ["orders-1", "drafts-2"] := by
  refine ⟨_,_,rfl,rfl,?_,?_⟩
  · decide
  · decide

/-! Writers of main. Each acts on a table it has loaded, maybe an old one. -/

/-- The current table, those before it and the actions that changed them. -/
inductive MainRun (base : TableMetadata) : TableMetadata → List TableMetadata → List BranchAction → Prop
  | start : MainRun base base [] []
  | commit {after : TableMetadata} (before : MainRun base now past landed) (held : loaded ∈ now :: past)
    (main : a.targetRef = "main") (done : attempt (a.commit t) loaded now = .ok after) (moved : after ≠ now) :
    MainRun base after (now :: past) (landed ++ [a])

/-- The later table has the head of main, and as long as it is the head, the same files. -/
def Tracked (later m : TableMetadata) : Prop :=
  (∀ id ∈ parentOf m "main", (later.snapshotById id).isSome) ∧
    (later.refSnapshotId "main" = parentOf m "main" → m.currentManifests = later.currentManifests)

section
variable {now after : TableMetadata}

theorem Tracked.committed (old : Tracked now m) (c : Committed now after "main" s) : Tracked after m := by
  constructor
  · intro id parent
    obtain ⟨s',found⟩ := Option.isSome_iff_exists.mp (old.1 id parent)
    rw [TableMetadata.snapshotById] at found ⊢
    rw [c.snapshots, find?_append, found]
    rfl
  · intro unmoved
    have known := old.1 s.snapshotId (unmoved.symm.trans c.head_id)
    rw [c.fresh] at known
    cases known

theorem Committed.tracked (c : Committed now after "main" s) : Tracked after after := by
  refine ⟨fun id parent => ?_,fun _ => rfl⟩
  rw [parentOf, c.head_id] at parent
  cases parent
  rw [c.snapshot]
  rfl

theorem BranchAction.lands {a : BranchAction} (done : attempt (a.commit t) m now = .ok after) (moved : after ≠ now) :
    (∃ s, now.refSnapshotId a.targetRef = parentOf m a.targetRef ∧ Committed now after a.targetRef s) ∧
      (filesIn (headManifests after a.targetRef)).Perm (a.changed (filesIn m.currentManifests)) := by
  obtain ⟨c,ran,applied⟩ := attempt_ok done
  cases a with
  | fastAppend a =>
    obtain ⟨_,_,rfl⟩ := FastAppendV3.commit_ok ran
    exact ⟨⟨_,committed applied⟩,.of_eq (filesIn_after_fastAppend done)⟩
  | rowDelta a =>
    obtain ⟨_,_,_,rfl⟩ := RowDelta.commit_ok ran
    exact ⟨⟨_,committed applied⟩,filesIn_after_rowDelta done⟩
  | overwrite a =>
    obtain ⟨_,_,rfl⟩ | ⟨some',_,_,_,_,_,_,_,_,rfl⟩ := Overwrite.commit_ok ran
    · cases applied
      exact (moved rfl).elim
    · exact ⟨⟨_,committed applied⟩,.of_eq (filesIn_after_overwrite done some')⟩
  | overwritePartitions a =>
    obtain ⟨_,_,_,_,_,_,_,rfl⟩ := OverwritePartitions.commit_ok ran
    exact ⟨⟨_,committed applied⟩,filesIn_after_overwritePartitions done⟩

theorem BranchAction.changed_perm (a : BranchAction) (same : files.Perm files') :
    (a.changed files).Perm (a.changed files') := by
  cases a with
  | fastAppend | rowDelta => exact same.append_right _
  | overwrite => exact .refl _
  | overwritePartitions => exact (same.filter _).append_right _

/-- Whatever tables the writers loaded, main has the files of the actions that landed, run one after
another: no write is lost. -/
theorem main_run_serial (run : MainRun base now past landed)
    (known : ∀ id ∈ parentOf base "main", (base.snapshotById id).isSome) : (∀ m ∈ now :: past, Tracked now m) ∧
      (filesIn now.currentManifests).Perm (landed.foldl BranchAction.changed (filesIn base.currentManifests)) := by
  induction run with
  | start => exact ⟨forall_mem_singleton.mpr ⟨known,fun _ => rfl⟩,.refl _⟩
  | commit _ held main done moved ih =>
    obtain ⟨⟨s,unmoved,set⟩,files⟩ := BranchAction.lands done moved
    rw [main] at unmoved set files
    rw [headManifests_committed set, ← set.currentManifests, (ih.1 _ held).2 unmoved] at files
    refine ⟨forall_mem_cons.mpr ⟨set.tracked,fun m member => (ih.1 m member).committed set⟩,?_⟩
    rw [foldl_append]
    exact files.trans (BranchAction.changed_perm _ ih.2)

end

def appendToMain : BranchAction :=
  .fastAppend { appendToDev "orders-2" 1 with targetRef := "main" }

def appendAgain : BranchAction :=
  .fastAppend { appendToDev "orders-3" 2 with targetRef := "main" }

theorem main_run_serial_orders :
    ∃ now past, MainRun ordersTable now past [appendToMain, appendAgain] ∧
      ((filesIn now.currentManifests).map DataFile.path).Perm ["orders-1", "orders-2", "orders-3"] := by
  have once : MainRun ordersTable _ [ordersTable] [appendToMain] :=
    .commit (t := ⟨"a",11,0⟩) .start mem_cons_self rfl rfl (by decide)
  have run : MainRun ordersTable _ _ [appendToMain,appendAgain] :=
    .commit (t := ⟨"b",12,0⟩) once mem_cons_self rfl rfl (by decide)
  exact ⟨_,_,run,(main_run_serial run (by decide)).2.map DataFile.path⟩

end NovaRocks.Iceberg
