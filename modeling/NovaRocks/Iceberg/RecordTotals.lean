import NovaRocks.Iceberg.RowIdentity

/-!
The record counts in the summary of a merge-on-read commit: the positions its vectors add to those
they replace, and the total of main's current snapshot without them. The live rows of the branch
after the commit are those of its head before, without the listed ones, and the replacement rows.
-/
namespace NovaRocks.Iceberg
open List

section
variable (manifests : List ManifestFile)

def newlyDeletedOf (v : String × List Nat) : Nat :=
  (v.2 ++ oldPositions manifests v.1).dedup.length - (oldPositions manifests v.1).dedup.length

def newlyDeleted (vectors : Vectors) : Nat :=
  (vectors.map (newlyDeletedOf manifests)).sum

def listedRow (vectors : Vectors) (r : LiveRow) : Bool :=
  (indexOf manifests vectors).vectors.any fun v => v.1 = r.path && v.2.contains r.pos

def rowsTaken (vectors : Vectors) : Nat :=
  ((liveRows manifests).filter (listedRow manifests vectors)).length

def rowsWithAppended (written : List WrittenFile) : Nat :=
  (liveRows manifests).length + recordsOf written

theorem newlyDeleted_add (vectors : Vectors) :
    newlyDeleted manifests vectors + (indexOf manifests vectors).replacedDeleteRecords =
      (indexOf manifests vectors).addedPositionDeletes := by
  unfold newlyDeleted SnapshotIndex.addedPositionDeletes indexOf
  induction vectors with
  | nil => rfl
  | cons v rest ih =>
    have grows : (oldPositions manifests v.1).dedup.length ≤
        (v.2 ++ oldPositions manifests v.1).dedup.length := by
      refine (subperm_of_subset (nodup_dedup _) fun p inside => ?_).length_le
      exact mem_dedup.mpr (mem_append_right _ (mem_dedup.mp inside))
    simp only [map_cons, sum_cons, newlyDeletedOf] at ih ⊢
    omega

theorem newlyDeletedRecords_eq (vectors : Vectors) :
    newlyDeletedRecords (indexOf manifests vectors) = .ok (newlyDeleted manifests vectors) := by
  have sums := newlyDeleted_add manifests vectors
  rw [newlyDeletedRecords, if_pos (by omega), ← sums, Nat.add_sub_cancel]

end

theorem toString_inj {n k : Nat} : toString n = toString k ↔ n = k := by
  refine ⟨fun same => ?_,congrArg _⟩
  rw [Nat.toString_eq_ofList_toDigits, Nat.toString_eq_ofList_toDigits, String.ofList_inj] at same
  rw [← Nat.ofDigitChars_ten_toDigits (n := n), same, Nat.ofDigitChars_ten_toDigits]

theorem lookup_dvSummary (index : SnapshotIndex) (total : Option Nat) (newly : Nat) (updates : Bool) :
    (dvSummary index total newly ++ if updates then [] else rowLevelUpdate "merge-on-read").lookup
      "total-records" = total.map toString := by
  unfold dvSummary rowLevelUpdate
  cases total <;> cases updates <;> split <;> split <;> split <;> rfl

section
variable {a : RowDeltaDv} {manifests : List ManifestFile} {vectors : Vectors} {f : IcebergReadFile}

/-- Of the rows a file had, the new delete files take those the new vectors list. -/
theorem removed_new_iff (sound : ListedOnce seq manifests) (later : seq < newSequenceNumber m)
    (valid : validateAll ((liveFilesOf .deletes manifests).map LiveFile.dataFile) = .ok ())
    (present : ∀ v ∈ vectors, ∃ f, dataFileAt (liveFilesOf .data manifests) v.1 = some f)
    (scanned : f ∈ scanFiles manifests) (p : StoredRow × Nat) :
    f.removed (readDeletes (a.manifests t m (indexOf manifests vectors))) p =
      (f.removed (readDeletes manifests) p || !!listedRow manifests vectors (f.rowAt p)) := by
  rw [Bool.not_not, Bool.eq_iff_iff, Bool.or_eq_true]
  constructor
  · intro gone
    obtain ⟨d,read,applies,removes⟩ := removed_iff.mp gone
    obtain ⟨live,member,content,rfl⟩ := mem_readDeletes_iff.mp read
    rcases mem_newDeletes_iff.mp member with ⟨old,_⟩ | ⟨w,written,rfl⟩
    · exact .inl (removed_iff.mpr ⟨_,mem_readDeletes_iff.mpr ⟨live,old,content,rfl⟩,applies,removes⟩)
    · obtain ⟨⟨v,idx⟩,place,made⟩ := mem_filterMap.mp written
      obtain ⟨g,_,rfl⟩ := Option.map_eq_some_iff.mp made
      rw [DataFile.asDelete_of_position (by simp [dvDataFile])] at removes
      have inside : (f.file.path, p.2) ∈ v.2.dedup.map fun pos => (v.1, pos) := by
        simpa [IcebergReadDeleteFile.removes, dvDataFile] using removes
      obtain ⟨pos,holds,same⟩ := mem_map.mp inside
      obtain ⟨own,rfl⟩ := Prod.mk.inj same
      refine .inr (any_eq_true.mpr ⟨v,fst_mem_of_mem_zipIdx place,?_⟩)
      simpa [IcebergReadFile.rowAt, own] using holds
  · rintro (old | listed)
    · exact newDeletes_keep sound later valid present scanned old
    · obtain ⟨v,inside,same⟩ := any_eq_true.mp listed
      obtain ⟨own,vector,rfl⟩ := mem_map.mp inside
      simp only [Bool.and_eq_true, decide_eq_true_eq, contains_eq_mem] at same
      exact newVector_removes sound later present scanned vector same.1 same.2

theorem length_rowsLeft_whole (whole : ∀ p, f.removed deletes p = false) :
    (f.rowsLeft deletes).length = f.file.recordCount := by
  rw [IcebergReadFile.rowsLeft, length_map, filter_eq_self.mpr fun p _ => by simp [whole p],
    length_zipIdx, DataFile.recordCount]

/-- The live rows after the commit, the taken ones put back, are those before and the appended ones. -/
theorem liveRows_committed (sound : ListedOnce seq manifests) (later : seq < newSequenceNumber m)
    (valid : validateAll ((liveFilesOf .deletes manifests).map LiveFile.dataFile) = .ok ())
    (present : ∀ v ∈ vectors, ∃ f, dataFileAt (liveFilesOf .data manifests) v.1 = some f)
    (content : ∀ w ∈ a.written, w.file.content = .data) :
    (liveRows (a.manifests t m (indexOf manifests vectors))).length + rowsTaken manifests vectors =
      rowsWithAppended manifests a.written := by
  have scanned : scanFiles (a.manifests t m (indexOf manifests vectors)) =
      scanFiles manifests ++ scanFiles (a.replacementManifests t m) := by
    rw [scanFiles, newData_filter, flatMap_append, scanFiles, scanFiles, replacement_filter]
  have kept : ∀ f ∈ scanFiles manifests,
      f.rowsLeft (readDeletes (a.manifests t m (indexOf manifests vectors))) =
        (f.rowsLeft (readDeletes manifests)).filter fun r => !listedRow manifests vectors r :=
    fun f member => rowsLeft_filter (removed_new_iff sound later valid present member)
  have appended : ((scanFiles (a.replacementManifests t m)).flatMap (IcebergReadFile.rowsLeft
      (readDeletes (a.manifests t m (indexOf manifests vectors))))).length = recordsOf a.written := by
    have files := congrArg (map DataFile.recordCount) (scanFiles_replacement (t := t) (m := m) content).1
    rw [map_map, map_map] at files
    rw [length_flatMap, map_congr_left fun f member =>
      length_rowsLeft_whole (replacement_whole sound later content member)]
    exact congrArg sum files
  rw [liveRows_eq_rowsLeft, scanned, flatMap_append, length_append, flatMap_congr kept, appended, ← filter_flatMap,
    ← liveRows_eq_rowsLeft, rowsTaken, rowsWithAppended,
    length_eq_length_filter_add (l := liveRows manifests) (listedRow manifests vectors)]
  omega

end

def headSummary (m : TableMetadata) (ref : String) : List (String × String) :=
  ((m.refSnapshotId ref).bind m.snapshotById).elim [] Snapshot.summary

/-- The newly deleted positions are counted without underflow. The total written with the new
snapshot is the number of live rows of its branch exactly if the total of main's current snapshot,
without the newly deleted positions, is what the rows of the branch and the appended ones leave. -/
theorem dv_records_iff {m after : TableMetadata} {a : RowDeltaDv}
    (grouped : groupsToVectors [] a.groups = .ok vectors)
    (target : targetManifests m a.targetRef = .ok manifests)
    (once : ListedOnce m.lastSequenceNumber manifests) (content : ∀ w ∈ a.written, w.file.content = .data)
    (done : attempt (a.commit t) m m = .ok after) :
    newlyDeletedRecords (indexOf manifests vectors) = .ok (newlyDeleted manifests vectors) ∧
      ((headSummary after a.targetRef).lookup "total-records" =
          some (toString (liveRows (headManifests after a.targetRef)).length) ↔
        ∃ total, currentSnapshotTotalRecords m = .ok (some total) ∧
          total + rowsTaken manifests vectors =
            rowsWithAppended manifests a.written + newlyDeleted manifests vectors) := by
  refine ⟨newlyDeletedRecords_eq manifests vectors,?_⟩
  obtain ⟨c,ran,applied⟩ := attempt_ok done
  obtain ⟨v3,vectors',manifests',listed,newly,parent,total,grouped',target',valid,present,wrote,
    counted,before,totals,rfl⟩ := RowDeltaDv.commit_ok ran
  cases grouped'.symm.trans grouped
  cases target'.symm.trans target
  cases counted.symm.trans (newlyDeletedRecords_eq manifests vectors)
  have head := (committed applied).2
  have summary : (headSummary after a.targetRef).lookup "total-records" = total.map toString := by
    rw [headSummary, head.head_id, Option.bind_some, head.snapshot]
    exact lookup_dvSummary _ _ _ _
  have live := liveRows_committed (a := a) (t := t) once (Nat.lt_succ_self _) valid present content
  have sameLength := congrArg length (liveContent_listed (show writeManifestList .v3 _ _ = _ from wrote))
  simp only [liveContent, length_map] at sameLength
  rw [summary, headManifests_committed head, sameLength, before]
  cases parent with
  | none =>
    cases totals
    simp
  | some parent =>
    rw [dvTotalRecords] at totals
    split at totals
    · rename_i enough
      cases totals
      simp only [Option.map_some, Option.some_inj, toString_inj, Except.ok.injEq, exists_eq_left']
      omega
    · cases totals

def branched : TableMetadata :=
  let listing (id : SnapshotId) (files : List DataFile) (total : String) : Snapshot :=
    ⟨id, none, id, 0, "", [⟨"", .data, 0, id, some 0, files.map fun f => ⟨.added, id, id, f⟩⟩],
      .append, [("total-records", total)], none⟩
  let one := DataFile.ofRows "one" [] [⟨[], none⟩]
  let two := DataFile.ofRows "two" [] [⟨[], none⟩, ⟨[], none⟩]
  ⟨.v3, "", 0, 0, [0], 2, 3, some 1, [listing 1 [two] "2", listing 2 [one, two] "3"],
    [("main", 1), ("dev", 2)]⟩

def deleteFirst (ref : String) : RowDeltaDv :=
  ⟨[⟨"two", [0]⟩], [], 3, ref⟩

theorem dv_records_iff_main :
    ∃ after, attempt ((deleteFirst "main").commit ⟨"a", 3, 0⟩) branched branched = .ok after ∧
      (headSummary after "main").lookup "total-records" =
        some (toString (liveRows (headManifests after "main")).length) := by
  have target : targetManifests branched "main" = .ok branched.currentManifests := rfl
  refine ⟨_,rfl,(dv_records_iff (a := deleteFirst "main") (t := ⟨"a",3,0⟩) rfl target
    ⟨by decide,by decide,by decide⟩ (by decide) rfl).2.mpr ⟨2,by decide,by decide⟩⟩

theorem branch_total_from_main :
    ∃ after, attempt ((deleteFirst "dev").commit ⟨"a", 3, 0⟩) branched branched = .ok after ∧
      (headSummary after "dev").lookup "total-records" = some "1" ∧
      (liveRows (headManifests after "dev")).length = 2 :=
  ⟨_,rfl,by decide,by decide⟩

end NovaRocks.Iceberg
