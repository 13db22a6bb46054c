import NovaRocks.Iceberg.Branches

/-!
REWRITE MANIFESTS: manifests of the current snapshot that share partition spec
and content are merged into one, the merged list becomes a new snapshot of main,
and the manifests that went into it are deleted from storage.
-/
namespace NovaRocks.Iceberg
open List

def contentTypeKey : ManifestContentType → Nat
  | .data => 0
  | .deletes => 1

def specAndContent (m : ManifestFile) : Nat :=
  2 * m.partitionSpecId + contentTypeKey m.content

def groupManifestsBySpecAndContent (manifests : List ManifestFile) : List (Nat × List ManifestFile) :=
  groupOn specAndContent manifests

/-- Live entries as EXISTING, each with the first row id it had: its own, or
the manifest's moved on by the rows before it. -/
def stampEntries (first : Option Nat) : Nat → List ManifestEntry → List ManifestEntry
  | _, [] => []
  | offset, e :: rest =>
    if e.status = .deleted then stampEntries first offset rest
    else
      ⟨.existing, e.snapshotId, e.sequenceNumber,
          { e.dataFile with firstRowId := e.dataFile.firstRowId.or (first.map (· + offset)) }⟩ ::
        stampEntries first (offset + e.dataFile.recordCount) rest

def mergeManifestGroup (t : Stamp) (path : String) (content : ManifestContentType) (specId : Nat)
    (group : List ManifestFile) : ManifestFile :=
  ⟨path, content, specId, t.snapshotId, none,
    group.flatMap fun m => stampEntries m.firstRowId 0 m.entries⟩

def rewriteGroup (t : Stamp) (path : String) : List ManifestFile → ManifestFile
  | [] => ⟨path, .data, 0, t.snapshotId, none, []⟩
  | [m] => m
  | m :: group => mergeManifestGroup t path m.content m.partitionSpecId (m :: group)

def mergedManifestPath (m : TableMetadata) (uuid : Nat → String) (idx : Nat) : String :=
  metadataDir m ++ "/" ++ uuid idx ++ "-m0.avro"

def rewrittenManifests (uuid : Nat → String) (t : Stamp) (m : TableMetadata) : List ManifestFile :=
  (groupManifestsBySpecAndContent m.currentManifests).zipIdx.map fun (group, idx) =>
    rewriteGroup t (mergedManifestPath m uuid idx) group.2

def mergedAway (m : TableMetadata) : List String :=
  ((groupManifestsBySpecAndContent m.currentManifests).filter fun g => 1 < g.2.length).flatMap
    fun g => g.2.map ManifestFile.path

/-- The table and the stored files after one attempt. Without a current
snapshot, or without two manifests to merge, nothing happens. -/
def runRewriteManifests (uuid : Nat → String) (t : Stamp) (m : TableMetadata)
    (stored : List String) : Except String (TableMetadata × List String) :=
  match m.currentSnapshot with
  | none => .ok (m, stored)
  | some current => do
    if m.currentManifests.length ≤ 1 then return (m, stored)
    let groups := groupManifestsBySpecAndContent m.currentManifests
    if groups.all fun g => g.2.length ≤ 1 then return (m, stored)
    let merged := groups.filter fun g => 1 < g.2.length
    checkSpecs m "partition_spec_id not found in table metadata"
      (merged.flatMap fun g => g.2.map ManifestFile.partitionSpecId)
    let (_, manifests) ← writeManifestList m.formatVersion
      (if m.formatVersion = .v3 then some m.nextRowId else none) (rewrittenManifests uuid t m)
    let list := metadataDir m ++ "/snap-" ++ toString t.snapshotId ++ "-1-" ++ t.commitUuid ++ ".avro"
    let after ← updateTable m
      ⟨[.addSnapshot ⟨t.snapshotId, some current.snapshotId, newSequenceNumber m, t.nowMs, list,
          manifests, .replace,
          [("replaced-manifests-count", toString (merged.map fun g => g.2.length).sum),
            ("added-manifests-count", toString merged.length)],
          if m.formatVersion = .v3 then some (m.nextRowId, 0) else none⟩,
        .setSnapshotRef "main" t.snapshotId],
       [.currentSchemaIdMatch m.currentSchemaId,
        .refSnapshotIdMatch "main" (some current.snapshotId)]⟩
    return (after, (stored ++ list :: manifests.map ManifestFile.path).filter
      fun path => !(mergedAway m).contains path)

def Readable (stored : List String) (s : Snapshot) : Prop :=
  s.manifestList ∈ stored ∧ ∀ m ∈ s.manifests, m.path ∈ stored

instance (stored : List String) (s : Snapshot) : Decidable (Readable stored s) :=
  inferInstanceAs (Decidable (_ ∧ _))

structure FileView where
  path : String
  content : DataContentType
  sequenceNumber : Nat
  firstRowId : Option Nat
  deriving DecidableEq

def viewEntries : Option Nat → List ManifestEntry → List FileView
  | _, [] => []
  | next, e :: rest =>
    if e.isAlive then
      ⟨e.dataFile.path, e.dataFile.content, e.sequenceNumber, e.dataFile.firstRowId.or next⟩ ::
        viewEntries (next.map (· + e.dataFile.recordCount)) rest
    else viewEntries next rest

def fileViews (manifests : List ManifestFile) : List FileView :=
  manifests.flatMap fun m => viewEntries m.firstRowId m.entries

def RewriteKeeps (m after : TableMetadata) (stored : List String) : Prop :=
  (∀ s ∈ after.snapshots, Readable stored s) ∧
    (fileViews after.currentManifests).Perm (fileViews m.currentManifests)

def NothingToMerge (m : TableMetadata) : Prop :=
  ∀ g ∈ groupManifestsBySpecAndContent m.currentManifests, g.2.length ≤ 1

theorem nothingToMerge_of_short (short : m.currentManifests.length ≤ 1) : NothingToMerge m := by
  intro g member
  obtain ⟨k,_,rfl⟩ := mem_map.mp member
  exact (length_filter_le _ _).trans short

structure MergedManifests (uuid : Nat → String) (t : Stamp) (m after : TableMetadata)
    (stored left : List String) (s : Snapshot) : Prop where
  merges : ¬ NothingToMerge m
  wrote : ∃ next, writeManifestList m.formatVersion
    (if m.formatVersion = .v3 then some m.nextRowId else none) (rewrittenManifests uuid t m) =
      .ok (next, s.manifests)
  current : ∃ before, m.currentSnapshot = some before
  rowRange : s.rowRange = if m.formatVersion = .v3 then some (m.nextRowId, 0) else none
  committed : Committed m after "main" s
  left : left = (stored ++ s.manifestList :: s.manifests.map ManifestFile.path).filter
    fun path => !(mergedAway m).contains path

theorem runRewriteManifests_ok {m after : TableMetadata}
    (done : runRewriteManifests uuid t m stored = .ok (after, left)) :
    (NothingToMerge m ∧ after = m ∧ left = stored) ∨ ∃ s, MergedManifests uuid t m after stored left s := by
  unfold runRewriteManifests at done
  split at done
  · rename_i absent
    cases done
    have empty : m.currentManifests = [] := by
      rw [TableMetadata.currentManifests, absent]
      rfl
    exact .inl ⟨nothingToMerge_of_short (by simp [empty]),rfl,rfl⟩
  · rename_i current here
    dsimp only at done
    split at done
    · rename_i short
      cases done
      exact .inl ⟨nothingToMerge_of_short short,rfl,rfl⟩
    split at done
    · rename_i small
      cases done
      exact .inl ⟨by simpa [NothingToMerge] using small,rfl,rfl⟩
    · rename_i large
      obtain ⟨_,_,rest⟩ := bind_ok done
      obtain ⟨⟨next,manifests⟩,wrote,rest⟩ := bind_ok rest
      obtain ⟨after',applied,last⟩ := bind_ok rest
      cases last
      have set := applyUpdates_committed (updateTable_ok applied).2
      have merges : ¬ NothingToMerge m := by simpa [NothingToMerge] using large
      exact .inr ⟨_,merges,⟨next,wrote⟩,⟨current,here⟩,rfl,set,rfl⟩

theorem mem_currentManifests_of_group {m : TableMetadata}
    (group : g ∈ groupManifestsBySpecAndContent m.currentManifests)
    (member : x ∈ g.2) : x ∈ m.currentManifests := by
  apply (groupOn_perm specAndContent m.currentManifests).mem_iff.mp
  exact mem_flatMap.mpr ⟨g,group,member⟩

theorem MergedManifests.unreadable {m after : TableMetadata} {stored left : List String}
    (merged : MergedManifests uuid t m after stored left s) :
    ∃ old ∈ after.snapshots, ¬ Readable left old := by
  obtain ⟨before,current⟩ := merged.current
  have merges := merged.merges
  simp only [NothingToMerge, not_forall, not_le] at merges
  obtain ⟨g,group,large⟩ := merges
  obtain ⟨x,member⟩ := exists_mem_of_length_pos (Nat.zero_lt_of_lt large)
  have listed : x ∈ before.manifests := by
    have mem := mem_currentManifests_of_group group member
    rwa [TableMetadata.currentManifests, current] at mem
  have known : before ∈ m.snapshots := by
    obtain ⟨id,_,found⟩ := Option.bind_eq_some_iff.mp current
    exact mem_of_find?_eq_some found
  have gone : x.path ∈ mergedAway m := mem_flatMap.mpr
    ⟨g,mem_filter.mpr ⟨group,by simpa using large⟩,mem_map_of_mem member⟩
  have kept : before ∈ after.snapshots := by
    rw [merged.committed.snapshots]
    exact mem_append_left _ known
  refine ⟨before,kept,fun readable => ?_⟩
  have there := readable.2 x listed
  rw [merged.left, mem_filter] at there
  simp [gone] at there

/-- REWRITE MANIFESTS keeps its promise exactly when it has nothing to do. -/
theorem rewrite_manifests_iff {uuid : Nat → String} {t : Stamp} {m after : TableMetadata}
    {stored left : List String} (readable : ∀ s ∈ m.snapshots, Readable stored s)
    (done : runRewriteManifests uuid t m stored = .ok (after, left)) :
    RewriteKeeps m after left ↔ NothingToMerge m := by
  obtain ⟨nothing,rfl,rfl⟩ | ⟨s,merged⟩ := runRewriteManifests_ok done
  · exact ⟨fun _ => nothing,fun _ => ⟨readable,Perm.refl _⟩⟩
  · constructor
    · intro keeps
      obtain ⟨old,member,broken⟩ := merged.unreadable
      exact (broken (keeps.1 old member)).elim
    · intro nothing
      exact (merged.merges nothing).elim

def ordersStored : List String :=
  ["orders/metadata/snap-10.avro", "orders/metadata/m-10.avro"]

theorem rewrite_manifests_iff_orders :
    ∃ after left, runRewriteManifests (fun _ => "u") ⟨"r", 12, 0⟩ ordersTable ordersStored =
      .ok (after, left) ∧ RewriteKeeps ordersTable after left := by
  obtain ⟨after,left,done⟩ : ∃ after left, runRewriteManifests (fun _ => "u") ⟨"r",12,0⟩
      ordersTable ordersStored = .ok (after, left) := ⟨_,_,rfl⟩
  have readable : ∀ s ∈ ordersTable.snapshots, Readable ordersStored s := by
    simp [ordersTable, Readable, ordersStored]
  have nothing : NothingToMerge ordersTable := nothingToMerge_of_short (by decide)
  exact ⟨after,left,done,(rewrite_manifests_iff readable done).mpr nothing⟩

def ordersTwice : Except String TableMetadata :=
  attempt ((FastAppendV3.mk [⟨DataFile.ofRows "orders-2" [] [⟨[.int 2], none⟩], 0⟩] 0 1 "main").commit
    ⟨"a", 11, 0⟩) ordersTable ordersTable

theorem first_snapshot_unreadable :
    ∃ before after left, ordersTwice = .ok before ∧
      runRewriteManifests (fun _ => "u") ⟨"r", 12, 0⟩ before
        (ordersStored ++ ["orders/metadata/snap-11-a.avro", "orders/metadata/a-append-data-0.avro"]) =
        .ok (after, left) ∧
      (∀ s ∈ before.snapshots, Readable (ordersStored ++
        ["orders/metadata/snap-11-a.avro", "orders/metadata/a-append-data-0.avro"]) s) ∧
      ∃ s ∈ after.snapshots, s.snapshotId = 10 ∧ ¬ Readable left s := by
  refine ⟨_,_,_,rfl,rfl,?_,_,mem_cons_self,rfl,?_⟩
  · decide
  · decide

end NovaRocks.Iceberg
