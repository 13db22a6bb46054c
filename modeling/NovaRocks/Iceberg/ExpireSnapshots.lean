import NovaRocks.Iceberg.Branches
import NovaRocks.Graph.ParentChain

/-!
EXPIRE SNAPSHOTS. The snapshots to remove and the files to delete are computed
from the table as it was loaded; the commit checks the schema and the head of
main, and no other ref. What other writers do in between matters where it builds
on a snapshot that no ref reached.
-/
namespace NovaRocks.Iceberg
open NovaRocks.Graph List
open Snapshot (snapshotId)

def parentIdOf (m : TableMetadata) (id : SnapshotId) : Option SnapshotId :=
  (m.snapshotById id).bind Snapshot.parentSnapshotId

def computeLiveSnapshotSet (m : TableMetadata) : List SnapshotId :=
  reached (parentIdOf m) (m.snapshots.length + 1) (m.refs.map Prod.snd)

structure ExpireParams where
  olderThanMs : Option Nat
  retainLast : Option Nat

def chainFrom (m : TableMetadata) : Nat → Option SnapshotId → List SnapshotId
  | 0, _ => []
  | _ + 1, none => []
  | n + 1, some id => id :: chainFrom m n (parentIdOf m id)

def mainAncestorChain (m : TableMetadata) (n : Nat) : List SnapshotId :=
  chainFrom m n (m.refSnapshotId "main")

def computeExpireCandidates (m : TableMetadata) (p : ExpireParams) : List SnapshotId :=
  let live := computeLiveSnapshotSet m
  ((m.snapshots.filter fun s => !live.contains s.snapshotId).filter fun s =>
    (p.olderThanMs.all fun threshold => s.timestampMs < threshold) &&
      p.retainLast.all fun n => !(mainAncestorChain m n).contains s.snapshotId).map
    snapshotId

def filesOf (s : Snapshot) : List String :=
  s.manifestList :: s.manifests.flatMap fun m => m.path :: m.entries.map fun e => e.dataFile.path

section
variable (m : TableMetadata)

def enumerateFilesForSnapshots (wanted : SnapshotId → Bool) : List String :=
  (m.snapshots.filter fun s => wanted s.snapshotId).flatMap filesOf

def isPuffinPath (path : String) : Bool :=
  ".puffin".toList.isSuffixOf path.toList

def buildDvIndex : List (String × String) :=
  m.snapshots.flatMap fun s => s.manifests.flatMap fun x => x.entries.filterMap fun e =>
    e.dataFile.referencedDataFile.map fun data => (e.dataFile.path, data)

/-- A puffin file stays while a data file it refers to is in use. -/
def puffinHalfReferenceProtection (candidates : List String) (index : List (String × String))
    (live : List String) : List String :=
  candidates.filter fun path =>
    !isPuffinPath path || !index.any fun entry => entry.1 = path && live.contains entry.2

def filesToDelete (candidates : List SnapshotId) : List String :=
  let protectedFiles := enumerateFilesForSnapshots m fun id => !candidates.contains id
  let unprotected := (enumerateFilesForSnapshots m fun id => candidates.contains id).filter
    fun path => !protectedFiles.contains path
  puffinHalfReferenceProtection unprotected (buildDvIndex m) protectedFiles

/-- The table after the commit, and the files deleted. The catalog may have moved
on from `loaded` to `current`. -/
def runExpireOneAttempt (p : ExpireParams) (loaded current : TableMetadata) :
    Except String (TableMetadata × List String) :=
  let candidates := computeExpireCandidates loaded p
  if candidates.isEmpty then .ok (current, [])
  else do
    let main := (loaded.refSnapshotId "main").toList.map fun id =>
      TableRequirement.refSnapshotIdMatch "main" (some id)
    let after ← updateTable current ⟨[.removeSnapshots candidates],
      .currentSchemaIdMatch loaded.currentSchemaId :: main⟩
    return (after, filesToDelete loaded candidates)

/-- Nothing reachable is removed, nothing in use is deleted. -/
structure ExpireSafe (current after : TableMetadata) (deleted : List String) : Prop where
  snapshots : ∀ s ∈ current.snapshots,
    (∃ r ∈ after.refs, Ancestor (parentIdOf after) r.2 s.snapshotId) → s ∈ after.snapshots
  files : ∀ s ∈ after.snapshots, ∀ path ∈ filesOf s, path ∉ deleted

/-! What other writers may do. -/

def commitAll (m : TableMetadata) : List ActionCommit → Except String TableMetadata
  | [] => .ok m
  | c :: rest =>
    match updateTable m c with
    | .error message => .error message
    | .ok m => commitAll m rest

def Unreached (id : SnapshotId) : Prop :=
  (∃ s ∈ m.snapshots, s.snapshotId = id) ∧ ¬ ∃ r ∈ m.refs, Ancestor (parentIdOf m) r.2 id

def OnlyUnreached (path : String) : Prop :=
  (∃ s ∈ m.snapshots, path ∈ filesOf s) ∧
    ∀ s ∈ m.snapshots, path ∈ filesOf s → Unreached m s.snapshotId

end

/-- The update neither refers to an unreached snapshot nor builds on one. -/
def TableUpdate.Avoids (loaded : TableMetadata) : TableUpdate → Prop
  | addSnapshot s => (∀ parent, s.parentSnapshotId = some parent → ¬ Unreached loaded parent) ∧
    ∀ path ∈ filesOf s, ¬ OnlyUnreached loaded path
  | setSnapshotRef _ id => ¬ Unreached loaded id
  | _ => True

theorem mem_computeLiveSnapshotSet_iff {id : SnapshotId} :
    id ∈ computeLiveSnapshotSet m ↔ ∃ r ∈ m.refs, Ancestor (parentIdOf m) r.2 id := by
  have hasParent : ∀ id p, parentIdOf m id = some p → id ∈ m.snapshots.map snapshotId := by
    intro id p parent
    obtain ⟨s,found,_⟩ := Option.bind_eq_some_iff.mp parent
    have same : s.snapshotId = id := by simpa using find?_some found
    exact mem_map.mpr ⟨s,mem_of_find?_eq_some found,same⟩
  have reach : id ∈ computeLiveSnapshotSet m ↔ ∃ a ∈ m.refs.map Prod.snd, Ancestor (parentIdOf m) a id := by
    rw [← mem_reached_iff hasParent, length_map]
    rfl
  rw [reach]
  simp only [mem_map, exists_exists_and_eq_and]

theorem unreached_of_candidate {id : SnapshotId}
    (candidate : id ∈ computeExpireCandidates m p) : Unreached m id := by
  obtain ⟨s,kept,rfl⟩ := mem_map.mp candidate
  obtain ⟨inside,dead⟩ := mem_filter.mp (mem_filter.mp kept).1
  refine ⟨⟨s,inside,rfl⟩,fun reachable => ?_⟩
  have live := mem_computeLiveSnapshotSet_iff.mpr reachable
  simp [live] at dead

theorem mem_filesToDelete (deleted : path ∈ filesToDelete m candidates) :
    (∃ s ∈ m.snapshots, path ∈ filesOf s) ∧
      ∀ s ∈ m.snapshots, path ∈ filesOf s → s.snapshotId ∈ candidates := by
  obtain ⟨inside,notProtected⟩ := mem_filter.mp (mem_filter.mp deleted).1
  obtain ⟨s,kept,member⟩ := mem_flatMap.mp inside
  refine ⟨⟨s,(mem_filter.mp kept).1,member⟩,?_⟩
  intro other known uses
  by_contra outside
  have listed : path ∈ enumerateFilesForSnapshots m fun id => !candidates.contains id :=
    mem_flatMap.mpr ⟨other,mem_filter.mpr ⟨known,by simpa using outside⟩,uses⟩
  rw [Bool.not_eq_true', contains_eq_mem, decide_eq_false_iff_not] at notProtected
  exact notProtected listed

/-! What the other writers leave as it was. -/

/-- Refs and parents stay clear of the unreached snapshots, and so do new files. -/
structure ClearOf (loaded m : TableMetadata) : Prop where
  refs : ∀ r ∈ m.refs, ¬ Unreached loaded r.2
  parents : ∀ id, ¬ Unreached loaded id → ∀ p, parentIdOf m id = some p → ¬ Unreached loaded p
  snapshots : ∀ s ∈ m.snapshots, s ∈ loaded.snapshots ∨
    ∀ path ∈ filesOf s, ¬ OnlyUnreached loaded path

theorem ClearOf.start (loaded : TableMetadata) : ClearOf loaded loaded := by
  refine ⟨?_,?_,fun s member => .inl member⟩
  · intro r member unreached
    exact unreached.2 ⟨r,member,.self r.2⟩
  · intro id clear p parent unreached
    obtain ⟨s,found,_⟩ := Option.bind_eq_some_iff.mp parent
    have known : ∃ s ∈ loaded.snapshots, s.snapshotId = id :=
      ⟨s,mem_of_find?_eq_some found,by simpa using find?_some found⟩
    apply clear
    refine ⟨known,?_⟩
    rintro ⟨r,member,chain⟩
    exact unreached.2 ⟨r,member,chain.extend parent⟩

section
variable {loaded m after : TableMetadata}

theorem parentIdOf_addSnapshot {s : Snapshot} (snapshots : after.snapshots = m.snapshots ++ [s])
    {id p : SnapshotId} (parent : parentIdOf after id = some p) :
    parentIdOf m id = some p ∨ s.snapshotId = id ∧ s.parentSnapshotId = some p := by
  obtain ⟨found,here,own⟩ := Option.bind_eq_some_iff.mp parent
  rw [TableMetadata.snapshotById, snapshots, find?_append] at here
  cases old : m.snapshots.find? fun s => s.snapshotId = id with
  | some found' =>
    rw [old] at here
    cases here
    exact .inl (Option.bind_eq_some_iff.mpr ⟨found,old,own⟩)
  | none =>
    rw [old, Option.none_or] at here
    have same := mem_singleton.mp (mem_of_find?_eq_some here)
    have named := find?_some here
    subst same
    exact .inr ⟨by simpa using named,own⟩

theorem parentIdOf_removeSnapshots {id p : SnapshotId}
    (parent : parentIdOf (m.removeSnapshots ids) id = some p) : parentIdOf m id = some p := by
  obtain ⟨found,here,own⟩ := Option.bind_eq_some_iff.mp parent
  have named : found.snapshotId = id := by simpa using find?_some here
  have kept := (mem_filter.mp (mem_of_find?_eq_some here)).2
  refine Option.bind_eq_some_iff.mpr ⟨found,?_,own⟩
  rw [TableMetadata.snapshotById, TableMetadata.removeSnapshots, find?_filter] at here
  rw [TableMetadata.snapshotById, ← here]
  apply congrArg (fun test => m.snapshots.find? test)
  funext s
  by_cases same : s.snapshotId = id
  · have outside : id ∉ ids := by
      rw [← named]
      simpa using kept
    simp [same, outside]
  · simp [same]

theorem ClearOf.update (clear : ClearOf loaded m) (avoids : u.Avoids loaded)
    (done : m.applyUpdate u = .ok after) : ClearOf loaded after := by
  cases u with
  | addSnapshot s =>
    obtain ⟨_,snapshots,refs,_⟩ := addSnapshot_ok done
    obtain ⟨parents,files⟩ := avoids
    refine ⟨fun r member => clear.refs r (refs ▸ member),?_,?_⟩
    · intro id reached p parent
      rcases parentIdOf_addSnapshot snapshots parent with old | ⟨_,own⟩
      · exact clear.parents id reached p old
      · exact parents p own
    · rw [snapshots]
      exact forall_mem_append.mpr ⟨clear.snapshots,forall_mem_singleton.mpr (.inr files)⟩
  | setSnapshotRef ref id =>
    dsimp only [TableMetadata.applyUpdate, TableMetadata.setRef] at done
    split at done
    · cases done
    cases done
    refine ⟨forall_mem_cons.mpr ⟨avoids,fun r old => ?_⟩,clear.parents,clear.snapshots⟩
    exact clear.refs r (mem_filter.mp old).1
  | removeSnapshotRef ref =>
    cases done
    exact ⟨fun r member => clear.refs r (mem_filter.mp member).1,clear.parents,clear.snapshots⟩
  | removeSnapshots ids =>
    cases done
    refine ⟨fun r member => clear.refs r (mem_filter.mp member).1,?_,?_⟩
    · intro id reached p parent
      exact clear.parents id reached p (parentIdOf_removeSnapshots parent)
    · intro s member
      exact clear.snapshots s (mem_filter.mp member).1

end

theorem ClearOf.updates {loaded after : TableMetadata} {updates : List TableUpdate}
    (clear : ClearOf loaded m) (avoids : ∀ u ∈ updates, u.Avoids loaded)
    (done : m.applyUpdates updates = .ok after) : ClearOf loaded after := by
  induction updates generalizing m with
  | nil =>
    cases done
    exact clear
  | cons u rest ih =>
    rw [TableMetadata.applyUpdates] at done
    rw [forall_mem_cons] at avoids
    split at done
    · cases done
    · rename_i applied
      exact ih (clear.update avoids.1 applied) avoids.2 done

theorem ClearOf.commits {loaded after : TableMetadata}
    (clear : ClearOf loaded m) (avoids : ∀ c ∈ others, ∀ u ∈ c.updates, u.Avoids loaded)
    (done : commitAll m others = .ok after) : ClearOf loaded after := by
  induction others generalizing m with
  | nil =>
    cases done
    exact clear
  | cons c rest ih =>
    rw [commitAll] at done
    rw [forall_mem_cons] at avoids
    split at done
    · cases done
    · rename_i applied
      exact ih (clear.updates avoids.1 (updateTable_ok applied).2) avoids.2 done

theorem runExpireOneAttempt_ok {loaded current after : TableMetadata}
    (done : runExpireOneAttempt p loaded current = .ok (after, deleted)) :
    (after = current ∧ deleted = []) ∨ after = current.removeSnapshots (computeExpireCandidates loaded p) ∧
        deleted = filesToDelete loaded (computeExpireCandidates loaded p) := by
  unfold runExpireOneAttempt at done
  dsimp only at done
  split at done
  · cases done
    exact .inl ⟨rfl,rfl⟩
  · obtain ⟨after',applied,last⟩ := bind_ok done
    cases last
    have removed := (updateTable_ok applied).2
    cases removed
    exact .inr ⟨rfl,rfl⟩

/-- Expiry is safe in every interleaving whose other commits stay clear of the
snapshots that no ref reached when the table was loaded. -/
theorem expire_safe {p : ExpireParams} {loaded current after : TableMetadata}
    {others : List ActionCommit} {deleted : List String} (between : commitAll loaded others = .ok current)
    (avoids : ∀ c ∈ others, ∀ u ∈ c.updates, u.Avoids loaded)
    (done : runExpireOneAttempt p loaded current = .ok (after, deleted)) :
    ExpireSafe current after deleted := by
  have clear := (ClearOf.start loaded).commits avoids between
  obtain ⟨rfl,rfl⟩ | ⟨rfl,rfl⟩ := runExpireOneAttempt_ok done
  · exact ⟨fun s member _ => member,by simp⟩
  constructor
  · rintro s member ⟨r,inside,chain⟩
    have start := clear.refs r (mem_filter.mp inside).1
    have reached : ¬ Unreached loaded s.snapshotId := chain.stays
      (fun id here p parent => clear.parents id here p (parentIdOf_removeSnapshots parent)) start
    refine mem_filter.mpr ⟨member,?_⟩
    have stays : s.snapshotId ∉ computeExpireCandidates loaded p :=
      fun candidate => reached (unreached_of_candidate candidate)
    simpa using stays
  · intro s member path uses gone
    obtain ⟨inside,stays⟩ := mem_filter.mp member
    obtain ⟨known,only⟩ := mem_filesToDelete gone
    rcases clear.snapshots s inside with old | new
    · have candidate := only s old uses
      simp [candidate] at stays
    · exact new path uses
        ⟨known,fun x old used => unreached_of_candidate (only x old used)⟩

def droppedTable : TableMetadata :=
  let drafts := DataFile.ofRows "drafts-1" [] [⟨[.int 2], none⟩]
  { ordersTable with
    lastSequenceNumber := 2
    nextRowId := 2
    snapshots := ordersTable.snapshots ++ [⟨20, some 10, 2, 0, "orders/metadata/snap-20.avro",
      [⟨"orders/metadata/m-20.avro", .data, 0, 20, some 1, [⟨.added, 20, 2, drafts⟩]⟩],
      .append, [], some (1, 1)⟩]
    refs := [("main", 10)] }

def createDevAt (id : SnapshotId) : ActionCommit :=
  ⟨[.setSnapshotRef "dev" id], [.refSnapshotIdMatch "dev" none]⟩

theorem expire_safe_dev_on_main :
    ∃ current after deleted, commitAll droppedTable [createDevAt 10] = .ok current ∧
      runExpireOneAttempt ⟨none, none⟩ droppedTable current = .ok (after, deleted) ∧
      after.snapshots.map snapshotId = [10] ∧ ExpireSafe current after deleted := by
  obtain ⟨current,between⟩ : ∃ current, commitAll droppedTable [createDevAt 10] = .ok current :=
    ⟨_,rfl⟩
  have avoids : ∀ c ∈ [createDevAt 10], ∀ u ∈ c.updates, u.Avoids droppedTable := by
    intro c member u inside
    rw [mem_singleton.mp member] at inside
    rw [mem_singleton.mp inside]
    intro unreached
    exact unreached.2 ⟨("main", 10),by simp [droppedTable],.self 10⟩
  have expired : ∃ after deleted,
      runExpireOneAttempt ⟨none,none⟩ droppedTable current = .ok (after, deleted) ∧
        after.snapshots.map snapshotId = [10] := by
    cases between
    exact ⟨_,_,rfl,rfl⟩
  obtain ⟨after,deleted,done,left⟩ := expired
  exact ⟨current,after,deleted,between,done,left,expire_safe between avoids done⟩

/-- A branch is put on the unreached snapshot and written to: expiry then removes
the parent of the branch's head. -/
theorem expire_removes_branch_parent :
    ∃ branched written after deleted,
      commitAll droppedTable [createDevAt 20] = .ok branched ∧
      attempt ((appendToDev "drafts-2" 2).commit ⟨"b", 21, 0⟩) branched branched = .ok written ∧
      runExpireOneAttempt ⟨none, none⟩ droppedTable written = .ok (after, deleted) ∧
      after.refs = [("dev", 21), ("main", 10)] ∧ parentIdOf after 21 = some 20 ∧
      written.snapshots.map snapshotId = [10, 20, 21] ∧
      after.snapshots.map snapshotId = [10, 21] := by
  exact ⟨_,_,_,_,rfl,rfl,rfl,rfl,rfl,rfl,rfl⟩

end NovaRocks.Iceberg
