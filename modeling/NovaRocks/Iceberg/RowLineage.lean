import NovaRocks.Iceberg.RewriteManifests
import Mathlib.Data.List.Flatten

/-!
Row ids of a version 3 table without delete files. Three counters meet here: the
first row id of a file, the one of its manifest and the table's next row id.
-/
namespace NovaRocks.Iceberg
open List
open ManifestEntry (isAlive)
open LiveRow (rowId)

def fileRows (f : DataFile) (first : Option Nat) : List LiveRow :=
  f.rows.zipIdx.map fun p => ⟨f.path, p.2, p.1.values, p.1.rowId.or (first.map (· + p.2))⟩

def rowsFrom : Option Nat → List ManifestEntry → List LiveRow
  | _, [] => []
  | next, e :: rest =>
    if e.isAlive then
      fileRows e.dataFile (e.dataFile.firstRowId.or next) ++
        rowsFrom (next.map (· + e.dataFile.recordCount)) rest
    else rowsFrom next rest

theorem rowsFrom_alive {next : Option Nat} (alive : e.status ≠ .deleted) :
    rowsFrom next (e :: rest) = fileRows e.dataFile (e.dataFile.firstRowId.or next) ++
      rowsFrom (next.map (· + e.dataFile.recordCount)) rest := by
  rw [rowsFrom, if_pos (by simp [isAlive, alive])]

theorem rowsFrom_deleted {next : Option Nat} (gone : e.status = .deleted) : rowsFrom next
    (e :: rest) = rowsFrom next rest := by
  rw [rowsFrom, if_neg (by simp [isAlive, gone])]

def manifestRows (m : ManifestFile) : List LiveRow :=
  rowsFrom m.firstRowId m.entries

structure DataManifest (m : ManifestFile) : Prop where
  content : m.content = .data
  numbered : m.firstRowId.isSome
  entries : ∀ e ∈ m.entries, e.dataFile.content = .data

theorem fileRows_eq (f : IcebergReadFile) (whole : f.deletes = []) :
    f.liveRows = fileRows f.file f.firstRowId := by
  simp [IcebergReadFile.liveRows, fileRows, whole]

theorem rowsFrom_eq (specId : Nat) (next : Option Nat) (entries : List ManifestEntry)
    (data : ∀ e ∈ entries, e.dataFile.content = .data) :
    (readEntries [] specId next entries).flatMap IcebergReadFile.liveRows = rowsFrom next entries := by
  induction entries generalizing next with
  | nil => rfl
  | cons e rest ih =>
    have later := fun next => ih next fun e member => data e (mem_cons_of_mem _ member)
    rw [readEntries, rowsFrom]
    by_cases alive : e.isAlive
    · have kept : (e.isAlive && decide (e.dataFile.content = .data)) = true := by
        simp [alive, data e mem_cons_self]
      rw [if_pos kept, if_pos alive, flatMap_cons, later, fileRows_eq _ rfl]
    · have dropped : ¬ (e.isAlive && decide (e.dataFile.content = .data)) = true := by simp [alive]
      rw [if_neg dropped, if_neg alive, later]

variable {manifests : List ManifestFile}

section
variable (data : ∀ m ∈ manifests, DataManifest m)
include data

theorem filter_deletes : (manifests.filter fun m => m.content = .deletes) = [] := by
  rw [filter_eq_nil_iff]
  intro m member
  simp [(data m member).content]

theorem readDeletes_nil : readDeletes manifests = [] := by
  rw [readDeletes, filter_deletes data]
  rfl

theorem filter_data : (manifests.filter fun m => m.content = .data) = manifests := by
  rw [filter_eq_self]
  intro m member
  simp [(data m member).content]

theorem liveRows_eq : liveRows manifests = manifests.flatMap manifestRows := by
  rw [liveRows, buildReadSnapshot, readDeletes_nil data, filter_data data, flatMap_assoc]
  apply flatMap_congr
  intro m member
  exact rowsFrom_eq m.partitionSpecId m.firstRowId m.entries (data m member).entries

end

/-! Numbering. -/

/-- Every live row has an id below `next`, and no two have the same. -/
def Numbered (next : Nat) (manifests : List ManifestFile) : Prop :=
  ((liveRows manifests).map rowId).Nodup ∧
    ∀ r ∈ liveRows manifests, ∃ id, r.rowId = some id ∧ id < next

structure Unnumbered (f : DataFile) : Prop where
  content : f.content = .data
  firstRowId : f.firstRowId = none
  rows : ∀ r ∈ f.rows, r.rowId = none

theorem fileRows_unnumbered (fresh : Unnumbered f) (first : Nat) :
    (fileRows f (some first)).map rowId = (range' first f.recordCount).map some := by
  have plain : ∀ p ∈ f.rows.zipIdx, p.1.rowId.or (some (first + p.2)) = some (first + p.2) := by
    intro p member
    rw [fresh.rows p.1 (fst_mem_of_mem_zipIdx member), Option.none_or]
  have numbers : range' first f.recordCount = (f.rows.zipIdx.map Prod.snd).map (first + ·) := by
    rw [zipIdx_map_snd, map_add_range']
    rfl
  rw [numbers, fileRows, map_map, map_map, map_map]
  exact map_congr_left plain

theorem rowsFrom_added {files : List DataFile} (fresh : ∀ f ∈ files, Unnumbered f)
    (snapshotId seq first : Nat) :
    (rowsFrom (some first) (files.map fun f => ⟨.added, snapshotId, seq, f⟩)).map rowId =
      (range' first (files.map DataFile.recordCount).sum).map some := by
  induction files generalizing first with
  | nil => rfl
  | cons f files ih =>
    have own := fresh f mem_cons_self
    have later := ih (fun f member => fresh f (mem_cons_of_mem _ member)) (first + f.recordCount)
    rw [map_cons, rowsFrom_alive (by simp), map_append, own.firstRowId, Option.none_or,
      fileRows_unnumbered own, Option.map_some, later, map_cons, sum_cons,
      ← map_append, range'_append_1]

theorem rowsFrom_stamped (next : Option Nat) (first offset : Nat) (entries : List ManifestEntry) :
    rowsFrom next (stampEntries (some first) offset entries) =
      rowsFrom (some (first + offset)) entries := by
  induction entries generalizing next offset with
  | nil => rfl
  | cons e rest ih =>
    rw [stampEntries]
    by_cases gone : e.status = .deleted
    · rw [if_pos gone, rowsFrom_deleted gone, ih]
    · rw [if_neg gone, rowsFrom_alive gone, rowsFrom_alive (by simp), ih]
      congr 1
      · cases e.dataFile.firstRowId with
        | none | some => rfl
      · rw [Option.map_some, Nat.add_assoc]

/-- The rows of the entry do not depend on the manifest's first row id. -/
def Fixed (e : ManifestEntry) : Prop :=
  e.isAlive → e.dataFile.firstRowId.isSome ∨ e.dataFile.rows = []

theorem fileRows_fixed (fixed : f.firstRowId.isSome ∨ f.rows = [])
    (next : Option Nat) : fileRows f (f.firstRowId.or next) = fileRows f f.firstRowId := by
  rcases fixed with own | empty
  · obtain ⟨first,here⟩ := Option.isSome_iff_exists.mp own
    rw [here, Option.some_or]
  · rw [fileRows, fileRows, empty]
    rfl

theorem rowsFrom_fixed (fixed : ∀ e ∈ entries, Fixed e)
    (next : Option Nat) : rowsFrom next entries = (entries.filter isAlive).flatMap
        fun e => fileRows e.dataFile e.dataFile.firstRowId := by
  induction entries generalizing next with
  | nil => rfl
  | cons e rest ih =>
    have later := ih fun e member => fixed e (mem_cons_of_mem _ member)
    rw [rowsFrom]
    by_cases alive : e.isAlive
    · rw [if_pos alive, filter_cons_of_pos alive, flatMap_cons, later,
        fileRows_fixed (fixed e mem_cons_self alive)]
    · rw [if_neg alive, filter_cons_of_neg alive, later]

theorem rowsFrom_append (next : Option Nat) (as bs : List ManifestEntry) (fixed : ∀ e ∈ bs, Fixed e) :
    rowsFrom next (as ++ bs) = rowsFrom next as ++ rowsFrom none bs := by
  induction as generalizing next with
  | nil =>
    rw [nil_append, rowsFrom_fixed fixed, ← rowsFrom_fixed fixed none]
    rfl
  | cons e rest ih =>
    rw [cons_append, rowsFrom, rowsFrom]
    split
    · rw [ih, append_assoc]
    · exact ih next

theorem stampEntries_fixed : ∀ e ∈ stampEntries (some first) offset entries, Fixed e := by
  induction entries generalizing offset with
  | nil => simp [stampEntries]
  | cons e rest ih =>
    rw [stampEntries]
    split
    · exact ih
    · exact forall_mem_cons.mpr ⟨fun _ => .inl (by simp),ih⟩

theorem stampEntries_content (data : ∀ e ∈ entries, e.dataFile.content = .data) :
    ∀ e ∈ stampEntries first offset entries, e.dataFile.content = .data := by
  induction entries generalizing offset with
  | nil => simp [stampEntries]
  | cons e rest ih =>
    rw [forall_mem_cons] at data
    rw [stampEntries]
    split
    · exact ih data.2
    · exact forall_mem_cons.mpr ⟨data.1,ih data.2⟩

theorem stampedGroup_fixed {group : List ManifestFile} (data : ∀ m ∈ group, DataManifest m) :
    ∀ e ∈ group.flatMap fun m => stampEntries m.firstRowId 0 m.entries, Fixed e := by
  intro e member
  obtain ⟨m,inside,stamped⟩ := mem_flatMap.mp member
  obtain ⟨first,here⟩ := Option.isSome_iff_exists.mp (data m inside).numbered
  rw [here] at stamped
  exact stampEntries_fixed e stamped

theorem rowsFrom_group (next : Option Nat) {group : List ManifestFile} (data : ∀ m ∈ group, DataManifest m) :
    rowsFrom next (group.flatMap fun m => stampEntries m.firstRowId 0 m.entries) =
      group.flatMap manifestRows := by
  induction group generalizing next with
  | nil => rfl
  | cons m rest ih =>
    rw [forall_mem_cons] at data
    obtain ⟨first,here⟩ := Option.isSome_iff_exists.mp data.1.numbered
    rw [flatMap_cons, flatMap_cons, rowsFrom_append _ _ _ (stampedGroup_fixed data.2), ih _ data.2, here,
      rowsFrom_stamped, manifestRows, here, Nat.add_zero]

/-! The list writer on data manifests. -/

variable {next : Nat}

theorem addManifests_cons_ok (content : m.content = .data)
    (done : addManifests (some next) (m :: rest) = .ok (last, written)) :
    ∃ m' next' rest', written = m' :: rest' ∧ addManifests (some next') rest = .ok (last, rest') ∧
      (m.firstRowId.isSome ∧ m' = m ∧ next' = next ∨
        m.firstRowId = none ∧ m' = { m with firstRowId := some next } ∧
          next' = next + m.existingRowsCount + m.addedRowsCount) := by
  obtain ⟨path,kind,specId,added,first,entries⟩ := m
  subst content
  rw [addManifests] at done
  cases first with
  | none =>
    dsimp only [assignFirstRowId] at done
    split at done
    · cases done
    · rename_i later
      cases done
      exact ⟨_,_,_,rfl,later,.inr ⟨rfl,rfl,rfl⟩⟩
  | some first =>
    dsimp only [assignFirstRowId] at done
    split at done
    · cases done
    · rename_i later
      cases done
      exact ⟨_,_,_,rfl,later,.inl ⟨rfl,rfl,rfl⟩⟩

theorem addManifests_append_ok {next : Option Nat}
    (done : addManifests next (base ++ rest) = .ok (last, written)) :
    ∃ mid base' rest', written = base' ++ rest' ∧ addManifests next base = .ok (mid, base') ∧
      addManifests mid rest = .ok (last, rest') := by
  induction base generalizing next written with
  | nil => exact ⟨next,[],written,rfl,rfl,done⟩
  | cons m base ih =>
    rw [cons_append, addManifests] at done
    rw [addManifests]
    split at done
    · cases done
    split at done
    · cases done
    · rename_i later
      cases done
      obtain ⟨mid,base',rest',rfl,first,second⟩ := ih later
      exact ⟨mid,_ :: base',rest',rfl,by rw [first],second⟩

theorem addManifests_numbered (data : ∀ m ∈ base, DataManifest m)
    (done : addManifests (some next) base = .ok (last, written)) : last = some next ∧ written = base := by
  induction base generalizing written with
  | nil =>
    cases done
    exact ⟨rfl,rfl⟩
  | cons m base ih =>
    rw [forall_mem_cons] at data
    obtain ⟨m',next',tail,rfl,later,⟨_,rfl,rfl⟩ | ⟨fresh,_⟩⟩ :=
      addManifests_cons_ok data.1.content done
    · obtain ⟨rfl,rfl⟩ := ih data.2 later
      exact ⟨rfl,rfl⟩
    · have numbered := data.1.numbered
      rw [fresh] at numbered
      cases numbered

theorem addManifests_last (data : ∀ x ∈ base, x.content = .data)
    (done : addManifests (some next) base = .ok (last, written)) : ∃ n, last = some n ∧
      ((∀ x ∈ base, x.existingRowsCount + x.addedRowsCount = 0) → n = next) := by
  induction base generalizing next written with
  | nil =>
    cases done
    exact ⟨next,rfl,fun _ => rfl⟩
  | cons x base ih =>
    rw [forall_mem_cons] at data
    obtain ⟨_,next',tail,rfl,later,assigned⟩ := addManifests_cons_ok data.1 done
    obtain ⟨n,here,unmoved⟩ := ih data.2 later
    refine ⟨n,here,fun idle => ?_⟩
    rw [forall_mem_cons] at idle
    rw [unmoved idle.2]
    rcases assigned with ⟨_,_,same⟩ | ⟨_,_,moved⟩
    · exact same
    · omega

theorem addManifests_data
    (data : ∀ m ∈ manifests, m.content = .data ∧ ∀ e ∈ m.entries, e.dataFile.content = .data)
    (done : addManifests (some next) manifests = .ok (last, written)) :
    (∀ m ∈ written, DataManifest m) ∧
      ((∀ m ∈ manifests, m.firstRowId.isSome ∨ ∀ e ∈ m.entries, Fixed e) →
        written.flatMap manifestRows = manifests.flatMap manifestRows) := by
  induction manifests generalizing next written with
  | nil =>
    cases done
    simp
  | cons m rest ih =>
    obtain ⟨⟨content,entries⟩,others⟩ := forall_mem_cons.mp data
    obtain ⟨m',next',rest',rfl,later,assigned⟩ := addManifests_cons_ok content done
    obtain ⟨laterData,laterRows⟩ := ih others later
    rw [forall_mem_cons, forall_mem_cons, flatMap_cons, flatMap_cons]
    obtain ⟨numbered,rfl,_⟩ | ⟨fresh,rfl,_⟩ := assigned
    · exact ⟨⟨⟨content,numbered,entries⟩,laterData⟩,fun kept => by rw [laterRows kept.2]⟩
    · refine ⟨⟨⟨content,rfl,entries⟩,laterData⟩,fun kept => ?_⟩
      have fixed := kept.1.resolve_left (by simp [fresh])
      rw [laterRows kept.2, manifestRows, manifestRows, rowsFrom_fixed fixed, rowsFrom_fixed fixed]

/-! The commits. -/

inductive LineageCommit where
  | append (a : FastAppendV3)
  | overwritePartitions (a : OverwritePartitions)
  | rewriteManifests (uuid : Nat → String)

namespace LineageCommit

def run (t : Stamp) (m : TableMetadata) : LineageCommit → Except String TableMetadata
  | append a => attempt (a.commit t) m m
  | overwritePartitions a => attempt (a.commit t) m m
  | rewriteManifests uuid => (runRewriteManifests uuid t m []).map Prod.fst

/-- The statement began on this table and its files hold new rows. -/
def Staged (m : TableMetadata) : LineageCommit → Prop
  | append a => a.rowLineageFirstRowId = m.nextRowId ∧ ∀ w ∈ a.written, Unnumbered w.file
  | overwritePartitions a =>
    a.rowLineageFirstRowId = m.nextRowId ∧ ∀ w ∈ a.written, Unnumbered w.file
  | rewriteManifests _ => True

def survivors (m : TableMetadata) : LineageCommit → List LiveRow
  | append _ => liveRows m.currentManifests
  | overwritePartitions a =>
    ((buildReadSnapshot m.currentManifests).filter fun f => outside a.written f.file).flatMap
      IcebergReadFile.liveRows
  | rewriteManifests _ => liveRows m.currentManifests

def result (after : TableMetadata) : LineageCommit → List ManifestFile
  | append a => headManifests after a.targetRef
  | overwritePartitions a => headManifests after a.targetRef
  | rewriteManifests _ => after.currentManifests

/-- Overwriting partitions is harmless when no row lies outside of them, or when
no row is written and the files outside have row ids of their own. -/
def Harmless (m : TableMetadata) : LineageCommit → Prop
  | overwritePartitions a =>
    (∀ f ∈ liveFilesOf .data m.currentManifests, !a.touches f → f.dataFile.rows = []) ∨
      recordsOf a.written = 0 ∧ ∀ f ∈ liveFilesOf .data m.currentManifests, !a.touches f →
        f.dataFile.firstRowId.isSome ∨ f.dataFile.rows = []
  | _ => True

end LineageCommit

inductive LineageReached : TableMetadata → Prop
  | empty {m : TableMetadata} (version : m.formatVersion = .v3) (none' : m.snapshots = []) :
    LineageReached m
  | step {m after : TableMetadata} {t : Stamp} {c : LineageCommit} (before : LineageReached m)
    (staged : c.Staged m) (harmless : c.Harmless m) (done : c.run t m = .ok after) :
    LineageReached after

structure Lineage (m : TableMetadata) : Prop where
  version : m.formatVersion = .v3
  data : ∀ s ∈ m.snapshots, ∀ x ∈ s.manifests, DataManifest x
  numbered : ∀ s ∈ m.snapshots, Numbered m.nextRowId s.manifests

theorem mem_snapshots_of_current {m : TableMetadata}
    (current : m.currentSnapshot = some s) : s ∈ m.snapshots := by
  obtain ⟨id,_,found⟩ := Option.bind_eq_some_iff.mp current
  exact mem_of_find?_eq_some found

namespace Lineage
variable {m after : TableMetadata}

theorem current (lineage : Lineage m) :
    (∀ x ∈ m.currentManifests, DataManifest x) ∧ Numbered m.nextRowId m.currentManifests := by
  rw [TableMetadata.currentManifests]
  cases current : m.currentSnapshot with
  | none => exact ⟨by simp,nodup_nil,by simp [liveRows, buildReadSnapshot]⟩
  | some s =>
    have kept := mem_snapshots_of_current current
    exact ⟨lineage.data s kept,lineage.numbered s kept⟩

theorem commit {first rows : Nat} (lineage : Lineage m) (c : Committed m after ref s)
    (range : s.rowRange = some (first, rows))
    (data : ∀ x ∈ s.manifests, DataManifest x) (numbered : Numbered (m.nextRowId + rows) s.manifests) :
    Lineage after := by
  obtain ⟨first',rows',range',_,next⟩ := c.rowIds lineage.version
  have same : rows' = rows := by
    cases range.symm.trans range'
    rfl
  subst same
  refine ⟨c.version.trans lineage.version,?_,?_⟩
  · rw [c.snapshots]
    exact forall_mem_append.mpr ⟨lineage.data,forall_mem_singleton.mpr data⟩
  · rw [c.snapshots, next]
    refine forall_mem_append.mpr ⟨fun old older => ?_,forall_mem_singleton.mpr numbered⟩
    obtain ⟨nodup,below⟩ := lineage.numbered old older
    refine ⟨nodup,fun r inside => ?_⟩
    obtain ⟨id,own,small⟩ := below r inside
    exact ⟨id,own,by omega⟩

end Lineage

/-! Append. -/

variable {written : List WrittenFile}

theorem addedDataManifest_rows (t : Stamp) (path : String) (specId seq : Nat)
    (fresh : ∀ w ∈ written, Unnumbered w.file) (first : Nat) :
    (rowsFrom (some first) (writeAddedDataManifest t path specId seq written).entries).map
      rowId = (range' first (recordsOf written)).map some := by
  have files : ∀ f ∈ written.map WrittenFile.file, Unnumbered f := by
    intro f member
    obtain ⟨w,inside,rfl⟩ := mem_map.mp member
    exact fresh w inside
  have total : recordsOf written = ((written.map WrittenFile.file).map DataFile.recordCount).sum := by
    rw [map_map]
    rfl
  rw [total]
  exact rowsFrom_added files t.snapshotId seq first

theorem addedDataManifest_data (fresh : ∀ w ∈ written, Unnumbered w.file) :
    ∀ e ∈ (writeAddedDataManifest t path specId seq written).entries,
      e.dataFile.content = .data := by
  intro e member
  simp only [writeAddedDataManifest, writeAddedManifest, map_map, mem_map] at member
  obtain ⟨w,inside,rfl⟩ := member
  exact (fresh w inside).content

theorem addManifests_added (fresh : ∀ w ∈ written, Unnumbered w.file)
    (new : added = [] ∧ written = [] ∨ added = [writeAddedDataManifest t path specId seq written])
    (done : addManifests (some next) added = .ok (last, listed)) :
    (∀ x ∈ listed, DataManifest x) ∧ (listed.flatMap manifestRows).map rowId =
      (range' next (recordsOf written)).map some := by
  obtain ⟨rfl,rfl⟩ | rfl := new
  · cases done
    exact ⟨by simp,rfl⟩
  · have content : (writeAddedDataManifest t path specId seq written).content = .data := rfl
    obtain ⟨data,_⟩ := addManifests_data
      (forall_mem_singleton.mpr ⟨content,addedDataManifest_data fresh⟩) done
    refine ⟨data,?_⟩
    obtain ⟨x,next',rest,rfl,later,⟨own,_⟩ | ⟨_,rfl,_⟩⟩ := addManifests_cons_ok content done
    · cases own
    cases later
    rw [flatMap_singleton]
    exact addedDataManifest_rows t path specId seq fresh next

theorem numbered_append {rows : Nat} (old : Numbered next base) (sub : kept.Sublist (liveRows base))
    (new : added.map rowId = (range' next rows).map some)
    (live : liveRows manifests = kept ++ added) : Numbered (next + rows) manifests := by
  have newId : ∀ r ∈ added, ∃ id, r.rowId = some id ∧ next ≤ id ∧ id < next + rows := by
    intro r member
    have inside : r.rowId ∈ (range' next rows).map some := new ▸ mem_map_of_mem member
    obtain ⟨id,range,eq⟩ := mem_map.mp inside
    exact ⟨id,eq.symm,mem_range'_1.mp range⟩
  have newNodup : (added.map rowId).Nodup := by
    rw [new]
    exact (nodup_range').map (Option.some_injective Nat)
  constructor
  · rw [live, map_append, nodup_append]
    refine ⟨old.1.sublist (sub.map _),newNodup,?_⟩
    intro a keptMem b addedMem same
    obtain ⟨r,inKept,rfl⟩ := mem_map.mp keptMem
    obtain ⟨r',inAdded,rfl⟩ := mem_map.mp addedMem
    obtain ⟨id,own,small⟩ := old.2 r (sub.subset inKept)
    obtain ⟨id',own',large,_⟩ := newId r' inAdded
    rw [own, own', Option.some_inj] at same
    omega
  · intro r member
    rw [live] at member
    rcases mem_append.mp member with inKept | inAdded
    · obtain ⟨id,own,small⟩ := old.2 r (sub.subset inKept)
      exact ⟨id,own,by omega⟩
    · obtain ⟨id,own,_,small⟩ := newId r inAdded
      exact ⟨id,own,small⟩

section
variable {m after : TableMetadata}

theorem Lineage.append (lineage : Lineage m) (staged : (LineageCommit.append a).Staged m)
    (done : (LineageCommit.append a).run t m = .ok after) :
    Lineage after ∧ ∀ r ∈ (LineageCommit.append a).survivors m,
      r ∈ liveRows ((LineageCommit.append a).result after) := by
  obtain ⟨first,fresh⟩ := staged
  obtain ⟨commit,ran,applied⟩ := attempt_ok done
  obtain ⟨manifests,wrote,rfl⟩ := FastAppendV3.commit_ok ran
  obtain ⟨_,set⟩ := committed applied
  rw [lineage.version, writeManifestList, first] at wrote
  obtain ⟨base,ids⟩ := lineage.current
  obtain ⟨mid,base',listed,rfl,wroteBase,wroteAdded⟩ := addManifests_append_ok wrote
  obtain ⟨rfl,rfl⟩ := addManifests_numbered base wroteBase
  obtain ⟨data,new⟩ := addManifests_added fresh (.inr rfl) wroteAdded
  have all : ∀ x ∈ m.currentManifests ++ listed, DataManifest x := forall_mem_append.mpr ⟨base,data⟩
  have rows := liveRows_eq all
  rw [flatMap_append, ← liveRows_eq base] at rows
  constructor
  · exact lineage.commit set rfl all (numbered_append ids (Sublist.refl _) new rows)
  · intro r member
    rw [LineageCommit.result, headManifests_committed set, rows]
    exact mem_append_left _ member

/-! REWRITE MANIFESTS. -/

theorem rewriteGroup_rows (t : Stamp) (path : String) (data : ∀ x ∈ group, DataManifest x) :
    manifestRows (rewriteGroup t path group) = group.flatMap manifestRows := by
  match group with
  | [] => rfl
  | [x] => exact (flatMap_singleton _ _).symm
  | x :: y :: rest => exact rowsFrom_group none data

theorem rewriteGroup_data (t : Stamp) (path : String) (data : ∀ x ∈ group, DataManifest x) :
    ((rewriteGroup t path group).content = .data ∧
      ∀ e ∈ (rewriteGroup t path group).entries, e.dataFile.content = .data) ∧
      ((rewriteGroup t path group).firstRowId.isSome ∨
        ∀ e ∈ (rewriteGroup t path group).entries, Fixed e) := by
  match group with
  | [] => exact ⟨⟨rfl,by simp [rewriteGroup]⟩,.inr (by simp [rewriteGroup])⟩
  | [x] =>
    have own := data x mem_cons_self
    exact ⟨⟨own.content,own.entries⟩,.inl own.numbered⟩
  | x :: y :: rest =>
    refine ⟨⟨(data x mem_cons_self).content,?_⟩,.inr (stampedGroup_fixed data)⟩
    intro e member
    obtain ⟨z,inside,stamped⟩ := mem_flatMap.mp member
    exact stampEntries_content (data z inside).entries e stamped

theorem rewrittenManifests_rows (uuid : Nat → String) (t : Stamp)
    (data : ∀ x ∈ m.currentManifests, DataManifest x) :
    ((rewrittenManifests uuid t m).flatMap manifestRows).Perm (m.currentManifests.flatMap manifestRows) := by
  have groups : (rewrittenManifests uuid t m).flatMap manifestRows =
      ((groupManifestsBySpecAndContent m.currentManifests).zipIdx.map Prod.fst).flatMap
        fun g => g.2.flatMap manifestRows := by
    rw [rewrittenManifests, flatMap_map, flatMap_map]
    apply flatMap_congr
    intro g member
    have group := fst_mem_of_mem_zipIdx member
    exact rewriteGroup_rows t _ fun x inside => data x (mem_currentManifests_of_group group inside)
  rw [groups, zipIdx_map_fst, ← flatMap_assoc]
  exact (groupOn_perm specAndContent m.currentManifests).flatMap_right manifestRows

theorem Lineage.rewriteManifests (lineage : Lineage m)
    (done : (LineageCommit.rewriteManifests uuid).run t m = .ok after) :
    Lineage after ∧ ∀ r ∈ (LineageCommit.rewriteManifests uuid).survivors m,
      r ∈ liveRows ((LineageCommit.rewriteManifests uuid).result after) := by
  rcases ran : runRewriteManifests uuid t m [] with message | ⟨after',left⟩
  · rw [LineageCommit.run, ran] at done
    cases done
  rw [LineageCommit.run, ran] at done
  cases done
  obtain ⟨_,rfl,_⟩ | ⟨s,merged⟩ := runRewriteManifests_ok ran
  · exact ⟨lineage,fun r member => member⟩
  obtain ⟨base,nodup,below⟩ := lineage.current
  obtain ⟨next,wrote⟩ := merged.wrote
  rw [lineage.version, if_pos rfl, writeManifestList] at wrote
  have rewritten : ∀ x ∈ rewrittenManifests uuid t m,
      (x.content = .data ∧ ∀ e ∈ x.entries, e.dataFile.content = .data) ∧
      (x.firstRowId.isSome ∨ ∀ e ∈ x.entries, Fixed e) := by
    intro x member
    obtain ⟨g,inside,rfl⟩ := mem_map.mp member
    have group := fst_mem_of_mem_zipIdx inside
    exact rewriteGroup_data t _ fun x inside => base x (mem_currentManifests_of_group group inside)
  obtain ⟨data,kept⟩ := addManifests_data (fun x member => (rewritten x member).1) wrote
  have rows : (liveRows s.manifests).Perm (liveRows m.currentManifests) := by
    rw [liveRows_eq data, liveRows_eq base, kept fun x member => (rewritten x member).2]
    exact rewrittenManifests_rows uuid t base
  constructor
  · have range := merged.rowRange
    rw [lineage.version, if_pos rfl] at range
    have numbered : Numbered (m.nextRowId + 0) s.manifests :=
      ⟨(rows.map rowId).nodup_iff.mpr nodup,fun r member => below r (rows.mem_iff.mp member)⟩
    exact lineage.commit merged.committed range data numbered
  · intro r member
    rw [LineageCommit.result, merged.committed.currentManifests]
    exact rows.mem_iff.mpr member

/-! OVERWRITE PARTITIONS. -/

variable (data : ∀ x ∈ manifests, DataManifest x)

include data in
theorem liveFilesOf_content : ∀ f ∈ liveFilesOf .data manifests, f.dataFile.content = .data := by
  intro f member
  obtain ⟨x,inside,live⟩ := mem_flatMap.mp member
  obtain ⟨e,alive,rfl⟩ := mem_map.mp live
  exact (data x (mem_filter.mp inside).1).entries e (mem_filter.mp alive).1

include data in
theorem liveFilesOf_deletes : liveFilesOf .deletes manifests = [] := by
  rw [liveFilesOf, filter_deletes data]
  rfl

theorem readEntries_outside (specId : Nat)
    (next : Option Nat) (content : ∀ e ∈ es, e.dataFile.content = .data)
    (fixed : ∀ e ∈ es, e.isAlive → outside written e.dataFile →
      e.dataFile.firstRowId.isSome ∨ e.dataFile.rows = []) :
    ((readEntries [] specId next es).filter fun f => outside written f.file).flatMap
        IcebergReadFile.liveRows =
      ((es.filter isAlive).filter fun e => outside written e.dataFile).flatMap
        fun e => fileRows e.dataFile e.dataFile.firstRowId := by
  induction es generalizing next with
  | nil => rfl
  | cons e es ih =>
    rw [forall_mem_cons] at content fixed
    have later := fun next => ih next content.2 fixed.2
    rw [readEntries]
    by_cases alive : e.isAlive
    · rw [if_pos (by simp [alive, content.1]), filter_cons_of_pos alive]
      by_cases apart : outside written e.dataFile
      · rw [filter_cons_of_pos (by exact apart), filter_cons_of_pos (by exact apart),
          flatMap_cons, flatMap_cons, later, fileRows_eq _ rfl,
          fileRows_fixed (fixed.1 alive apart)]
      · rw [filter_cons_of_neg (by exact apart), filter_cons_of_neg (by exact apart), later]
    · rw [if_neg (by simp [alive]), filter_cons_of_neg alive, later]

include data in
theorem buildReadSnapshot_outside (own : ∀ f ∈ liveFilesOf .data manifests, outside written f.dataFile →
      f.dataFile.firstRowId.isSome ∨ f.dataFile.rows = []) :
    ((buildReadSnapshot manifests).filter fun f => outside written f.file).flatMap
        IcebergReadFile.liveRows =
      ((liveFilesOf .data manifests).filter fun f => outside written f.dataFile).flatMap
        fun f => fileRows f.dataFile f.dataFile.firstRowId := by
  have filtered := filter_data data
  rw [buildReadSnapshot, readDeletes_nil data, liveFilesOf, filtered, filter_flatMap,
    filter_flatMap, flatMap_assoc, flatMap_assoc]
  apply flatMap_congr
  intro x member
  have apart : ∀ e ∈ x.entries, e.isAlive → outside written e.dataFile →
      e.dataFile.firstRowId.isSome ∨ e.dataFile.rows = [] := by
    intro e entry alive out
    have live : ⟨e.dataFile,x.partitionSpecId,e.snapshotId,e.sequenceNumber⟩ ∈
        liveFilesOf .data manifests := by
      rw [liveFilesOf, filtered]
      exact mem_flatMap.mpr ⟨x,member,mem_map.mpr ⟨e,mem_filter.mpr ⟨entry,alive⟩,rfl⟩⟩
    exact own _ live out
  rw [readEntries_outside x.partitionSpecId x.firstRowId (data x member).entries apart,
    ManifestFile.liveFiles, filter_map, flatMap_map]
  rfl

section
variable (path : String) (specId : Nat)

theorem mem_manifestIf (member : x ∈ manifestIf files manifest) : x = manifest := by
  rw [manifestIf] at member
  split at member
  · cases member
  · exact mem_singleton.mp member

theorem survivingManifest_data (content : ∀ f ∈ files, f.dataFile.content = .data)
    (own : ∀ f ∈ files, f.dataFile.firstRowId.isSome ∨ f.dataFile.rows = []) :
    ∀ x ∈ manifestIf files (writeExistingManifest t path .data specId files),
      (x.content = .data ∧ ∀ e ∈ x.entries, e.dataFile.content = .data) ∧ ∀ e ∈ x.entries, Fixed e := by
  intro x member
  rw [mem_manifestIf member]
  refine ⟨⟨rfl,?_⟩,?_⟩
  · intro e entry
    obtain ⟨f,inside,rfl⟩ := mem_map.mp entry
    exact content f inside
  · intro e entry _
    obtain ⟨f,inside,rfl⟩ := mem_map.mp entry
    exact own f inside

theorem survivingManifest_rows (own : ∀ f ∈ files, f.dataFile.firstRowId.isSome ∨ f.dataFile.rows = []) :
    (manifestIf files (writeExistingManifest t path .data specId files)).flatMap manifestRows =
      files.flatMap fun f => fileRows f.dataFile f.dataFile.firstRowId := by
  rw [manifestIf]
  split
  · rename_i empty
    rw [isEmpty_iff.mp empty]
    rfl
  · have fixed : ∀ e ∈ (writeExistingManifest t path .data specId files).entries, Fixed e := by
      intro e entry _
      obtain ⟨f,inside,rfl⟩ := mem_map.mp entry
      exact own f inside
    have alive : (writeExistingManifest t path .data specId files).entries.filter
        isAlive = (writeExistingManifest t path .data specId files).entries := by
      rw [filter_eq_self]
      intro e entry
      obtain ⟨f,_,rfl⟩ := mem_map.mp entry
      rfl
    rw [flatMap_singleton, manifestRows, rowsFrom_fixed fixed, alive, writeExistingManifest, flatMap_map]

theorem rowsWith_eq_zero {m : ManifestFile}
    (empty : ∀ e ∈ m.entries, e.status = status → e.dataFile.rows = []) : m.rowsWith status = 0 := by
  rw [ManifestFile.rowsWith, List.sum_eq_zero_iff_forall_eq_nat]
  intro n inside
  obtain ⟨e,entry,rfl⟩ := mem_map.mp inside
  obtain ⟨member,same⟩ := mem_filter.mp entry
  rw [DataFile.recordCount, empty e member (of_decide_eq_true same)]
  rfl

theorem survivingManifest_idle (empty : ∀ f ∈ files, f.dataFile.rows = []) :
    ∀ x ∈ manifestIf files (writeExistingManifest t path .data specId files),
      x.existingRowsCount + x.addedRowsCount = 0 := by
  intro x member
  have none' : ∀ status, (writeExistingManifest t path .data specId files).rowsWith status = 0 := by
    intro status
    apply rowsWith_eq_zero
    intro e entry _
    obtain ⟨f,file,rfl⟩ := mem_map.mp entry
    exact empty f file
  rw [mem_manifestIf member, ManifestFile.existingRowsCount, ManifestFile.addedRowsCount, none', none']

theorem deletedManifest_data (content : ∀ f ∈ files, f.dataFile.content = .data) :
    ∀ x ∈ manifestIf files (writeDeletedManifest t path .data specId files),
      ((x.content = .data ∧ ∀ e ∈ x.entries, e.dataFile.content = .data) ∧ ∀ e ∈ x.entries, Fixed e) ∧
        x.existingRowsCount + x.addedRowsCount = 0 ∧ manifestRows x = [] := by
  intro x member
  rw [mem_manifestIf member]
  have dead : ∀ e ∈ (writeDeletedManifest t path .data specId files).entries,
      e.status = .deleted := by
    intro e entry
    obtain ⟨f,_,rfl⟩ := mem_map.mp entry
    rfl
  have fixed : ∀ e ∈ (writeDeletedManifest t path .data specId files).entries, Fixed e := by
    intro e entry alive
    simp [isAlive, dead e entry] at alive
  refine ⟨⟨⟨rfl,?_⟩,fixed⟩,?_,?_⟩
  · intro e entry
    obtain ⟨f,inside,rfl⟩ := mem_map.mp entry
    exact content f inside
  · have none' : ∀ status, status ≠ .deleted →
        (writeDeletedManifest t path .data specId files).rowsWith status = 0 := by
      intro status other
      exact rowsWith_eq_zero fun e entry same => absurd (same.symm.trans (dead e entry)) other
    rw [ManifestFile.existingRowsCount, ManifestFile.addedRowsCount, none' _ (by decide),
      none' _ (by decide)]
  · rw [manifestRows, rowsFrom_fixed fixed]
    have none' : (writeDeletedManifest t path .data specId files).entries.filter
        isAlive = [] := by
      rw [filter_eq_nil_iff]
      intro e entry
      simp [isAlive, dead e entry]
    rw [none']
    rfl

end

theorem harmless_next (harmless : (LineageCommit.overwritePartitions a).Harmless m)
    (base : ∀ x ∈ m.currentManifests, DataManifest x) {written : List ManifestFile}
    (done : addManifests (some m.nextRowId)
      (manifestIf ((liveFilesOf .data m.currentManifests).filter fun f => !a.touches f)
          (writeExistingManifest t path .data a.partitionSpecId
            ((liveFilesOf .data m.currentManifests).filter fun f => !a.touches f)) ++
        manifestIf ((liveFilesOf .data m.currentManifests).filter a.touches)
          (writeDeletedManifest t path' .data a.partitionSpecId
            ((liveFilesOf .data m.currentManifests).filter a.touches))) = .ok (last, written)) :
    (∀ x ∈ written, DataManifest x) ∧
      written.flatMap manifestRows = (LineageCommit.overwritePartitions a).survivors m ∧
      ∃ n, last = some n ∧ (n = m.nextRowId ∨ recordsOf a.written = 0) := by
  have content := liveFilesOf_content base
  have own : ∀ f ∈ liveFilesOf .data m.currentManifests, !a.touches f →
      f.dataFile.firstRowId.isSome ∨ f.dataFile.rows = [] := by
    intro f member apart
    rcases harmless with empty | ⟨_,numbered⟩
    · exact .inr (empty f member apart)
    · exact numbered f member apart
  have kept := survivingManifest_data (t := t) path a.partitionSpecId
    (fun f member => content f (mem_filter.mp member).1)
    (fun f member => own f (mem_filter.mp member).1 (mem_filter.mp member).2)
  have removed := deletedManifest_data (t := t) path' a.partitionSpecId
    fun f (member : f ∈ filter a.touches _) => content f (mem_filter.mp member).1
  have all := forall_mem_append.mpr ⟨kept,fun x gone => (removed x gone).1⟩
  obtain ⟨data,rows⟩ := addManifests_data (fun x member => (all x member).1) done
  refine ⟨data,?_,?_⟩
  · have none' := flatMap_eq_nil_iff.mpr fun x gone => (removed x gone).2.2
    rw [rows fun x member => .inr (all x member).2, flatMap_append, none', append_nil,
      survivingManifest_rows _ _ fun f member => own f (mem_filter.mp member).1 (mem_filter.mp member).2]
    exact (buildReadSnapshot_outside base own).symm
  · obtain ⟨n,here,unmoved⟩ := addManifests_last (fun x member => (all x member).1.1) done
    refine ⟨n,here,?_⟩
    rcases harmless with empty | ⟨none',_⟩
    · have noRows := survivingManifest_idle (t := t) path a.partitionSpecId fun f member =>
        empty f (mem_filter.mp member).1 (mem_filter.mp member).2
      exact .inl (unmoved (forall_mem_append.mpr ⟨noRows,fun x gone => (removed x gone).2.1⟩))
    · exact .inr none'

theorem Lineage.overwritePartitions (lineage : Lineage m)
    (staged : (LineageCommit.overwritePartitions a).Staged m)
    (harmless : (LineageCommit.overwritePartitions a).Harmless m)
    (done : (LineageCommit.overwritePartitions a).run t m = .ok after) :
    Lineage after ∧ ∀ r ∈ (LineageCommit.overwritePartitions a).survivors m,
      r ∈ liveRows ((LineageCommit.overwritePartitions a).result after) := by
  obtain ⟨first,fresh⟩ := staged
  obtain ⟨commit,ran,applied⟩ := attempt_ok done
  obtain ⟨_,next,manifests,path,added,wrote,new,rfl⟩ := OverwritePartitions.commit_ok ran
  obtain ⟨_,set⟩ := committed applied
  obtain ⟨base,ids⟩ := lineage.current
  have none' : ∀ x : ManifestFile, manifestIf [] x = [] := fun _ => rfl
  rw [lineage.version, writeManifestList, first, liveFilesOf_deletes base, filter_nil,
    filter_nil, none', none', append_nil, append_nil] at wrote
  obtain ⟨mid,old,listed,rfl,wroteOld,wroteAdded⟩ := addManifests_append_ok wrote
  obtain ⟨oldData,oldRows,n,rfl,place⟩ := harmless_next harmless base wroteOld
  obtain ⟨newData,newRows⟩ := addManifests_added fresh new wroteAdded
  have numbers : (listed.flatMap manifestRows).map rowId =
      (range' m.nextRowId (recordsOf a.written)).map some := by
    rcases place with same | empty
    · rw [newRows, same]
    · rw [newRows, empty]
      rfl
  have all : ∀ x ∈ old ++ listed, DataManifest x := forall_mem_append.mpr ⟨oldData,newData⟩
  have rows := liveRows_eq all
  rw [flatMap_append, oldRows] at rows
  have sub : ((LineageCommit.overwritePartitions a).survivors m).Sublist
      (liveRows m.currentManifests) := filter_sublist.flatMap _
  constructor
  · exact lineage.commit set rfl all (numbered_append ids sub numbers rows)
  · intro r member
    rw [LineageCommit.result, headManifests_committed set, rows]
    exact mem_append_left _ member

end

theorem Lineage.step {m after : TableMetadata} (lineage : Lineage m) {c : LineageCommit}
    (staged : c.Staged m) (harmless : c.Harmless m) (done : c.run t m = .ok after) :
    Lineage after ∧ ∀ r ∈ c.survivors m, r ∈ liveRows (c.result after) := by
  cases c with
  | append a => exact lineage.append staged done
  | overwritePartitions a => exact lineage.overwritePartitions staged harmless done
  | rewriteManifests uuid => exact lineage.rewriteManifests done

theorem LineageReached.lineage (reached : LineageReached m) : Lineage m := by
  induction reached with
  | empty version none' => exact ⟨version,by simp [none'],by simp [none']⟩
  | step before staged harmless done ih => exact (ih.step staged harmless done).1

/-- Along harmless commits every snapshot is numbered below the table's next row
id, and the next harmless commit leaves the ids of surviving rows alone. -/
theorem row_lineage {m : TableMetadata} (reached : LineageReached m) :
    (∀ s ∈ m.snapshots, Numbered m.nextRowId s.manifests) ∧
      ∀ (t : Stamp) (c : LineageCommit) (after : TableMetadata), c.Staged m → c.Harmless m →
        c.run t m = .ok after → ∀ r ∈ c.survivors m, r ∈ liveRows (c.result after) := by
  constructor
  · exact reached.lineage.numbered
  · intro t c after staged harmless done
    exact (reached.lineage.step staged harmless done).2

def regionsTable : TableMetadata :=
  ⟨.v3, "regions", 0, 0, [0], 0, 0, none, [], []⟩

def regionFile (path : String) (region : Int) (ids : List Int) : WrittenFile :=
  ⟨DataFile.ofRows path [.int region] (ids.map fun i => ⟨[.int i], none⟩), 0⟩

def firstRegions : LineageCommit :=
  .append ⟨[regionFile "east" 1 [10, 11], regionFile "west" 2 [20]], 0, 0, "main"⟩

def bothRegions : LineageCommit :=
  .overwritePartitions ⟨[regionFile "east-2" 1 [12], regionFile "west-2" 2 [21]], 0, 3, "main"⟩

def westRegion : LineageCommit :=
  .overwritePartitions ⟨[regionFile "west-2" 2 [21]], 0, 3, "main"⟩

theorem regionFile_unnumbered (path : String) (region : Int) (ids : List Int) :
    Unnumbered (regionFile path region ids).file := by
  refine ⟨rfl,rfl,?_⟩
  intro r member
  obtain ⟨i,_,rfl⟩ := mem_map.mp member
  rfl

def onceRegions : TableMetadata :=
  (firstRegions.run ⟨"a", 1, 0⟩ regionsTable).toOption.getD regionsTable

theorem row_lineage_regions :
    ∃ twice, firstRegions.run ⟨"a", 1, 0⟩ regionsTable = .ok onceRegions ∧
      bothRegions.run ⟨"b", 2, 0⟩ onceRegions = .ok twice ∧
      (∀ s ∈ twice.snapshots, Numbered twice.nextRowId s.manifests) ∧
      ∀ r ∈ bothRegions.survivors onceRegions, r ∈ liveRows (bothRegions.result twice) := by
  have first : firstRegions.run ⟨"a",1,0⟩ regionsTable = .ok onceRegions := rfl
  have start : LineageReached regionsTable := .empty rfl rfl
  have staged : firstRegions.Staged regionsTable := ⟨rfl,by simp [regionFile_unnumbered]⟩
  have reached := start.step staged trivial first
  have stagedBoth : bothRegions.Staged onceRegions := ⟨rfl,by simp [regionFile_unnumbered]⟩
  have harmless : bothRegions.Harmless onceRegions := .inl (by decide)
  obtain ⟨twice,second⟩ : ∃ twice, bothRegions.run ⟨"b",2,0⟩ onceRegions = .ok twice := ⟨_,rfl⟩
  exact ⟨twice,first,second,(row_lineage (reached.step stagedBoth harmless second)).1,
    (row_lineage reached).2 _ _ _ stagedBoth harmless second⟩

/-- Overwriting region 2 alone renumbers the rows of region 1, and the table's
next row id is one that a live row already has. -/
theorem west_overwrite_renumbers_east :
    ∃ twice, firstRegions.run ⟨"a", 1, 0⟩ regionsTable = .ok onceRegions ∧
      westRegion.run ⟨"b", 2, 0⟩ onceRegions = .ok twice ∧
      (liveRows onceRegions.currentManifests).map (fun r => (r.path, r.rowId)) =
        [("east", some 0), ("east", some 1), ("west", some 2)] ∧
      (liveRows twice.currentManifests).map (fun r => (r.path, r.rowId)) =
        [("east", some 3), ("east", some 4), ("west-2", some 5)] ∧
      twice.nextRowId = 4 := by
  refine ⟨_,rfl,rfl,?_,?_,?_⟩
  · decide
  · decide
  · decide

end NovaRocks.Iceberg
