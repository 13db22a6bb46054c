import NovaRocks.Store.Listed
import NovaRocks.Lake.TxnLog

/-!
Publishing a transaction log on a primary-key tablet. Rows stay in their segments
for good; an upsert or a delete marks the row that a key had before in the delete
vector of its segment. The index of visible keys is built from the metadata, all
upserts of the log are inserted into it and then all delete keys are removed.
-/
namespace NovaRocks.Lake
open NovaRocks.Store List
open Prod (fst snd)
open Function (update update_of_ne update_self)

structure Rowset where
  id : Nat
  segments : List Segment

structure SegmentRowRef where
  segmentId : Nat
  rowId : Nat
  deriving DecidableEq

def Rowset.placed (r : Rowset) : List (Nat × Segment) :=
  r.segments.zipIdx.map fun (x, idx) => (r.id + idx, x)

def rowRefs (placed : List (Nat × Segment)) : List (SegmentRowRef × Tuple) :=
  placed.flatMap fun (id, x) => x.rows.zipIdx.map fun (row, idx) => (⟨id, idx⟩, row)

structure TabletMetadata where
  rowsets : List Rowset
  nextRowsetId : Option Nat
  /-- Deleted row ids of a segment. -/
  delvec : Nat → List Nat

namespace TabletMetadata

def placed (t : TabletMetadata) : List (Nat × Segment) :=
  t.rowsets.flatMap Rowset.placed

def newRowsetId (t : TabletMetadata) : Nat :=
  t.nextRowsetId.getD ((t.rowsets.map Rowset.id).foldl max 0 + 1)

def deleted (t : TabletMetadata) (r : SegmentRowRef) : Bool :=
  (t.delvec r.segmentId).contains r.rowId

def visible (t : TabletMetadata) : List (SegmentRowRef × Tuple) :=
  (rowRefs t.placed).filter fun p => !t.deleted p.1

def visibleRows (t : TabletMetadata) : List Tuple :=
  t.visible.map snd

end TabletMetadata

/-- Keys are encoded to bytes one by one; a NULL has no encoding. -/
def encodePrimaryKeys (s : TabletSchema) (refs : List (SegmentRowRef × Tuple)) :
    Except String (List (SegmentRowRef × Tuple)) :=
  if refs.any fun p => (s.keyOf p.2).contains .null then .error "primary key row contains NULL value"
  else .ok (refs.map fun p => (p.1, s.keyOf p.2))

/-- The index while a log is applied, and the rows that have lost their key. -/
structure KeyIndex where
  index : Tuple → Option SegmentRowRef
  changed : List SegmentRowRef

namespace KeyIndex

def insert (x : KeyIndex) (p : SegmentRowRef × Tuple) : KeyIndex :=
  ⟨update x.index p.2 (some p.1), x.changed ++ (x.index p.2).toList⟩

def remove (x : KeyIndex) (key : Tuple) : KeyIndex :=
  ⟨update x.index key none, x.changed ++ (x.index key).toList⟩

end KeyIndex

def buildVisiblePrimaryKeyIndex (s : TabletSchema) (t : TabletMetadata) : Except String KeyIndex := do
  let keys ← encodePrimaryKeys s (rowRefs t.placed)
  return ⟨(keys.filter fun p => !t.deleted p.1).foldl
    (fun index p => update index p.2 (some p.1)) fun _ => none, []⟩

def applyPrimaryKeyWriteLogToMetadata (s : TabletSchema) (t : TabletMetadata) (log : OpWrite) :
    Except String TabletMetadata :=
  match log.rowset with
  | none =>
    if log.dels.isEmpty then .ok t
    else .error "primary key publish requires op_write.rowset when op_write.dels is non-empty"
  | some segments =>
    if (segments.flatMap Segment.rows).isEmpty && log.dels.isEmpty then .ok t
    else do
      let rowset : Rowset := ⟨t.newRowsetId, segments⟩
      let visibleIndex ← buildVisiblePrimaryKeyIndex s t
      let newKeys ← encodePrimaryKeys s (rowRefs rowset.placed)
      let inserted := newKeys.foldl KeyIndex.insert visibleIndex
      let final := log.deletes.foldl KeyIndex.remove inserted
      return ⟨t.rowsets ++ [rowset], some (rowset.id + max 1 segments.length),
        fun id => t.delvec id ++ ((final.changed.filter fun r => r.segmentId = id).map
          SegmentRowRef.rowId)⟩

/-! The index against the map from keys to rows. -/

/-- The index refers, among the rows seen so far, to the one each key has in `m`;
all others have lost their key. -/
structure Tracks (s : TabletSchema) (seen : List (SegmentRowRef × Tuple)) (x : KeyIndex)
    (m : Tuple → Option Tuple) : Prop where
  distinct : (seen.map fst).Nodup
  index : ∀ k r, x.index k = some r ↔ ∃ row, (r, row) ∈ seen ∧ s.keyOf row = k ∧ r ∉ x.changed
  changed : ∀ r ∈ x.changed, r ∈ seen.map fst
  rows : ∀ k row, m k = some row ↔ ∃ r, x.index k = some r ∧ (r, row) ∈ seen

namespace Tracks
variable (tracks : Tracks s seen x m)

include tracks in
theorem row_unique (first : (r, row) ∈ seen) (second : (r, row') ∈ seen) : row = row' :=
  (Prod.mk.inj (inj_on_of_nodup_map tracks.distinct first second rfl)).2

include tracks in
theorem mem_of_index (found : x.index k = some r) : r ∈ seen.map fst := by
  obtain ⟨row,member,_⟩ := (tracks.index k r).mp found
  exact mem_map_of_mem member

include tracks in
theorem not_under_other
    (other : k ≠ k') (member : (r, row) ∈ seen) (own : s.keyOf row = k) : r ∉ (x.index k').toList := by
  intro lost
  obtain ⟨row',member',own',_⟩ := (tracks.index k' r).mp (Option.mem_toList.mp lost)
  rw [tracks.row_unique member' member, own] at own'
  exact other own'

include tracks in
theorem remove (key : Tuple) : Tracks s seen (x.remove key) (dropKey m key) where
  distinct := tracks.distinct
  index k r := by
    simp only [KeyIndex.remove, mem_append, not_or]
    by_cases same : k = key
    · subst same
      rw [update_self]
      constructor
      · intro none'
        cases none'
      · rintro ⟨row,member,own,kept,notLost⟩
        exact (notLost (Option.mem_toList.mpr ((tracks.index k r).mpr ⟨row,member,own,kept⟩))).elim
    · rw [update_of_ne same, tracks.index]
      constructor
      · rintro ⟨row,member,own,kept⟩
        exact ⟨row,member,own,kept,tracks.not_under_other same member own⟩
      · rintro ⟨row,member,own,kept,_⟩
        exact ⟨row,member,own,kept⟩
  changed := forall_mem_append.mpr
    ⟨tracks.changed,fun _ lost => tracks.mem_of_index (Option.mem_toList.mp lost)⟩
  rows k row := by
    simp only [KeyIndex.remove, dropKey]
    by_cases same : k = key
    · subst same
      simp [update_self]
    · rw [update_of_ne same, update_of_ne same]
      exact tracks.rows k row

include tracks in
theorem insert (row : Tuple) (fresh : r ∉ seen.map fst) :
    Tracks s (seen ++ [(r, row)]) (x.insert (r, s.keyOf row)) (put s.keyOf m row) where
  distinct := by
    rw [map_append, map_singleton, ← concat_eq_append]
    exact tracks.distinct.concat fresh
  index k r' := by
    simp only [KeyIndex.insert, mem_append, not_or, mem_singleton]
    have ownKept : r ∉ x.changed := fun old => fresh (tracks.changed r old)
    have ownNotLost : r ∉ (x.index (s.keyOf row)).toList := fun lost =>
      fresh (tracks.mem_of_index (Option.mem_toList.mp lost))
    by_cases same : k = s.keyOf row
    · subst same
      rw [update_self]
      constructor
      · intro found
        cases found
        exact ⟨row,.inr rfl,rfl,ownKept,ownNotLost⟩
      · rintro ⟨row',member | new,own,kept,notLost⟩
        · exact (notLost (Option.mem_toList.mpr ((tracks.index _ r').mpr
            ⟨row',member,own,kept⟩))).elim
        · rw [(Prod.mk.inj new).1]
    · rw [update_of_ne same, tracks.index]
      constructor
      · rintro ⟨row',member,own,kept⟩
        exact ⟨row',.inl member,own,kept,tracks.not_under_other same member own⟩
      · rintro ⟨row',member | new,own,kept,_⟩
        · exact ⟨row',member,own,kept⟩
        · rw [(Prod.mk.inj new).2] at own
          exact (same own.symm).elim
  changed r' member := by
    rw [map_append]
    exact mem_append_left _ ((tracks.remove (s.keyOf row)).changed r' member)
  rows k row' := by
    simp only [KeyIndex.insert, put, mem_append, mem_singleton]
    by_cases same : k = s.keyOf row
    · subst same
      rw [update_self, update_self]
      constructor
      · intro found
        cases found
        exact ⟨r,rfl,.inr rfl⟩
      · rintro ⟨r',found,old | new⟩
        · cases found
          exact (fresh (mem_map_of_mem old)).elim
        · rw [(Prod.mk.inj new).2]
    · rw [update_of_ne same, update_of_ne same, tracks.rows]
      constructor
      · rintro ⟨r',found,member⟩
        exact ⟨r',found,.inl member⟩
      · rintro ⟨r',found,old | new⟩
        · exact ⟨r',found,old⟩
        · rw [(Prod.mk.inj new).1] at found
          exact (fresh (tracks.mem_of_index found)).elim

include tracks in
theorem removeAll (keys : List Tuple) : Tracks s seen (keys.foldl KeyIndex.remove x) (dropAll m keys) := by
  induction keys generalizing x m with
  | nil => exact tracks
  | cons key rest ih => exact ih (tracks.remove key)

include tracks in
theorem insertAll (distinct : ((seen ++ new).map fst).Nodup) :
    Tracks s (seen ++ new) ((new.map fun p => (p.1, s.keyOf p.2)).foldl KeyIndex.insert x)
      (putAll s.keyOf m (new.map snd)) := by
  induction new generalizing seen x m with
  | nil => simpa [putAll] using tracks
  | cons p rest ih =>
    obtain ⟨r,row⟩ := p
    have fresh : r ∉ seen.map fst := by
      intro known
      rw [map_append, nodup_append] at distinct
      exact distinct.2.2 r known r (by simp) rfl
    rw [append_cons] at distinct ⊢
    exact ih (tracks.insert row fresh) distinct

end Tracks

/-! Tablets in good order, and what they hold. -/

/-- Segment ids are taken once, from below the next rowset id. -/
structure TabletMetadata.WellFormed (t : TabletMetadata) : Prop where
  distinct : (t.placed.map fst).Nodup
  bounded : ∀ p ∈ t.placed, p.1 < t.newRowsetId
  clean : ∀ id, t.newRowsetId ≤ id → t.delvec id = []

/-- No two visible rows lie in one place, and the places from the next rowset id on
are free: no visible row lies there and none is marked as deleted. -/
structure TabletMetadata.Apart (t : TabletMetadata) : Prop where
  distinct : (t.visible.map fst).Nodup
  bounded : ∀ p ∈ t.visible, p.1.segmentId < t.newRowsetId
  clean : ∀ id, t.newRowsetId ≤ id → t.delvec id = []

abbrev Holds (s : TabletSchema) (t : TabletMetadata) (m : Tuple → Option Tuple) : Prop :=
  Listed s.keyOf t.visibleRows m

variable {t : TabletMetadata}

theorem Holds.visible_keyed (holds : Holds s t m) : (t.visible.map fun p => s.keyOf p.2).Nodup := by
  have keyed := holds.keyed
  rwa [TabletMetadata.visibleRows, map_map] at keyed

theorem rowRefs_append (as bs : List (Nat × Segment)) : rowRefs (as ++ bs) = rowRefs as ++ rowRefs bs :=
  flatMap_append

theorem rowRefs_rows (placed : List (Nat × Segment)) :
    (rowRefs placed).map snd = placed.flatMap fun p => p.2.rows := by
  rw [rowRefs, map_flatMap]
  apply flatMap_congr
  intro p _
  rw [map_map]
  exact zipIdx_map_fst 0 p.2.rows

theorem mem_rowRefs (member : p ∈ rowRefs placed) : p.1.segmentId ∈ placed.map fst := by
  obtain ⟨⟨id,x⟩,inside,listed⟩ := mem_flatMap.mp member
  obtain ⟨_,_,rfl⟩ := mem_map.mp listed
  exact mem_map_of_mem inside

theorem rowRefs_distinct (distinct : (placed.map fst).Nodup) : ((rowRefs placed).map fst).Nodup := by
  have refs : (rowRefs placed).map fst =
      placed.flatMap fun p => (range' 0 p.2.rows.length).map (SegmentRowRef.mk p.1) := by
    rw [rowRefs, map_flatMap]
    apply flatMap_congr
    intro p _
    rw [← zipIdx_map_snd, map_map, map_map]
    rfl
  rw [refs, nodup_flatMap]
  constructor
  · exact fun p _ => Nodup.map (fun _ _ same => (SegmentRowRef.mk.inj same).2) nodup_range'
  · refine (pairwise_map.mp distinct).imp fun other r inFirst inSecond => other ?_
    obtain ⟨_,_,rfl⟩ := mem_map.mp inFirst
    obtain ⟨_,_,same⟩ := mem_map.mp inSecond
    exact (SegmentRowRef.mk.inj same).1.symm

theorem TabletMetadata.WellFormed.apart (wf : t.WellFormed) : t.Apart where
  distinct := (rowRefs_distinct wf.distinct).sublist (filter_sublist.map _)
  bounded p member := by
    obtain ⟨q,inside,own⟩ := mem_map.mp (mem_rowRefs (mem_filter.mp member).1)
    rw [← own]
    exact wf.bounded q inside
  clean := wf.clean

theorem Rowset.placed_ids (r : Rowset) : r.placed.map fst = (range' 0 r.segments.length).map (r.id + ·) := by
  rw [Rowset.placed, map_map, ← zipIdx_map_snd 0 r.segments, map_map]
  rfl

open Rowset (mk placed_ids)

theorem Rowset.placed_rows (r : Rowset) :
    (r.placed.flatMap fun p => p.2.rows) = r.segments.flatMap Segment.rows := by
  have segments : r.placed.map snd = r.segments := by
    rw [Rowset.placed, map_map]
    exact zipIdx_map_fst 0 r.segments
  rw [← segments, flatMap_map]

theorem encodePrimaryKeys_ok {refs keys : List (SegmentRowRef × Tuple)}
    (done : encodePrimaryKeys s refs = .ok keys) : keys = refs.map fun p => (p.1, s.keyOf p.2) := by
  unfold encodePrimaryKeys at done
  split at done
  · cases done
  · cases done
    rfl

theorem encodePrimaryKeys_isOk (encodes : ∀ p ∈ refs, Value.null ∉ s.keyOf p.2) :
    encodePrimaryKeys s refs = .ok (refs.map fun p => (p.1, s.keyOf p.2)) := by
  unfold encodePrimaryKeys
  rw [if_neg]
  rw [Bool.not_eq_true, any_eq_false]
  intro p member
  rw [contains_eq_mem, decide_eq_true_eq]
  exact encodes p member

theorem rowRefs_encode {s : TabletSchema} (first : Nat)
    (encodes : ∀ row ∈ segments.flatMap Segment.rows, Value.null ∉ s.keyOf row) :
    ∀ p ∈ rowRefs (mk first segments).placed, Value.null ∉ s.keyOf p.2 := by
  intro p member
  apply encodes
  have listed := mem_map_of_mem (f := snd) member
  rwa [rowRefs_rows, Rowset.placed_rows] at listed

theorem built_index (holds : Holds s t m) (built : buildVisiblePrimaryKeyIndex s t = .ok x) :
    x.changed = [] ∧ ∀ k r, x.index k = some r ↔ ∃ row, (r, row) ∈ t.visible ∧ s.keyOf row = k := by
  obtain ⟨keys,encoded,last⟩ := bind_ok built
  cases last
  rw [encodePrimaryKeys_ok encoded]
  have index : ∀ (seen : List (SegmentRowRef × Tuple)) (start : Tuple → Option SegmentRowRef) (k : Tuple),
      (seen.map fun p => (p.1, s.keyOf p.2)).foldl
        (fun (index : Tuple → Option SegmentRowRef) p => update index p.2 (some p.1)) start k =
        ((lastValue (fun p => s.keyOf p.2) seen k).map fst).or (start k) := by
    intro seen
    induction seen with
    | nil => exact fun _ _ => rfl
    | cons p rest ih =>
      intro start k
      rw [map_cons, foldl_cons, ih, lastValue_cons]
      cases lastValue (fun p => s.keyOf p.2) rest k with
      | some q => rfl
      | none =>
        by_cases same : s.keyOf p.2 = k
        · simp [same]
        · simp [same, update_of_ne (Ne.symm same)]
  have filtered : ((rowRefs t.placed).map fun p => (p.1, s.keyOf p.2)).filter
      (fun p => !t.deleted p.1) = t.visible.map fun p => (p.1, s.keyOf p.2) := by
    rw [filter_map]
    rfl
  refine ⟨rfl,?_⟩
  intro k r
  rw [filtered]
  dsimp only
  rw [index, Option.or_none, Option.map_eq_some_iff]
  constructor
  · rintro ⟨⟨r',row⟩,last,rfl⟩
    exact ⟨row,lastValue_mem last⟩
  · rintro ⟨row,member,own⟩
    obtain ⟨q,last⟩ := lastValue_isSome (fun p : SegmentRowRef × Tuple => s.keyOf p.2) member own
    obtain ⟨inside,own'⟩ := lastValue_mem last
    have same := inj_on_of_nodup_map holds.visible_keyed inside member (by rw [own', own])
    exact ⟨q,last,by rw [same]⟩

theorem tracks_built (distinct : (t.visible.map fst).Nodup) (holds : Holds s t m)
    (built : buildVisiblePrimaryKeyIndex s t = .ok x) : Tracks s t.visible x m := by
  obtain ⟨unchanged,found⟩ := built_index holds built
  refine ⟨distinct,?_,by simp [unchanged],?_⟩
  · intro k r
    simp [found, unchanged]
  · intro k row
    simp only [found]
    constructor
    · intro held
      have own := holds.own k row held
      subst own
      obtain ⟨⟨r,row'⟩,member,same⟩ := mem_map.mp ((holds.mem row).mpr held)
      cases same
      exact ⟨r,⟨_,member,rfl⟩,member⟩
    · rintro ⟨r,⟨row',member',own⟩,member⟩
      have same := (Prod.mk.inj (inj_on_of_nodup_map distinct member' member rfl)).2
      subst same
      subst own
      exact (holds.mem row').mp (mem_map.mpr ⟨_,member,rfl⟩)

def published (t : TabletMetadata) (segments : List Segment) (changed : List SegmentRowRef) :
    TabletMetadata :=
  ⟨t.rowsets ++ [⟨t.newRowsetId, segments⟩], some (t.newRowsetId + max 1 segments.length),
    fun id => t.delvec id ++ ((changed.filter fun r => r.segmentId = id).map SegmentRowRef.rowId)⟩

theorem applyPrimaryKeyWriteLogToMetadata_ok (done : applyPrimaryKeyWriteLogToMetadata s t log = .ok t') :
    (t' = t ∧ log.upserts = [] ∧ log.deletes = []) ∨
    ∃ segments x, log.rowset = some segments ∧ buildVisiblePrimaryKeyIndex s t = .ok x ∧
      t' = published t segments (log.deletes.foldl KeyIndex.remove
        (((rowRefs (mk t.newRowsetId segments).placed).map fun p => (p.1, s.keyOf p.2)).foldl
          KeyIndex.insert x)).changed := by
  unfold applyPrimaryKeyWriteLogToMetadata at done
  have noDeletes : log.dels = [] → log.deletes = [] := by
    intro empty
    rw [OpWrite.deletes, empty]
    rfl
  cases logged : log.rowset with
  | none =>
    rw [logged] at done
    dsimp only at done
    split at done
    · rename_i empty
      cases done
      exact .inl ⟨rfl,by simp [OpWrite.upserts, logged],noDeletes (by simpa using empty)⟩
    · cases done
  | some segments =>
    rw [logged] at done
    dsimp only at done
    split at done
    · rename_i nothing
      rw [Bool.and_eq_true, List.isEmpty_iff, List.isEmpty_iff] at nothing
      cases done
      exact .inl ⟨rfl,by simp only [OpWrite.upserts, logged, Option.getD_some, nothing.1],
        noDeletes nothing.2⟩
    · obtain ⟨x,built,rest⟩ := bind_ok done
      obtain ⟨newKeys,encoded,last⟩ := bind_ok rest
      cases last
      rw [encodePrimaryKeys_ok encoded]
      exact .inr ⟨segments,x,rfl,built,rfl⟩

section
theorem published_placed :
    (published t segments changed).placed = t.placed ++ (mk t.newRowsetId segments).placed := by
  simp [published, TabletMetadata.placed]

theorem published_deleted (r : SegmentRowRef) :
    (published t segments changed).deleted r ↔ t.deleted r ∨ r ∈ changed := by
  simp only [published, TabletMetadata.deleted, contains_eq_mem, mem_append, mem_map,
    mem_filter, decide_eq_true_eq]
  constructor
  · rintro (old | ⟨c,⟨member,seg⟩,row⟩)
    · exact .inl old
    · right
      cases c
      cases seg
      cases row
      exact member
  · rintro (old | new)
    · exact .inl old
    · exact .inr ⟨r,⟨new,rfl⟩,rfl⟩

theorem new_ids (member : p ∈ (mk t.newRowsetId segments).placed) :
    t.newRowsetId ≤ p.1 ∧ p.1 < t.newRowsetId + max 1 segments.length := by
  have id := mem_map_of_mem (f := fst) member
  rw [placed_ids] at id
  obtain ⟨idx,range,same⟩ := mem_map.mp id
  rw [mem_range'_1] at range
  dsimp only at range same
  omega

theorem Rowset.placed_distinct (r : Rowset) : (r.placed.map fst).Nodup := by
  rw [placed_ids]
  apply Nodup.map _ nodup_range'
  intro a b same
  exact Nat.add_left_cancel same

theorem published_distinct (wf : t.WellFormed) : ((published t segments changed).placed.map fst).Nodup := by
  rw [published_placed, map_append, nodup_append]
  refine ⟨wf.distinct,Rowset.placed_distinct _,?_⟩
  · rintro a old b new rfl
    obtain ⟨p,oldMember,rfl⟩ := mem_map.mp old
    obtain ⟨q,newMember,same⟩ := mem_map.mp new
    have below := wf.bounded p oldMember
    have above := (new_ids newMember).1
    omega

theorem seen_distinct (apart : t.Apart) :
    ((t.visible ++ rowRefs (mk t.newRowsetId segments).placed).map fst).Nodup := by
  rw [map_append, nodup_append]
  refine ⟨apart.distinct,rowRefs_distinct (Rowset.placed_distinct _),?_⟩
  rintro a old b new rfl
  obtain ⟨p,oldMember,rfl⟩ := mem_map.mp old
  obtain ⟨q,newMember,same⟩ := mem_map.mp new
  obtain ⟨r,inside,own⟩ := mem_map.mp (mem_rowRefs newMember)
  have below := apart.bounded p oldMember
  have above := (new_ids inside).1
  rw [same] at own
  omega

theorem published_visible_sublist :
    (published t segments changed).visible.Sublist
      (t.visible ++ rowRefs (mk t.newRowsetId segments).placed) := by
  have hidden : ∀ r, (!(published t segments changed).deleted r) = true → (!t.deleted r) = true := by
    intro r kept
    rw [Bool.not_eq_true', ← Bool.not_eq_true, published_deleted, not_or] at kept
    simpa using kept.1
  rw [TabletMetadata.visible, published_placed, rowRefs_append, filter_append]
  have old : ((rowRefs t.placed).filter fun p => !(published t segments changed).deleted p.1).Sublist
      t.visible := monotone_filter_right _ fun p kept => hidden p.1 kept
  exact old.append filter_sublist

theorem mem_published_visible (apart : t.Apart) :
    p ∈ (published t segments changed).visible ↔
      p ∈ t.visible ++ rowRefs (mk t.newRowsetId segments).placed ∧ p.1 ∉ changed := by
  have kept : ∀ r, (!(published t segments changed).deleted r) = true ↔
      t.deleted r = false ∧ r ∉ changed := by
    intro r
    rw [Bool.not_eq_true', ← Bool.not_eq_true, published_deleted, not_or, Bool.not_eq_true]
  have fresh : p ∈ rowRefs (mk t.newRowsetId segments).placed → t.deleted p.1 = false := by
    intro member
    obtain ⟨q,inside,same⟩ := mem_map.mp (mem_rowRefs member)
    have above := (new_ids inside).1
    rw [same] at above
    simp [TabletMetadata.deleted, apart.clean _ above]
  rw [TabletMetadata.visible, mem_filter, published_placed, rowRefs_append, kept, mem_append,
    mem_append, TabletMetadata.visible, mem_filter, Bool.not_eq_true']
  constructor
  · rintro ⟨old | new,alive,own⟩
    · exact ⟨.inl ⟨old,alive⟩,own⟩
    · exact ⟨.inr new,own⟩
  · rintro ⟨⟨old,alive⟩ | new,own⟩
    · exact ⟨.inl old,alive,own⟩
    · exact ⟨.inr new,fresh new,own⟩

theorem published_wellFormed (wf : t.WellFormed)
    (within : ∀ r ∈ changed, r ∈ (t.visible ++ rowRefs (mk t.newRowsetId segments).placed).map
      fst) : (published t segments changed).WellFormed := by
  have next : (published t segments changed).newRowsetId = t.newRowsetId + max 1 segments.length := rfl
  refine ⟨published_distinct wf,?_,?_⟩
  · intro p member
    rw [published_placed] at member
    rcases mem_append.mp member with old | new
    · have below := wf.bounded p old
      omega
    · have ids := new_ids new
      omega
  · intro id above
    have unused : (changed.filter fun r => r.segmentId = id) = [] := by
      rw [filter_eq_nil_iff]
      intro r member same
      obtain ⟨p,seen,rfl⟩ := mem_map.mp (within r member)
      rw [decide_eq_true_eq] at same
      rcases mem_append.mp seen with old | new
      · have below := wf.apart.bounded p old
        omega
      · obtain ⟨q,inside,own⟩ := mem_map.mp (mem_rowRefs new)
        have ids := new_ids inside
        omega
    have old : t.delvec id = [] := wf.clean id (by omega)
    simp [published, unused, old]

theorem published_holds (apart : t.Apart)
    (tracks : Tracks s (t.visible ++ rowRefs (mk t.newRowsetId segments).placed) x m) :
    Holds s (published t segments x.changed) m := by
  have distinct : ((published t segments x.changed).visible.map fst).Nodup :=
    (seen_distinct apart).sublist (published_visible_sublist.map _)
  have indexed : ∀ p ∈ (published t segments x.changed).visible, x.index (s.keyOf p.2) = some p.1 := by
    intro p member
    obtain ⟨seen,kept⟩ := (mem_published_visible apart).mp member
    exact (tracks.index _ _).mpr ⟨p.2,seen,rfl,kept⟩
  refine ⟨?_,?_,?_⟩
  · rw [TabletMetadata.visibleRows, map_map]
    apply Nodup.map_on _ (Nodup.of_map _ distinct)
    intro p inP q inQ sameKey
    have found := indexed p inP
    rw [show s.keyOf p.2 = s.keyOf q.2 from sameKey, indexed q inQ] at found
    exact inj_on_of_nodup_map distinct inP inQ (Option.some.inj found).symm
  · intro row
    rw [tracks.rows]
    constructor
    · intro member
      obtain ⟨⟨r,row'⟩,visible,same⟩ := mem_map.mp member
      cases same
      exact ⟨r,indexed _ visible,((mem_published_visible apart).mp visible).1⟩
    · rintro ⟨r,found,seen⟩
      obtain ⟨_,_,_,kept⟩ := (tracks.index _ _).mp found
      exact mem_map.mpr ⟨(r, row),(mem_published_visible apart).mpr ⟨seen,kept⟩,rfl⟩
  · intro k row held
    obtain ⟨r,found,seen⟩ := (tracks.rows k row).mp held
    obtain ⟨row',seen',own,_⟩ := (tracks.index k r).mp found
    rwa [tracks.row_unique seen seen']

variable {log : OpWrite}

theorem tracks_published (apart : t.Apart) (holds : Holds s t m) (logged : log.rowset = some segments)
    (built : buildVisiblePrimaryKeyIndex s t = .ok x) :
    Tracks s (t.visible ++ rowRefs (mk t.newRowsetId segments).placed)
      (log.deletes.foldl KeyIndex.remove
        (((rowRefs (mk t.newRowsetId segments).placed).map fun p => (p.1, s.keyOf p.2)).foldl
          KeyIndex.insert x))
      (dropAll (putAll s.keyOf m log.upserts) log.deletes) := by
  have start := tracks_built apart.distinct holds built
  have tracks := (start.insertAll (@seen_distinct t segments apart)).removeAll log.deletes
  have upserts : (rowRefs (mk t.newRowsetId segments).placed).map snd = log.upserts := by
    rw [rowRefs_rows, Rowset.placed_rows, OpWrite.upserts, logged]
    rfl
  rwa [upserts] at tracks

/-- Publishing a log puts all of its upserts and then drops all of its delete keys. -/
theorem publish_holds_of_apart (apart : t.Apart) (holds : Holds s t m)
    (done : applyPrimaryKeyWriteLogToMetadata s t log = .ok t') :
    Holds s t' (dropAll (putAll s.keyOf m log.upserts) log.deletes) := by
  obtain ⟨rfl,noUpserts,noDeletes⟩ | ⟨segments,x,logged,built,rfl⟩ :=
    applyPrimaryKeyWriteLogToMetadata_ok done
  · rw [noUpserts, noDeletes]
    exact holds
  · exact published_holds apart (tracks_published apart holds logged built)

theorem publish_holds (wf : t.WellFormed) (holds : Holds s t m)
    (done : applyPrimaryKeyWriteLogToMetadata s t log = .ok t') :
    t'.WellFormed ∧ Holds s t' (dropAll (putAll s.keyOf m log.upserts) log.deletes) := by
  refine ⟨?_,publish_holds_of_apart wf.apart holds done⟩
  obtain ⟨rfl,_,_⟩ | ⟨segments,x,logged,built,rfl⟩ :=
    applyPrimaryKeyWriteLogToMetadata_ok done
  · exact wf
  · exact published_wellFormed wf (tracks_published wf.apart holds logged built).changed

end

end NovaRocks.Lake
