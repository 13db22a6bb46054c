import Mathlib.Data.Finset.Range
import NovaRocks.Lake.Publish

/-!
Places of rows. A publish that leaves each key its last row needs the visible rows in
different places and the places of the new rowset free. Where two rows share a place,
a delete of one hides the other; where a place from the next rowset id on is taken, a
new row is hidden by what was marked there before.
-/
namespace NovaRocks.Lake
open NovaRocks.Store List
open Rowset (mk placed)

def TabletMetadata.Encodes (s : TabletSchema) (t : TabletMetadata) : Prop :=
  ∀ p ∈ rowRefs t.placed, Value.null ∉ s.keyOf p.2

theorem build_isOk (encodes : t.Encodes s) : ∃ x, buildVisiblePrimaryKeyIndex s t = .ok x := by
  rw [buildVisiblePrimaryKeyIndex, encodePrimaryKeys_isOk encodes]
  exact ⟨_,rfl⟩

theorem publish_eq {keys : List (SegmentRowRef × Tuple)} (built : buildVisiblePrimaryKeyIndex s t = .ok x)
    (encoded : encodePrimaryKeys s (rowRefs (mk t.newRowsetId segments).placed) = .ok keys)
    (something : ¬(segments.flatMap Segment.rows = [] ∧ dels = [])) :
    applyPrimaryKeyWriteLogToMetadata s t ⟨some segments, dels⟩ =
      .ok (published t segments ((dels.flatMap DelFile.keys).foldl KeyIndex.remove
        (((rowRefs (mk t.newRowsetId segments).placed).map fun p => (p.1, s.keyOf p.2)).foldl
          KeyIndex.insert x)).changed) := by
  have busy : ((segments.flatMap Segment.rows).isEmpty && dels.isEmpty) = false := by
    rw [← Bool.not_eq_true, Bool.and_eq_true, List.isEmpty_iff, List.isEmpty_iff]
    exact something
  rw [← encodePrimaryKeys_ok encoded]
  simp only [applyPrimaryKeyWriteLogToMetadata, busy, built, encoded]
  rfl

def TabletMetadata.PublishesWell (s : TabletSchema) (t : TabletMetadata) (m : Tuple → Option Tuple) : Prop :=
  ∀ log t', applyPrimaryKeyWriteLogToMetadata s t log = .ok t' →
    Holds s t' (dropAll (putAll s.keyOf m log.upserts) log.deletes)

theorem distinct_of_publishesWell (encodes : t.Encodes s) (holds : Holds s t m)
    (well : t.PublishesWell s m) : (t.visible.map Prod.fst).Nodup := by
  obtain ⟨x,built⟩ := build_isOk encodes
  obtain ⟨unchanged,index⟩ := built_index holds built
  apply Nodup.map_on _ (Nodup.of_map _ holds.visible_keyed)
  intro p inP q inQ place
  by_contra different
  have keys : s.keyOf p.2 ≠ s.keyOf q.2 := fun same =>
    different (inj_on_of_nodup_map holds.visible_keyed inP inQ same)
  -- the log deletes the key of `p` only
  have done : applyPrimaryKeyWriteLogToMetadata s t ⟨some [],[⟨⟨0,0⟩,[s.keyOf p.2]⟩]⟩ =
      .ok (published t [] (x.remove (s.keyOf p.2)).changed) :=
    publish_eq built rfl (by simp)
  have after := well _ _ done
  have kept : q.2 ∈ (published t [] (x.remove (s.keyOf p.2)).changed).visibleRows := by
    refine (after.mem q.2).mpr ?_
    have held := (holds.mem q.2).mp (mem_map_of_mem inQ)
    simpa [OpWrite.upserts, OpWrite.deletes, putAll, dropAll_apply, keys.symm] using held
  obtain ⟨⟨r,row⟩,visible,same⟩ := mem_map.mp kept
  cases same
  have old : (r, q.2) ∈ t.visible := by
    have either := published_visible_sublist.subset visible
    simpa [placed, rowRefs] using either
  have own : r = q.1 := congrArg Prod.fst (inj_on_of_nodup_map holds.visible_keyed old inQ rfl)
  have hidden : r ∈ (x.remove (s.keyOf p.2)).changed := by
    have found : x.index (s.keyOf p.2) = some p.1 := (index _ _).mpr ⟨p.2,inP,rfl⟩
    simp [KeyIndex.remove, found, own, place]
  have alive := (mem_filter.mp visible).2
  rw [Bool.not_eq_true', ← Bool.not_eq_true, published_deleted] at alive
  exact alive (.inr hidden)

theorem foldl_insert_same (key : Tuple) (refs : List SegmentRowRef) (last : SegmentRowRef) :
    ((refs ++ [last]).map fun r => (r, key)).foldl KeyIndex.insert x =
      ⟨Function.update x.index key (some last), x.changed ++ (x.index key).toList ++ refs⟩ := by
  induction refs generalizing x with
  | nil => simp [KeyIndex.insert]
  | cons r rest ih =>
    rw [cons_append, map_cons, foldl_cons, ih]
    simp [KeyIndex.insert]

/-- Segments that repeat a row up to a given place, all segments before being empty. -/
def repeatUpTo (first : Nat) (place : SegmentRowRef) (row : Tuple) : List Segment :=
  List.replicate (place.segmentId - first) ⟨⟨0, 0⟩, []⟩ ++
    [⟨⟨0, 0⟩, List.replicate (place.rowId + 1) row⟩]

theorem repeatUpTo_rows (first : Nat) (place : SegmentRowRef) (row : Tuple) :
    (repeatUpTo first place row).flatMap Segment.rows = replicate (place.rowId + 1) row := by
  simp [repeatUpTo]

theorem repeatUpTo_refs {place : SegmentRowRef} (row : Tuple) (above : first ≤ place.segmentId) :
    rowRefs (mk first (repeatUpTo first place row)).placed =
      (((range place.rowId).map (SegmentRowRef.mk place.segmentId)) ++ [place]).map fun r => (r, row) := by
  have empty : rowRefs (mk first (replicate (place.segmentId - first) ⟨⟨0,0⟩,[]⟩)).placed = [] := by
    rw [rowRefs, flatMap_eq_nil_iff]
    intro p member
    obtain ⟨⟨x,idx⟩,inside,rfl⟩ := mem_map.mp member
    have none' : x = ⟨⟨0,0⟩,[]⟩ := (mem_replicate.mp (fst_mem_of_mem_zipIdx inside)).2
    subst none'
    rfl
  have id : first + (place.segmentId - first) = place.segmentId := by omega
  rw [placed, repeatUpTo, zipIdx_append, map_append, rowRefs_append]
  change rowRefs (mk first (replicate _ ⟨⟨0,0⟩,[]⟩)).placed ++ _ = _
  rw [empty, nil_append]
  simp only [length_replicate, Nat.zero_add, zipIdx_singleton, map_cons, map_nil,
    id, rowRefs, flatMap_cons, flatMap_nil, append_nil]
  apply ext_getElem
  · simp
  · intro j inside _
    simp only [length_map, length_zipIdx, length_replicate] at inside
    by_cases last : j = place.rowId
    · simp [last]
    · have before : j < place.rowId := by omega
      simp [before]

/-- A place that a new rowset takes must not be marked as deleted, nor be the place of
the row that the new one replaces. -/
theorem free_of_publishesWell {place : SegmentRowRef} (holds : Holds s t m) (well : t.PublishesWell s m)
    (built : buildVisiblePrimaryKeyIndex s t = .ok x) (encoded : Value.null ∉ s.keyOf row)
    (above : t.newRowsetId ≤ place.segmentId) :
    t.deleted place = false ∧ x.index (s.keyOf row) ≠ some place := by
  obtain ⟨unchanged,index⟩ := built_index holds built
  let segments := repeatUpTo t.newRowsetId place row
  let earlier := (range place.rowId).map (SegmentRowRef.mk place.segmentId)
  let changed := x.changed ++ (x.index (s.keyOf row)).toList ++ earlier
  have rows : segments.flatMap Segment.rows = replicate (place.rowId + 1) row :=
    repeatUpTo_rows _ _ _
  have refs : rowRefs (mk t.newRowsetId segments).placed =
      (earlier ++ [place]).map fun r => (r, row) := repeatUpTo_refs row above
  have done : applyPrimaryKeyWriteLogToMetadata s t ⟨some segments,[]⟩ =
      .ok (published t segments changed) := by
    have encodes : ∀ row' ∈ segments.flatMap Segment.rows, Value.null ∉ s.keyOf row' := by
      intro row' member
      rw [rows, mem_replicate] at member
      rw [member.2]
      exact encoded
    have all := encodePrimaryKeys_isOk (rowRefs_encode t.newRowsetId encodes)
    rw [publish_eq built all (by simp [rows]), refs, map_map]
    change Except.ok (published t segments (((earlier ++ [place]).map fun r =>
      (r, s.keyOf row)).foldl KeyIndex.insert x).changed) = _
    rw [foldl_insert_same]
  have after := well _ _ done
  have kept : row ∈ (published t segments changed).visibleRows := by
    refine (after.mem row).mpr ?_
    have last : lastValue s.keyOf (replicate (place.rowId + 1) row) (s.keyOf row) = some row := by
      rw [replicate_succ', lastValue_append]
      simp [lastValue]
    simp only [OpWrite.upserts, OpWrite.deletes, Option.getD_some, rows, flatMap_nil,
      dropAll_apply, not_mem_nil, ↓reduceIte, putAll_apply, last, Option.some_or]
  obtain ⟨⟨r,row'⟩,visible,own⟩ := mem_map.mp kept
  change row' = row at own
  rw [own] at visible
  have alive : ¬((published t segments changed).deleted r = true) := by
    simpa using (mem_filter.mp visible).2
  rw [published_deleted, not_or] at alive
  have notEarlier : r ∉ earlier := fun old => alive.2 (mem_append_right _ old)
  have notReplaced : x.index (s.keyOf row) ≠ some r := fun found =>
    alive.2 (mem_append_left _ (mem_append_right _ (by simp [found])))
  have here : r = place := by
    rcases mem_append.mp (published_visible_sublist.subset visible) with old | new
    · exact (notReplaced ((index _ _).mpr ⟨row,old,rfl⟩)).elim
    · rw [refs] at new
      obtain ⟨r',member,same⟩ := mem_map.mp new
      cases same
      rcases mem_append.mp member with before | last
      · exact (notEarlier before).elim
      · exact mem_singleton.mp last
  rw [← here]
  exact ⟨by simpa using alive.1,notReplaced⟩

theorem exists_encoded (s : TabletSchema) : ∃ row, Value.null ∉ s.keyOf row := by
  obtain ⟨width,below⟩ := s.keyIdxes.toFinset.exists_nat_subset_range
  refine ⟨replicate width (.int 0),?_⟩
  intro member
  obtain ⟨idx,inside,cell⟩ := mem_map.mp member
  simp [Finset.mem_range.mp (below (mem_toFinset.mpr inside))] at cell

theorem apart_of_publishesWell (encodes : t.Encodes s) (holds : Holds s t m)
    (well : t.PublishesWell s m) : t.Apart := by
  obtain ⟨x,built⟩ := build_isOk encodes
  obtain ⟨_,index⟩ := built_index holds built
  refine ⟨distinct_of_publishesWell encodes holds well,?_,?_⟩
  · intro p member
    by_contra above
    have encoded := encodes p (mem_filter.mp member).1
    have free := free_of_publishesWell holds well built encoded (Nat.not_lt.mp above)
    exact free.2 ((index _ _).mpr ⟨p.2,member,rfl⟩)
  · intro id above
    obtain ⟨row,encoded⟩ := exists_encoded s
    rw [eq_nil_iff_forall_not_mem]
    intro r marked
    have free : t.deleted ⟨id,r⟩ = false :=
      (free_of_publishesWell holds well built encoded above).1
    simp [TabletMetadata.deleted, marked] at free

/-- Every log is published with the last writer winning exactly if the places are apart. -/
theorem publishesWell_iff (encodes : t.Encodes s) (holds : Holds s t m) : t.PublishesWell s m ↔ t.Apart :=
  ⟨apart_of_publishesWell encodes holds,fun apart _ _ => publish_holds_of_apart apart holds⟩

end NovaRocks.Lake
