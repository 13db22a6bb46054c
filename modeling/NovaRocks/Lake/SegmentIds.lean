import NovaRocks.Lake.SchemaHistory

/-!
Segment ids. A rowset takes the ids from its own id on, one for each of its segments and at
least one, and delete vectors are kept by segment id. New rowsets get ids from the tablet's
next rowset id on. Where that is absent the successor of the largest rowset id is taken,
which may be an id of that rowset's second segment.
-/
namespace NovaRocks.Lake
open NovaRocks.Store List

namespace RowsetMetadataPb

def endFrom (r : RowsetMetadataPb) (id : Nat) : Nat :=
  id + max 1 r.segments.length

def Apart (r r' : RowsetMetadataPb) : Prop :=
  ∀ id ∈ r.id, ∀ id' ∈ r'.id, r.endFrom id ≤ id' ∨ r'.endFrom id' ≤ id

theorem Apart.symm {r r' : RowsetMetadataPb} (apart : r.Apart r') : r'.Apart r := by
  intro id' own' id own
  exact (apart id own id' own').symm

instance : Std.Symm Apart :=
  ⟨fun _ _ apart => apart.symm⟩

theorem lt_endFrom (r : RowsetMetadataPb) (id : Nat) : id < r.endFrom id := by
  unfold endFrom
  omega

theorem mem_placed_ids (r : RowsetMetadataPb) (member : segmentId ∈ r.placed.map Prod.fst) :
    ∃ id ∈ r.id, id ≤ segmentId ∧ segmentId < r.endFrom id := by
  unfold placed at member
  cases own : r.id with
  | none =>
    rw [own] at member
    cases member
  | some id =>
    rw [own, Rowset.placed_ids] at member
    obtain ⟨index,range,same⟩ := mem_map.mp member
    rw [mem_range'_1] at range
    dsimp only at range same
    unfold endFrom
    exact ⟨id,rfl,by omega,by omega⟩

end RowsetMetadataPb

/-- Rowsets with ids of their own, and the next id, if there is one, after all of them. -/
structure Ranged (rowsets : List RowsetMetadataPb) (next : Option Nat) : Prop where
  named : ∀ r ∈ rowsets, r.id ≠ none
  apart : rowsets.Pairwise RowsetMetadataPb.Apart
  below : ∀ n ∈ next, ∀ r ∈ rowsets, ∀ id ∈ r.id, r.endFrom id ≤ n

theorem Ranged.sublist (ranged : Ranged rowsets upper) (kept : few.Sublist rowsets) : Ranged few upper :=
  ⟨fun r member => ranged.named r (kept.subset member),ranged.apart.sublist kept,
    fun n given r member => ranged.below n given r (kept.subset member)⟩

def TabletMetadataPb.Ranged (t : TabletMetadataPb) : Prop :=
  NovaRocks.Lake.Ranged t.rowsets t.nextRowsetId

def EndBy (rowsets : List RowsetMetadataPb) (first : Nat) : Prop :=
  ∀ r ∈ rowsets, ∀ id ∈ r.id, r.endFrom id ≤ first

section
variable {before after rowsets : List RowsetMetadataPb}

theorem apart_insert_iff (own : r.id = some first) (apart : kept.Pairwise RowsetMetadataPb.Apart)
    (later : ∀ r' ∈ kept, ∀ id ∈ r'.id, id < first) :
    (r :: kept).Pairwise RowsetMetadataPb.Apart ↔ EndBy kept first := by
  have one : ∀ r' ∈ kept, r'.Apart r ↔ ∀ id ∈ r'.id, r'.endFrom id ≤ first := by
    intro r' member
    constructor
    · intro apart id own'
      rcases apart id own' first own with ends | ends
      · exact ends
      · have high := later r' member id own'
        have low := r.lt_endFrom first
        omega
    · intro ends id own' id' own''
      cases own.symm.trans own''
      exact .inl (ends id own')
  rw [pairwise_cons]
  constructor
  · rintro ⟨fromAll,-⟩ r' member
    exact (one r' member).mp (fromAll r' member).symm
  · intro ends
    exact ⟨fun r' member => ((one r' member).mpr (ends r' member)).symm,apart⟩

theorem nextRowsetId_attained (rowsets : List RowsetMetadataPb)
    (some : 1 < NovaRocks.Lake.nextRowsetId rowsets) :
    ∃ r ∈ rowsets, ∃ id ∈ r.id, id + 1 = NovaRocks.Lake.nextRowsetId rowsets := by
  unfold NovaRocks.Lake.nextRowsetId at some ⊢
  rw [foldl_max] at some ⊢
  cases largest : (rowsets.filterMap RowsetMetadataPb.id).max? with
  | none => simp [largest] at some
  | some id =>
    obtain ⟨r,listed,own⟩ := mem_filterMap.mp (max?_mem largest)
    exact ⟨r,listed,id,own,by simp⟩

/-- A rowset does not reach beyond the successor of the largest rowset id: it has at most one
segment, or there is a rowset with a larger id. -/
def Short (rowsets : List RowsetMetadataPb) (r : RowsetMetadataPb) : Prop :=
  r.segments.length ≤ 1 ∨ ∃ r' ∈ rowsets, ∃ id ∈ r.id, ∃ id' ∈ r'.id, id < id'

theorem endBy_nextRowsetId (apart : rowsets.Pairwise RowsetMetadataPb.Apart) (listed : r ∈ rowsets)
    {id : Nat} (own : id ∈ r.id) : r.endFrom id ≤ NovaRocks.Lake.nextRowsetId rowsets ↔ Short rowsets r := by
  have low : ∀ r' ∈ rowsets, ∀ id' ∈ r'.id, id' < NovaRocks.Lake.nextRowsetId rowsets := by
    intro r' member id' own'
    exact TabletMetadataPb.lt_nextRowsetId (mem_filterMap.mpr ⟨r',member,own'⟩)
  have here := low r listed id own
  constructor
  · intro ends
    unfold RowsetMetadataPb.endFrom at ends
    by_cases few : r.segments.length ≤ 1
    · exact .inl few
    · obtain ⟨r',member,id',own',largest⟩ := nextRowsetId_attained rowsets (by omega)
      exact .inr ⟨r',member,id,own,id',own',by omega⟩
  · rintro (few | ⟨r',member,id₁,own₁,id',own',less⟩)
    · unfold RowsetMetadataPb.endFrom
      omega
    · cases own.symm.trans own₁
      have different : r ≠ r' := by
        rintro rfl
        cases own.symm.trans own'
        omega
      rcases apart.forall listed member different id own id' own' with ends | ends
      · have high := low r' member id' own'
        omega
      · have high := r'.lt_endFrom id'
        omega

end

namespace TabletMetadataPb
variable {t t' : TabletMetadataPb} {r : RowsetMetadataPb}

theorem lt_newRowsetId (ranged : t.Ranged) (member : r ∈ t.rowsets) {id : Nat}
    (own : id ∈ r.id) : id < t.newRowsetId := by
  unfold newRowsetId
  cases given : t.nextRowsetId with
  | some next =>
    have ended := ranged.below next given r member id own
    exact Nat.lt_of_lt_of_le (r.lt_endFrom id) ended
  | none => exact lt_nextRowsetId (mem_filterMap.mpr ⟨r,member,own⟩)

theorem endBy_newRowsetId_iff (ranged : t.Ranged) (sublist : kept.Sublist t.rowsets) :
    EndBy kept t.newRowsetId ↔ (t.nextRowsetId = none → ∀ r ∈ kept, Short t.rowsets r) := by
  unfold newRowsetId
  cases given : t.nextRowsetId with
  | some next =>
    refine iff_of_true ?_ nofun
    intro r member id own
    exact ranged.below next given r (sublist.subset member) id own
  | none =>
    constructor
    · intro ends _ r member
      obtain ⟨id,own⟩ := Option.ne_none_iff_exists'.mp (ranged.named r (sublist.subset member))
      exact (endBy_nextRowsetId ranged.apart (sublist.subset member) own).mp (ends r member id own)
    · intro short r member id own
      exact (endBy_nextRowsetId ranged.apart (sublist.subset member) own).mpr (short rfl r member)

/-- The kept rowsets and one with the new rowset id, in any order. -/
theorem ranged_placed_iff (ranged : t.Ranged) (own : r.id = some t.newRowsetId)
    (kept : few.Sublist t.rowsets) (placed : together.Perm (r :: few)) :
    NovaRocks.Lake.Ranged together (some (r.endFrom t.newRowsetId)) ↔
      (t.nextRowsetId = none → ∀ r' ∈ few, Short t.rowsets r') := by
  have apart_iff : together.Pairwise RowsetMetadataPb.Apart ↔ EndBy few t.newRowsetId := by
    rw [placed.pairwise_iff fun apart => apart.symm]
    exact apart_insert_iff own (ranged.apart.sublist kept) fun r' member id own' =>
      lt_newRowsetId ranged (kept.subset member) own'
  rw [← endBy_newRowsetId_iff ranged kept, ← apart_iff]
  constructor
  · exact fun inserted => inserted.apart
  · intro apart
    refine ⟨?_,apart,?_⟩
    · simp only [placed.mem_iff]
      exact forall_mem_cons.mpr ⟨by simp [own],fun r' member => ranged.named r' (kept.subset member)⟩
    · rintro _ ⟨⟩
      simp only [placed.mem_iff]
      refine forall_mem_cons.mpr ⟨by simp [own],fun r' member id own' => ?_⟩
      exact (apart_iff.mp apart r' member id own').trans (r.lt_endFrom _).le

theorem appendRowset_ranged_iff (ranged : t.Ranged) (r : RowsetMetadataPb) (v : Int) :
    (t.appendRowset r v).Ranged ↔ (t.nextRowsetId = none → ∀ r' ∈ t.rowsets, Short t.rowsets r') :=
  ranged_placed_iff (r := { r with id := some t.newRowsetId }) ranged rfl (Sublist.refl _)
    (perm_append_singleton _ _)

theorem appendAllRowsets_ranged {rows : List RowsetMetadataPb} (done : appendAllRowsets v t rows = .ok t') :
    t.rowsets.Sublist t'.rowsets ∧ (t.Ranged → t.nextRowsetId ≠ none → t'.Ranged) := by
  induction rows generalizing t with
  | nil =>
    cases done
    exact ⟨Sublist.refl _,fun ranged _ => ranged⟩
  | cons r rest ih =>
    obtain ⟨_,_,later⟩ := bind_ok done
    obtain ⟨sublist,keeps⟩ := ih later
    refine ⟨(sublist_append_left t.rowsets _).trans sublist,fun ranged given => ?_⟩
    exact keeps ((appendRowset_ranged_iff ranged r v).mpr fun none => absurd none given) nofun

theorem appendAllRowsets_ranged_iff (ranged : t.Ranged) {rows : List RowsetMetadataPb}
    (done : appendAllRowsets v t rows = .ok t') :
    t'.Ranged ↔ (t.nextRowsetId = none → rows ≠ [] → ∀ r ∈ t.rowsets, Short t.rowsets r) := by
  cases rows with
  | nil =>
    cases done
    exact iff_of_true ranged fun _ none => absurd rfl none
  | cons r rest =>
    obtain ⟨_,_,later⟩ := bind_ok done
    obtain ⟨sublist,keeps⟩ := appendAllRowsets_ranged later
    constructor
    · intro after absent _
      -- the first new rowset and the old ones are among the rowsets in the end
      have apart := (perm_append_singleton _ _).pairwise (after.apart.sublist sublist) fun apart => apart.symm
      have ends := (apart_insert_iff rfl ranged.apart fun r' member id own =>
        lt_newRowsetId ranged member own).mp apart
      exact (endBy_newRowsetId_iff ranged (Sublist.refl _)).mp ends absent
    · intro short
      exact keeps ((appendRowset_ranged_iff ranged r v).mpr fun absent =>
        short absent (cons_ne_nil r rest)) nofun

/-! ### What the logs do -/

theorem applyTabletSchemaUpdate_rowsets {schema : TabletSchemaPb}
    (done : applyTabletSchemaUpdate t schema = .ok t') :
    t'.rowsets = t.rowsets ∧ t'.nextRowsetId = t.nextRowsetId := by
  have bound : ∀ {id : Int} {reason : String} {b : TabletMetadataPb}, t.bindRowsets id reason = .ok b →
      b.rowsets = t.rowsets ∧ b.nextRowsetId = t.nextRowsetId := by
    intro id reason b binding
    unfold bindRowsets at binding
    split at binding <;> cases binding
    exact ⟨rfl,rfl⟩
  unfold applyTabletSchemaUpdate at done
  split at done
  · cases done
  · obtain ⟨_,_,done⟩ := bind_ok done
    split at done
    · dsimp only at done
      split at done
      · cases done
        exact ⟨rfl,rfl⟩
      split at done
      · obtain ⟨retired,retiring,last⟩ := bind_ok done
        obtain ⟨b,binding,historical⟩ := bind_ok retiring
        cases last
        cases historical
        unfold bindUnrecorded at binding
        split at binding
        · exact (bound binding :)
        · cases binding
          exact ⟨rfl,rfl⟩
      · cases done
        exact ⟨rfl,rfl⟩
    · split at done
      · cases done
        exact ⟨rfl,rfl⟩
      · obtain ⟨b,binding,last⟩ := bind_ok done
        cases last
        exact (bound binding :)

theorem applyAlterMetadataLog_rowsets (done : applyAlterMetadataLog t op = .ok t') :
    t'.rowsets = t.rowsets ∧ t'.nextRowsetId = t.nextRowsetId := by
  induction op generalizing t with
  | nil =>
    cases done
    exact ⟨rfl,rfl⟩
  | cons update rest ih =>
    cases update with
    | none => exact ih done
    | some schema =>
      obtain ⟨updated,first,later⟩ := bind_ok done
      obtain ⟨rowsets,next⟩ := applyTabletSchemaUpdate_rowsets first
      obtain ⟨rowsets',next'⟩ := ih later
      exact ⟨rowsets'.trans rowsets,next'.trans next⟩

theorem Ranged.congr {u : TabletMetadataPb} (same : u.rowsets = t.rowsets ∧ u.nextRowsetId = t.nextRowsetId) :
    u.Ranged ↔ t.Ranged := by
  unfold TabletMetadataPb.Ranged
  rw [same.1, same.2]

theorem applyWriteLog_ranged_iff [DelvecEncoding] (ranged : t.Ranged)
    (done : applyWriteLog files t op txnId defaultSchemaId runtime applyVersion = .ok (files', t')) :
    t'.Ranged ↔ (t.nextRowsetId = none → appends runtime op = true →
      ∀ r ∈ t.rowsets, Short t.rowsets r) := by
  obtain ⟨settled,v,settling,written⟩ := applyWriteLog_cases done
  have same : settled.rowsets = t.rowsets ∧ settled.nextRowsetId = t.nextRowsetId := by
    obtain ⟨-,⟨rfl,-⟩ | ⟨-,resolved,-,updated⟩⟩ := maybeUpdate_cases settling
    · exact ⟨rfl,rfl⟩
    · exact applyTabletSchemaUpdate_rowsets updated
  have settledRanged : settled.Ranged := (Ranged.congr same).mpr ranged
  obtain ⟨nothing,rfl⟩ | ⟨something,r,delvecMeta,rfl⟩ := written
  · refine iff_of_true settledRanged ?_
    intro _ some
    cases nothing.symm.trans some
  · change (settled.appendRowset r v).Ranged ↔ _
    rw [appendRowset_ranged_iff settledRanged, same.1, same.2]
    exact ⟨fun short absent _ => short absent,fun short absent => short absent something⟩

theorem id_ne_of_apart (apart : r.Apart r') {id : Nat} (own : id ∈ r.id) : id ∉ r'.id := by
  intro own'
  have first := r.lt_endFrom id
  have second := r'.lt_endFrom id
  have ends := apart id own id own'
  omega

theorem mem_kept_iff (ranged : t.Ranged) {before inputs after : List RowsetMetadataPb}
    (split : t.rowsets = before ++ inputs ++ after)
    (listed : inputs.filterMap RowsetMetadataPb.id = ids) (r : RowsetMetadataPb) :
    r ∈ before ++ after ↔ r ∈ t.rowsets ∧ ∀ id ∈ r.id, id ∉ ids := by
  have apart := ranged.apart
  rw [split, pairwise_append, pairwise_append] at apart
  obtain ⟨⟨-,-,fromBefore⟩,-,fromAfter⟩ := apart
  rw [split]
  constructor
  · intro member
    refine ⟨by simp only [mem_append] at member ⊢; tauto,?_⟩
    intro id own input
    rw [← listed] at input
    obtain ⟨r',inside,own'⟩ := mem_filterMap.mp input
    rcases mem_append.mp member with first | last
    · exact id_ne_of_apart (fromBefore r first r' inside) own own'
    · exact id_ne_of_apart (fromAfter r' (mem_append_right _ inside) r last) own' own
  · rintro ⟨member,other⟩
    rcases mem_append.mp member with first | last
    · rcases mem_append.mp first with old | input
      · exact mem_append_left _ old
      · obtain ⟨id,own⟩ := Option.ne_none_iff_exists'.mp (ranged.named r (split ▸ member))
        exact absurd (listed ▸ mem_filterMap.mpr ⟨r,input,own⟩) (other id own)
    · exact mem_append_right _ last

def replaces (op : OpCompaction) : Bool :=
  !op.inputRowsets.isEmpty && (op.outputRowset.any fun r => 0 < r.numRows)

theorem compactSchemas_ranged : (t.compactSchemas inputs output c).Ranged ↔ t.Ranged := by
  apply Ranged.congr
  unfold compactSchemas
  split <;> exact ⟨rfl,rfl⟩

theorem applyCompactionLog_ranged_iff (ranged : t.Ranged)
    (done : applyCompactionLog t op defaultSchemaId = .ok t') :
    t'.Ranged ↔ (t.nextRowsetId = none → replaces op = true →
      ∀ r ∈ t.rowsets, (∀ id ∈ r.id, id ∉ op.inputRowsets) → Short t.rowsets r) := by
  have replaces_iff : replaces op = true ↔ op.inputRowsets ≠ [] ∧
      op.outputRowset.filter (fun r => 0 < r.numRows) ≠ none := by
    unfold replaces
    cases op.outputRowset <;> simp [Nat.pos_iff_ne_zero]
  rw [replaces_iff]
  obtain ⟨nothing,rfl⟩ | ⟨something,firstPos,lastPos,removed,point,split,ids,rfl⟩ := applyCompactionLog_cases done
  · exact iff_of_true ranged fun _ inputs => absurd nothing inputs.1
  · have kept := mem_kept_iff ranged split ids
    have sublist : (t.rowsets.take firstPos ++ t.rowsets.drop (lastPos + 1)).Sublist t.rowsets := by
      conv_rhs => rw [split]
      exact (sublist_append_left _ _).append (Sublist.refl _)
    change (compactSchemas _ _ _ _).Ranged ↔ _
    rw [compactSchemas_ranged]
    cases op.outputRowset.filter fun r => 0 < r.numRows with
    | none =>
      refine iff_of_true ?_ fun _ output => absurd rfl output.2
      simpa [TabletMetadataPb.Ranged, replaceRowsets] using Ranged.sublist ranged sublist
    | some r =>
      have own : ({ r with id := some t.newRowsetId, maxCompactInputRowsetId := op.inputRowsets.max? } :
        RowsetMetadataPb).id = some t.newRowsetId := rfl
      refine (ranged_placed_iff ranged own sublist ((perm_append_singleton _ _).append_right _)).trans ?_
      constructor
      · intro short absent _ r' member other
        exact short absent r' ((kept r').mpr ⟨member,other⟩)
      · intro short absent r' member
        obtain ⟨old,other⟩ := (kept r').mp member
        exact short absent ⟨something,nofun⟩ r' old other

end TabletMetadataPb

namespace TxnStep

def addsRowset (s : TxnStep) : Bool :=
  match dispatchTxnLog s.log with
  | .write op => TabletMetadataPb.appends s.runtimeSchema op
  | .compaction op => TabletMetadataPb.replaces op
  | .schemaChange op => !op.rowsets.isEmpty
  | _ => false

def leaves (s : TxnStep) (r : RowsetMetadataPb) : Prop :=
  match dispatchTxnLog s.log with
  | .compaction op => ∀ id ∈ r.id, id ∉ op.inputRowsets
  | _ => True

/-- If the next rowset id is absent and the log brings a rowset, the rowset with the largest id
has at most one segment or goes away. -/
def IdsFree (s : TxnStep) (t : TabletMetadataPb) : Prop :=
  t.nextRowsetId = none → s.addsRowset = true → ∀ r ∈ t.rowsets, s.leaves r → Short t.rowsets r

end TxnStep

theorem TabletMetadataPb.Ranged.placed_distinct {t : TabletMetadataPb} (ranged : t.Ranged) :
    ((t.rowsets.flatMap RowsetMetadataPb.placed).map Prod.fst).Nodup := by
  rw [map_flatMap, nodup_flatMap]
  constructor
  · intro r _
    unfold RowsetMetadataPb.placed
    cases r.id with
    | none => exact nodup_nil
    | some id => exact Rowset.placed_distinct _
  · apply ranged.apart.imp
    intro r r' apart segmentId member member'
    obtain ⟨id,own,low,high⟩ := r.mem_placed_ids member
    obtain ⟨id',own',low',high'⟩ := r'.mem_placed_ids member'
    have ends := apart id own id' own'
    omega

/-- Applying a log keeps the ids of rowsets apart just if the ids it gives are free. -/
theorem segment_ids_apart_iff [DelvecEncoding] (files : DelvecFiles) (t : TabletMetadataPb) (s : TxnStep)
    {files' : DelvecFiles} {t' : TabletMetadataPb} (ranged : t.Ranged)
    (done : applyTxnLogToMetadata files t s.log s.defaultSchemaId s.runtimeSchema
      s.applyVersion = .ok (files', t')) :
    (t'.Ranged ↔ s.IdsFree t) ∧
      (s.IdsFree t → ((t'.rowsets.flatMap RowsetMetadataPb.placed).map Prod.fst).Nodup) := by
  have kept : t'.Ranged ↔ s.IdsFree t := by
    unfold applyTxnLogToMetadata at done
    unfold TxnStep.IdsFree TxnStep.addsRowset TxnStep.leaves
    generalize dispatchTxnLog s.log = kind at done ⊢
    cases kind with
    | write op =>
      rw [TabletMetadataPb.applyWriteLog_ranged_iff ranged done]
      simp only [true_implies]
    | compaction op =>
      obtain ⟨_,_,done⟩ := bind_ok done
      obtain ⟨_,_,done⟩ := bind_ok done
      obtain ⟨compacted,compacting,last⟩ := bind_ok done
      cases last
      exact TabletMetadataPb.applyCompactionLog_ranged_iff ranged compacting
    | schemaChange op =>
      obtain ⟨_,_,done⟩ := bind_ok done
      obtain ⟨_,_,done⟩ := bind_ok done
      obtain ⟨changed,changing,last⟩ := bind_ok done
      obtain ⟨appended,appending,last'⟩ := bind_ok changing
      cases last
      cases last'
      change appended.Ranged ↔ _
      rw [TabletMetadataPb.appendAllRowsets_ranged_iff ranged appending]
      simp
    | alterMetadata op =>
      obtain ⟨altered,altering,last⟩ := bind_ok done
      cases last
      have same := TabletMetadataPb.applyAlterMetadataLog_rowsets altering
      exact iff_of_true ((TabletMetadataPb.Ranged.congr same).mpr ranged) nofun
    | unsupported name =>
      cases done
    | empty =>
      cases done
      exact iff_of_true ranged nofun
  exact ⟨kept,fun free => (kept.mpr free).placed_distinct⟩

def twoSegments (next : Option Nat) : TabletMetadataPb where
  id := some 7
  schema := some ⟨some 1, some 0, ⟨1, [0], [0]⟩⟩
  rowsets := [⟨some 1, [⟨⟨0, 0⟩, [[.int 4]]⟩, ⟨⟨0, 1⟩, [[.int 5]]⟩], 0, false, [], none⟩]
  nextRowsetId := next
  cumulativePoint := none
  delvecMeta := ⟨∅, ∅⟩
  historicalSchemas := fun _ => none
  rowsetToSchema := ∅

def writeOneRow : TxnStep :=
  ⟨⟨some 6, some ⟨some ⟨none, [⟨⟨0, 2⟩, [[.int 6]]⟩], 0, false, [], none⟩, [], some (some 1)⟩, none, none, none,
    false⟩, 1, ⟨some 1, some 0, ⟨1, [0], [0]⟩⟩, 3⟩

theorem twoSegments_ranged {next : Option Nat} (after : ∀ n ∈ next, 3 ≤ n) : (twoSegments next).Ranged := by
  refine ⟨by simp [twoSegments],pairwise_singleton _ _,?_⟩
  intro n given r member id own
  have known := after n given
  simp only [twoSegments, mem_singleton] at member
  subst member
  cases own
  exact known

theorem segment_ids_apart_iff_next : ∃ files' t', applyTxnLogToMetadata (fun _ => none) (twoSegments (some 3))
    writeOneRow.log writeOneRow.defaultSchemaId writeOneRow.runtimeSchema writeOneRow.applyVersion =
      .ok (files', t') ∧ t'.Ranged :=
  ⟨_,_,rfl,(segment_ids_apart_iff (fun _ => none) _ writeOneRow (twoSegments_ranged (by simp)) rfl).1.mpr
    nofun⟩

theorem write_reuses_segment_id : (twoSegments none).Ranged ∧
    ∃ files' t', applyTxnLogToMetadata (fun _ => none) (twoSegments none) writeOneRow.log
        writeOneRow.defaultSchemaId writeOneRow.runtimeSchema writeOneRow.applyVersion = .ok (files', t') ∧
      (t'.rowsets.flatMap RowsetMetadataPb.placed).map Prod.fst = [1, 2, 2] ∧ ¬t'.Ranged := by
  refine ⟨twoSegments_ranged nofun,_,_,rfl,rfl,?_⟩
  intro ranged
  have distinct := ranged.placed_distinct
  revert distinct
  decide

end NovaRocks.Lake
