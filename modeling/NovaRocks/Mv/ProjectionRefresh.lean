import NovaRocks.Lake.ManagedWrite
import NovaRocks.Store.Delta

/-!
Incremental refresh of a projection/filter materialized view with a primary key. The
view's table has the key of the base row in hidden leading columns. The rows selected
from the inserted files are upserted and the rows selected from the deleted ones are
deleted by key, all in one transaction. Old rows of copy-on-write updates count as
deleted, but only delete files make the refresh write deletes at all.
-/
namespace NovaRocks.Mv
open NovaRocks.Store NovaRocks.Lake List

/-- The select list and the filter of the view, and the key columns of its base. -/
structure ProjectionMv (B : Type) where
  keyCount : Nat
  key : B → Tuple
  keyLength : ∀ b, (key b).length = keyCount
  keep : B → Bool
  outputs : Nat
  project : B → Tuple

namespace ProjectionMv
variable (mv : ProjectionMv B)

def schema : TabletSchema :=
  ⟨mv.keyCount + mv.outputs, List.range mv.keyCount, List.range mv.keyCount⟩

def physicalRow (b : B) : Tuple :=
  mv.key b ++ mv.project b

def physicalSelect (rows : List B) : List Tuple :=
  (rows.filter mv.keep).map mv.physicalRow

end ProjectionMv

/-- Running the view's select over some rows of the base: the result comes in chunks
and in any order. -/
structure SelectRun {B : Type} (mv : ProjectionMv B) where
  chunks : List B → List (List Tuple)
  rows : ∀ base, (chunks base).flatten.Perm (mv.physicalSelect base)

/-- The rows of the files of a change batch: files added, rows under new delete
files, and the old files that copy-on-write updates replaced. -/
structure ChangeBatch (B : Type) where
  inserts : List (List B)
  deletes : List (List B)
  equalityDeletes : List (List B)
  cowUpdates : List (List B)

namespace ChangeBatch
def hasDeletes (batch : ChangeBatch B) : Bool :=
  !batch.deletes.isEmpty || !batch.equalityDeletes.isEmpty

def insertedRows (batch : ChangeBatch B) : List B :=
  batch.inserts.flatten

def deletedRows (batch : ChangeBatch B) : List B :=
  batch.deletes.flatten ++ batch.equalityDeletes.flatten ++ batch.cowUpdates.flatten

end ChangeBatch

def mvOpUpsert : Int := 0
def mvOpDelete : Int := 1

def appendMvOpColumn (op : Int) (chunk : List Tuple) : List WriteRow :=
  chunk.map fun row => ⟨some op, row⟩

def refreshChunks {B : Type} {mv : ProjectionMv B} (run : SelectRun mv) (batch : ChangeBatch B) :
    List (List WriteRow) :=
  let inserts := (run.chunks batch.insertedRows).map (appendMvOpColumn mvOpUpsert)
  let deletes := (run.chunks batch.deletedRows).map (appendMvOpColumn mvOpDelete)
  if batch.hasDeletes then inserts ++ deletes else inserts

def refreshMv {B : Type} {mv : ProjectionMv B} (run : SelectRun mv) (plan : ManagedInsertPlan)
    (batch : ChangeBatch B) : Except String ManagedInsertPlan :=
  writeChunksIntoManagedPartition plan (refreshChunks run batch)

section
variable {mv : ProjectionMv B}

theorem keyOf_physicalRow (b : B) : mv.schema.keyOf (mv.physicalRow b) = mv.key b := by
  apply ext_getElem
  · simp [ProjectionMv.schema, TabletSchema.keyOf, mv.keyLength]
  · intro i before bound
    simp [ProjectionMv.schema, TabletSchema.keyOf, ProjectionMv.physicalRow,
      getElem?_append_left bound, bound]

theorem physicalSelect_keyed {rows : List B} (keyed : (rows.map mv.key).Nodup) :
    ((mv.physicalSelect rows).map mv.schema.keyOf).Nodup := by
  have keys : (mv.physicalSelect rows).map mv.schema.keyOf = (rows.filter mv.keep).map mv.key := by
    rw [ProjectionMv.physicalSelect, map_map]
    apply map_congr_left
    intro b _
    exact keyOf_physicalRow b
  rw [keys]
  exact keyed.sublist (filter_sublist.map _)

theorem physicalSelect_append (first second : List B) :
    mv.physicalSelect (first ++ second) = mv.physicalSelect first ++ mv.physicalSelect second := by
  simp [ProjectionMv.physicalSelect]

theorem changesOf_append (s : TabletSchema) (first second : List WriteRow) :
    changesOf s (first ++ second) = changesOf s first ++ changesOf s second :=
  map_append

theorem changesOf_upserts (s : TabletSchema) (chunks : List (List Tuple)) :
    changesOf s (chunks.map (appendMvOpColumn mvOpUpsert)).flatten = chunks.flatten.map .put := by
  simp [changesOf, appendMvOpColumn, mvOpUpsert, Function.comp_def]

theorem changesOf_deletes (s : TabletSchema) (chunks : List (List Tuple)) :
    changesOf s (chunks.map (appendMvOpColumn mvOpDelete)).flatten =
      chunks.flatten.map fun row => .drop (s.keyOf row) := by
  simp [changesOf, appendMvOpColumn, mvOpDelete, Function.comp_def]

def deletedKeys (run : SelectRun mv) (batch : ChangeBatch B) : List Tuple :=
  if batch.hasDeletes then (run.chunks batch.deletedRows).flatten.map mv.schema.keyOf else []

/-- A refresh puts all inserted rows and then drops all deleted keys. -/
theorem refreshMv_holds {run : SelectRun mv} (own : plan.schema = mv.schema) (held : plan.Holds m)
    (done : refreshMv run plan batch = .ok plan') :
    Listed mv.schema.keyOf plan'.visibleRows (dropAll
      (putAll mv.schema.keyOf m (run.chunks batch.insertedRows).flatten) (deletedKeys run batch)) := by
  have within : plan.schema.sortKeyIdxes ⊆ plan.schema.keyIdxes := by
    rw [own]
    exact Subset.refl _
  obtain ⟨sameSchema,_,after⟩ := writeChunksIntoManagedPartition_ok within held done
  have listed := after.listed
  rw [sameSchema, own] at listed
  unfold refreshChunks at listed
  unfold deletedKeys
  by_cases files : batch.hasDeletes
  · rw [if_pos files]
    simpa only [files, if_true, flatten_append, changesOf_append, changesOf_upserts,
      changesOf_deletes, puts_append, drops_append, puts_of_puts, drops_of_puts, puts_of_drops,
      drops_of_drops, append_nil, nil_append] using listed
  · rw [if_neg files]
    simpa only [files, Bool.false_eq_true, if_false, changesOf_upserts, puts_of_puts,
      drops_of_puts] using listed

/-- Where the batch has delete files, no selected row of the current base has the key
of a selected deleted row. Where it has none, each selected row that was replaced has
its key put again, last with a row of the current base. -/
def Absorbed (run : SelectRun mv) (batch : ChangeBatch B) (current : List B) : Prop :=
  if batch.hasDeletes then
    ∀ d ∈ mv.physicalSelect batch.deletedRows, ∀ v ∈ mv.physicalSelect current,
      mv.schema.keyOf d ≠ mv.schema.keyOf v
  else
    ∀ d ∈ mv.physicalSelect batch.deletedRows, ∃ v ∈ mv.physicalSelect current,
      lastValue mv.schema.keyOf (run.chunks batch.insertedRows).flatten (mv.schema.keyOf d) = some v

/-- The view shows the current base after the refresh exactly where it can absorb the
batch. -/
theorem refresh_shows_current_iff {run : SelectRun mv} {plan plan' : ManagedInsertPlan}
    {batch : ChangeBatch B} {m : Tuple → Option Tuple} {old current : List B}
    (own : plan.schema = mv.schema) (held : plan.Holds m)
    (shown : plan.visibleRows.Perm (mv.physicalSelect old))
    (oldKeyed : (old.map mv.key).Nodup) (currentKeyed : (current.map mv.key).Nodup)
    (delta : (current ++ batch.deletedRows).Perm (old ++ batch.insertedRows))
    (done : refreshMv run plan batch = .ok plan') :
    plan'.visibleRows.Perm (mv.physicalSelect current) ↔ Absorbed run batch current := by
  have oldRows := physicalSelect_keyed oldKeyed
  have currentRows := physicalSelect_keyed currentKeyed
  have before : m = lastValue mv.schema.keyOf (mv.physicalSelect old) := by
    have listed := held.listed
    rw [own] at listed
    exact listed.unique ((listed_iff_perm oldRows).mpr shown)
  have selected : (mv.physicalSelect current ++ mv.physicalSelect batch.deletedRows).Perm
      (mv.physicalSelect old ++ (run.chunks batch.insertedRows).flatten) := by
    have all := (delta.filter mv.keep).map mv.physicalRow
    have inserts := run.rows batch.insertedRows
    rw [← physicalSelect_append]
    refine all.trans ?_
    change (mv.physicalSelect (old ++ batch.insertedRows)).Perm _
    rw [physicalSelect_append]
    exact inserts.symm.append_left _
  have after := refreshMv_holds own held done
  rw [before] at after
  refine Iff.trans ⟨after.of_perm,after.perm⟩ ?_
  unfold Absorbed deletedKeys
  by_cases files : batch.hasDeletes
  · rw [if_pos files, if_pos files]
    have deletes := run.rows batch.deletedRows
    rw [put_then_drop_iff currentRows ((deletes.append_left _).trans selected)]
    simp only [deletes.mem_iff]
  · rw [if_neg files, if_neg files]
    exact put_only_iff currentRows selected oldRows

end

/-! A view of the accounts that are not overdrawn. -/

structure Account where
  id : Int
  balance : Int
  deriving DecidableEq

def solvent : ProjectionMv Account :=
  ⟨1, fun a => [.int a.id], fun _ => rfl, fun a => 0 ≤ a.balance, 1, fun a => [.int a.balance]⟩

def solventRun : SelectRun solvent :=
  ⟨fun base => [solvent.physicalSelect base], fun base => by simp⟩

def emptyPlan : ManagedInsertPlan :=
  ⟨solvent.schema, fun _ => 0, [emptyTablet], cons_ne_nil _ _⟩

def openings : ChangeBatch Account :=
  ⟨[[⟨1, 10⟩, ⟨2, -5⟩], [⟨3, 30⟩]], [], [], []⟩

def closing : ChangeBatch Account :=
  ⟨[[⟨4, 40⟩]], [[⟨1, 10⟩]], [], []⟩

theorem refresh_shows_current_iff_openings :
    ∃ plan plan', refreshMv solventRun emptyPlan openings = .ok plan ∧
      refreshMv solventRun plan closing = .ok plan' ∧ closing.hasDeletes ∧
      plan'.visibleRows.Perm (solvent.physicalSelect [⟨2, -5⟩, ⟨3, 30⟩, ⟨4, 40⟩]) := by
  obtain ⟨plan,opened⟩ : ∃ plan, refreshMv solventRun emptyPlan openings = .ok plan := ⟨_,rfl⟩
  obtain ⟨own,-,held⟩ := writeChunksIntoManagedPartition_ok (Subset.refl _) (holds_emptyTablet _ _) opened
  have shown : plan.visibleRows.Perm (solvent.physicalSelect [⟨1, 10⟩, ⟨2, -5⟩, ⟨3, 30⟩]) := by
    cases opened
    decide
  obtain ⟨plan',closed⟩ : ∃ plan', refreshMv solventRun plan closing = .ok plan' := by
    cases opened
    exact ⟨_,rfl⟩
  refine ⟨plan,plan',opened,closed,rfl,?_⟩
  refine (refresh_shows_current_iff own held shown (by decide) (by decide) (by decide) closed).mpr ?_
  rw [Absorbed, if_pos (by decide)]
  decide

def onePlan : ManagedInsertPlan :=
  ⟨solvent.schema, fun _ => 0, [oneAccount], cons_ne_nil _ _⟩

/-- The account's balance is updated: its old row is under a new delete file and its
new row in a new data file. -/
def balanceUpdate : ChangeBatch Account :=
  ⟨[[⟨1, 20⟩]], [[⟨1, 10⟩]], [], []⟩

theorem updated_account_is_lost :
    ∃ plan', refreshMv solventRun onePlan balanceUpdate = .ok plan' ∧
      onePlan.visibleRows = solvent.physicalSelect [⟨1, 10⟩] ∧ plan'.visibleRows = [] ∧
      solvent.physicalSelect [⟨1, 20⟩] = [[.int 1, .int 20]] := by
  refine ⟨_,rfl,?_,?_,?_⟩
  · decide
  · decide
  · decide

end NovaRocks.Mv
