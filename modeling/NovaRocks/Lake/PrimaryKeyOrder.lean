import NovaRocks.Lake.Publish

/-!
Row operations of a transaction in write order. Publishing applies all deletes
after all upserts, and the upserts of a batch in the order of the sort key. Both
orders can differ from the order of the writes.
-/
namespace NovaRocks.Lake
open NovaRocks.Store List

def writes (s : TabletSchema) (batches : List WriteBatch) : List (Change Tuple Tuple) :=
  batches.flatMap fun b => changesOf s b.rows

/-- In the last batch that upserts the key, no row of the key sorts after this one. -/
def GreatestInBatch (s : TabletSchema) (batches : List WriteBatch) (k row : Tuple) : Prop :=
  ∀ earlier b later, batches = earlier ++ b :: later →
    (∀ r ∈ puts (writes s later), s.keyOf r ≠ k) →
    ∀ r ∈ puts (changesOf s b.rows), s.keyOf r = k → s.SortsBefore r row

/-- A key whose last operation is an upsert is never deleted in the transaction, and
the row of that upsert is the greatest of the key in its batch. -/
def InOrder (s : TabletSchema) (batches : List WriteBatch) : Prop :=
  ∀ k row, lastChange s.keyOf (writes s batches) k = some (.put row) →
    .drop k ∉ writes s batches ∧ GreatestInBatch s batches k row

theorem puts_writes (s : TabletSchema) (batches : List WriteBatch) :
    puts (writes s batches) = batches.flatMap fun b => puts (changesOf s b.rows) := by
  induction batches with
  | nil => rfl
  | cons b rest ih =>
    have split' : writes s (b :: rest) = changesOf s b.rows ++ writes s rest := rfl
    rw [split', puts_append, ih, flatMap_cons]

theorem mem_segments_iff :
    row ∈ (batches.flatMap fun b => segmentRows s b.rows) ↔ row ∈ puts (writes s batches) := by
  simp [puts_writes, segmentRows]

theorem lastValue_segments_none (none' : lastValue s.keyOf (puts (writes s batches)) k = none) :
    lastValue s.keyOf (batches.flatMap fun b => segmentRows s b.rows) k = none := by
  cases found : lastValue s.keyOf (batches.flatMap fun b => segmentRows s b.rows) k with
  | none => rfl
  | some row =>
    obtain ⟨member,own⟩ := lastValue_mem found
    exact (lastValue_none none' row (mem_segments_iff.mp member) own).elim

theorem lastValue_segments_iff (last : lastValue s.keyOf (puts (writes s batches)) k = some row) :
    lastValue s.keyOf (batches.flatMap fun b => segmentRows s b.rows) k = some row ↔
      GreatestInBatch s batches k row := by
  rw [puts_writes] at last
  have sorted := lastValue_sorted_batches_iff (fun b : WriteBatch => puts (changesOf s b.rows))
    (fun a b => lexLe_total (s.sortKeyOf a) (s.sortKeyOf b))
    (fun a b c => lexLe_trans (s.sortKeyOf a) (s.sortKeyOf b) (s.sortKeyOf c)) last
  rw [GreatestInBatch]
  simp only [puts_writes]
  exact sorted

theorem undropped_key_iff (never : .drop k ∉ writes s batches) :
    putAll s.keyOf m (batches.flatMap fun b => segmentRows s b.rows) k =
        applyAll s.keyOf m (writes s batches) k ↔
      ∀ row, lastChange s.keyOf (writes s batches) k = some (.put row) →
        GreatestInBatch s batches k row := by
  rw [putAll_apply, applyAll_apply, lastChange_of_undropped never]
  cases last : lastValue s.keyOf (puts (writes s batches)) k with
  | none => simp [lastValue_segments_none last]
  | some row =>
    obtain ⟨member,own⟩ := lastValue_mem last
    obtain ⟨row',found⟩ := lastValue_isSome s.keyOf (mem_segments_iff.mpr member) own
    have greatest := lastValue_segments_iff last
    simp [← greatest, found]

theorem logged_key_iff : dropAll (putAll s.keyOf m (batches.flatMap fun b => segmentRows s b.rows))
        (drops (writes s batches)) k = applyAll s.keyOf m (writes s batches) k ↔
      ∀ row, lastChange s.keyOf (writes s batches) k = some (.put row) →
        .drop k ∉ writes s batches ∧ GreatestInBatch s batches k row := by
  rw [dropAll_apply]
  by_cases dropped : .drop k ∈ writes s batches
  · rw [if_pos (mem_drops_iff.mpr dropped), applyAll_apply]
    obtain ⟨c,last⟩ : ∃ c, lastChange s.keyOf (writes s batches) k = some c :=
      lastValue_isSome (Change.keyOf s.keyOf) dropped rfl
    rw [last]
    cases c with
    | put row => simp [dropped]
    | drop d => simp
  · rw [if_neg (fun member => dropped (mem_drops_iff.mp member)), undropped_key_iff dropped]
    simp [dropped]

theorem greatest_of_sort_by_key (within : s.sortKeyIdxes ⊆ s.keyIdxes) (own : s.keyOf row = k) :
    GreatestInBatch s batches k row := by
  intro _ b _ _ _ r _ ownR
  have cells : ∀ idx ∈ s.sortKeyIdxes, r.getD idx .null = row.getD idx .null := by
    intro idx member
    have sameKey : s.keyOf r = s.keyOf row := by rw [ownR, own]
    exact map_inj_left.mp sameKey idx (within member)
  have same : s.sortKeyOf r = s.sortKeyOf row := map_inj_left.mpr cells
  rw [TabletSchema.SortsBefore, same]
  exact (lexLe_total (s.sortKeyOf row) (s.sortKeyOf row)).elim id id

theorem putAll_segments (within : s.sortKeyIdxes ⊆ s.keyIdxes)
    (m : Tuple → Option Tuple) (batches : List WriteBatch) :
    putAll s.keyOf m (batches.flatMap fun b => segmentRows s b.rows) =
      putAll s.keyOf m (puts (writes s batches)) := by
  funext k
  rw [putAll_apply, putAll_apply]
  cases last : lastValue s.keyOf (puts (writes s batches)) k with
  | none => rw [lastValue_segments_none last]
  | some row =>
    have own := (lastValue_mem last).2
    rw [(lastValue_segments_iff last).mpr (greatest_of_sort_by_key within own)]

/-- The visible rows after the transaction are those of its row operations applied
one by one exactly where its operations are in order. -/
theorem publish_in_write_order_iff {s : TabletSchema} {t t' : TabletMetadata} {log : OpWrite}
    {m : Tuple → Option Tuple} {batches : List WriteBatch} (wf : t.WellFormed) (holds : Holds s t m)
    (distinct : (batches.map WriteBatch.file).Nodup) (logged : appendAll s ⟨none, []⟩ batches = .ok log)
    (done : applyPrimaryKeyWriteLogToMetadata s t log = .ok t') :
    Holds s t' (applyAll s.keyOf m (writes s batches)) ↔ InOrder s batches := by
  obtain ⟨upserts,deletes⟩ := appendAll_ok distinct (by simp [OpWrite.names]) logged
  have after := (publish_holds wf holds done).2
  rw [upserts, deletes] at after
  have result : Holds s t' (applyAll s.keyOf m (writes s batches)) ↔
      dropAll (putAll s.keyOf m (batches.flatMap fun b => segmentRows s b.rows))
        (drops (writes s batches)) = applyAll s.keyOf m (writes s batches) := by
    constructor
    · exact after.unique
    · intro same
      rw [← same]
      exact after
  rw [result, funext_iff]
  constructor
  · intro each k
    exact logged_key_iff.mp (each k)
  · intro inOrder k
    exact logged_key_iff.mpr (inOrder k)

/-! A tablet of accounts with balances, sorted by the account. -/

def accountsSchema : TabletSchema :=
  ⟨2, [0], [0]⟩

def account (id balance : Int) : Tuple :=
  [.int id, .int balance]

def emptyTablet : TabletMetadata :=
  ⟨[], none, fun _ => []⟩

theorem emptyTablet_wellFormed : emptyTablet.WellFormed :=
  ⟨nodup_nil,by simp [emptyTablet, TabletMetadata.placed],fun _ _ => rfl⟩

theorem emptyTablet_holds (s : TabletSchema) : Holds s emptyTablet fun _ => none :=
  ⟨nodup_nil,by simp [emptyTablet, TabletMetadata.visibleRows, TabletMetadata.visible,
    TabletMetadata.placed, rowRefs],by simp⟩

def upsertRow (row : Tuple) : WriteRow :=
  ⟨some 0, row⟩

def deleteRow (row : Tuple) : WriteRow :=
  ⟨some 1, row⟩

def accountWrites : List WriteBatch :=
  [⟨⟨0, 0⟩, [upsertRow (account 1 10), upsertRow (account 2 20)]⟩,
    ⟨⟨0, 1⟩, [deleteRow (account 2 20), upsertRow (account 1 11)]⟩]

theorem publish_in_write_order_iff_accounts :
    ∃ log t', appendAll accountsSchema ⟨none, []⟩ accountWrites = .ok log ∧
      applyPrimaryKeyWriteLogToMetadata accountsSchema emptyTablet log = .ok t' ∧
      t'.visibleRows = [account 1 11] ∧
      (Holds accountsSchema t' (applyAll accountsSchema.keyOf (fun _ => none)
        (writes accountsSchema accountWrites)) ↔ InOrder accountsSchema accountWrites) := by
  obtain ⟨log,logged⟩ : ∃ log, appendAll accountsSchema ⟨none,[]⟩ accountWrites = .ok log :=
    ⟨_,rfl⟩
  obtain ⟨t',done⟩ : ∃ t', applyPrimaryKeyWriteLogToMetadata accountsSchema emptyTablet log = .ok t' := by
    cases logged
    exact ⟨_,rfl⟩
  refine ⟨log,t',logged,done,?_,publish_in_write_order_iff emptyTablet_wellFormed
    (emptyTablet_holds _) (by decide) logged done⟩
  cases logged
  cases done
  decide

def oneAccount : TabletMetadata :=
  ⟨[⟨1, [⟨⟨9, 0⟩, [account 1 10]⟩]⟩], some 2, fun _ => []⟩

/-- An account is deleted and opened again in one batch; both the old and the new row
are gone. -/
theorem reopened_account_is_lost :
    ∃ log t', appendAll accountsSchema ⟨none, []⟩
        [⟨⟨0, 0⟩, [deleteRow (account 1 10), upsertRow (account 1 0)]⟩] = .ok log ∧
      applyPrimaryKeyWriteLogToMetadata accountsSchema oneAccount log = .ok t' ∧
      oneAccount.visibleRows = [account 1 10] ∧ t'.visibleRows = [] ∧
      applyAll accountsSchema.keyOf (fun k => if k = [.int 1] then some (account 1 10) else none)
        (writes accountsSchema [⟨⟨0, 0⟩, [deleteRow (account 1 10), upsertRow (account 1 0)]⟩])
        [.int 1] = some (account 1 0) := by
  refine ⟨_,_,rfl,rfl,?_,?_,?_⟩
  · decide
  · decide
  · decide

end NovaRocks.Lake
