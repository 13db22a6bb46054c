import NovaRocks.Lake.PrimaryKeyOrder

/-!
Writing chunks into the active partition of a managed table. Rows are routed to the
tablets by a hash of their key; the rows of a chunk for a tablet are one batch of its
transaction log. The logs of all tablets are published together.
-/
namespace NovaRocks.Lake
open NovaRocks.Store List
open Function (update update_of_ne update_self)

structure ManagedInsertPlan where
  schema : TabletSchema
  hash : Tuple → Nat
  tablets : List TabletMetadata
  someTablet : tablets ≠ []

namespace ManagedInsertPlan

def route (plan : ManagedInsertPlan) (key : Tuple) : Nat :=
  plan.hash key % plan.tablets.length

theorem route_lt (plan : ManagedInsertPlan) (key : Tuple) : plan.route key < plan.tablets.length :=
  Nat.mod_lt _ (length_pos_of_ne_nil plan.someTablet)

def visibleRows (plan : ManagedInsertPlan) : List Tuple :=
  plan.tablets.flatMap TabletMetadata.visibleRows

end ManagedInsertPlan

structure TxnLogs where
  logs : Nat → OpWrite
  nextFileSeq : Nat

def writeTablet (s : TabletSchema) (rows : Nat → List WriteRow) (st : TxnLogs) (idx : Nat) :
    Except String TxnLogs :=
  if (rows idx).isEmpty then .ok st
  else do
    let log ← appendLakeTxnLog s (st.logs idx) ⟨⟨0, st.nextFileSeq⟩, rows idx⟩
    return ⟨update st.logs idx log, st.nextFileSeq + 1⟩

def writeTablets (s : TabletSchema) (rows : Nat → List WriteRow) (st : TxnLogs) :
    List Nat → Except String TxnLogs
  | [] => .ok st
  | idx :: rest => do
    let st ← writeTablet s rows st idx
    writeTablets s rows st rest

def routeChunkRows (plan : ManagedInsertPlan) (chunk : List WriteRow) (idx : Nat) : List WriteRow :=
  chunk.filter fun row => plan.route (plan.schema.keyOf row.values) = idx

def writeRoutedChunks (plan : ManagedInsertPlan) (st : TxnLogs) (chunk : List WriteRow) :
    Except String TxnLogs :=
  writeTablets plan.schema (routeChunkRows plan chunk) st (List.range plan.tablets.length)

def writeChunks (plan : ManagedInsertPlan) (st : TxnLogs) : List (List WriteRow) → Except String TxnLogs
  | [] => .ok st
  | chunk :: rest => do
    let st ← writeRoutedChunks plan st chunk
    writeChunks plan st rest

def publishTablets (s : TabletSchema) (logs : Nat → OpWrite) (idx : Nat) :
    List TabletMetadata → Except String (List TabletMetadata)
  | [] => .ok []
  | t :: rest => do
    let t' ← applyPrimaryKeyWriteLogToMetadata s t (logs idx)
    let rest' ← publishTablets s logs (idx + 1) rest
    return t' :: rest'

theorem publishTablets_ok (done : publishTablets s logs idx tablets = .ok tablets') :
    tablets'.length = tablets.length ∧ ∀ j t', tablets'[j]? = some t' → ∃ t, tablets[j]? = some t ∧
        applyPrimaryKeyWriteLogToMetadata s t (logs (idx + j)) = .ok t' := by
  induction tablets generalizing idx tablets' with
  | nil =>
    cases done
    exact ⟨rfl,by simp⟩
  | cons t rest ih =>
    obtain ⟨t',first,later⟩ := bind_ok done
    obtain ⟨rest',published,last⟩ := bind_ok later
    cases last
    obtain ⟨length,each⟩ := ih published
    refine ⟨by simp [length],?_⟩
    intro j u found
    cases j with
    | zero =>
      cases found
      exact ⟨t,rfl,first⟩
    | succ j =>
      obtain ⟨t,inside,applied⟩ := each j u found
      have shifted : idx + 1 + j = idx + (j + 1) := by omega
      exact ⟨t,inside,shifted ▸ applied⟩

def writeChunksIntoManagedPartition (plan : ManagedInsertPlan) (chunks : List (List WriteRow)) :
    Except String ManagedInsertPlan := do
  let st ← writeChunks plan ⟨fun _ => ⟨none, []⟩, 0⟩ chunks
  match published : publishTablets plan.schema st.logs 0 plan.tablets with
  | .error e => .error e
  | .ok tablets => .ok ⟨plan.schema, plan.hash, tablets, by
      have same := (publishTablets_ok published).1
      intro none'
      rw [none', length_nil] at same
      exact plan.someTablet (length_eq_zero_iff.mp same.symm)⟩

/-! The log of each tablet holds the rows routed to it. -/

/-- The log holds these rows, in batches that were appended in turn. -/
def LogOf (s : TabletSchema) (nextFileSeq : Nat) (log : OpWrite) (rows : List WriteRow) : Prop :=
  ∃ batches : List WriteBatch, appendAll s ⟨none, []⟩ batches = .ok log ∧
    (batches.map WriteBatch.file).Nodup ∧ (∀ b ∈ batches, b.file.fileSeq < nextFileSeq) ∧
    batches.flatMap WriteBatch.rows = rows

theorem appendAll_append (first : appendAll s log batches = .ok mid)
    (last : appendLakeTxnLog s mid batch = .ok log') : appendAll s log (batches ++ [batch]) = .ok log' := by
  induction batches generalizing log with
  | nil =>
    cases first
    simp only [nil_append, appendAll, last]
    rfl
  | cons b rest ih =>
    obtain ⟨next,head,tail⟩ := bind_ok first
    have rest' := ih tail
    simp only [cons_append, appendAll, head]
    exact rest'

theorem LogOf.mono {rows : List WriteRow}
    (held : LogOf s n log rows) (le : n ≤ n') : LogOf s n' log rows := by
  obtain ⟨batches,appended,distinct,below,same⟩ := held
  exact ⟨batches,appended,distinct,fun b member => (below b member).trans_le le,same⟩

theorem LogOf.append {rows new : List WriteRow}
    (held : LogOf s n log rows) (done : appendLakeTxnLog s log ⟨⟨0, n⟩, new⟩ = .ok log') :
    LogOf s (n + 1) log' (rows ++ new) := by
  obtain ⟨batches,appended,distinct,below,rfl⟩ := held
  refine ⟨batches ++ [⟨⟨0,n⟩,new⟩],appendAll_append appended done,?_,?_,by simp⟩
  · rw [map_append, map_singleton, ← concat_eq_append]
    refine distinct.concat fun old => ?_
    obtain ⟨b,member,named⟩ := mem_map.mp old
    have lt := below b member
    rw [named] at lt
    exact Nat.lt_irrefl _ lt
  · exact forall_mem_append.mpr ⟨fun b old => (below b old).trans (Nat.lt_succ_self n),
      forall_mem_singleton.mpr (Nat.lt_succ_self n)⟩

def LogsOf (s : TabletSchema) (st : TxnLogs) (rows : Nat → List WriteRow) : Prop :=
  ∀ idx, LogOf s st.nextFileSeq (st.logs idx) (rows idx)

theorem writeTablet_ok {rows new : Nat → List WriteRow}
    (held : LogsOf s st rows) (done : writeTablet s new st idx = .ok st') :
    LogsOf s st' (update rows idx (rows idx ++ new idx)) := by
  unfold writeTablet at done
  by_cases nothing : (new idx).isEmpty
  · rw [if_pos nothing] at done
    cases done
    rw [isEmpty_iff.mp nothing, append_nil, Function.update_eq_self]
    exact held
  · rw [if_neg nothing] at done
    obtain ⟨log,appended,last⟩ := bind_ok done
    cases last
    intro j
    by_cases same : j = idx
    · subst same
      dsimp only
      rw [update_self, update_self]
      exact (held j).append appended
    · dsimp only
      rw [update_of_ne same, update_of_ne same]
      exact (held j).mono (Nat.le_succ _)

theorem writeTablets_ok {rows new : Nat → List WriteRow} (distinct : idxs.Nodup) (held : LogsOf s st rows)
    (done : writeTablets s new st idxs = .ok st') :
    LogsOf s st' fun j => if j ∈ idxs then rows j ++ new j else rows j := by
  induction idxs generalizing st rows with
  | nil =>
    cases done
    simpa using held
  | cons idx rest ih =>
    obtain ⟨mid,first,later⟩ := bind_ok done
    obtain ⟨notLater,restDistinct⟩ := nodup_cons.mp distinct
    have after := ih restDistinct (writeTablet_ok held first) later
    intro j
    have each := after j
    by_cases same : j = idx
    · subst same
      simpa [notLater] using each
    · simpa [same] using each

variable {plan : ManagedInsertPlan}

theorem writeChunks_ok {rows : Nat → List WriteRow} (held : LogsOf plan.schema st rows)
    (done : writeChunks plan st chunks = .ok st') (here : idx < plan.tablets.length) :
    LogOf plan.schema st'.nextFileSeq (st'.logs idx)
      (rows idx ++ routeChunkRows plan chunks.flatten idx) := by
  induction chunks generalizing st rows with
  | nil =>
    cases done
    simpa [routeChunkRows] using held idx
  | cons chunk rest ih =>
    obtain ⟨mid,first,later⟩ := bind_ok done
    have after := ih (writeTablets_ok nodup_range held first) later
    simpa [routeChunkRows, here] using after

/-! What the partition holds after a write. -/

def ManagedInsertPlan.Holds (plan : ManagedInsertPlan) (m : Tuple → Option Tuple) : Prop :=
  ∀ idx t, plan.tablets[idx]? = some t →
    t.WellFormed ∧ Lake.Holds plan.schema t (part plan.route m idx)

theorem one_tablet (t : TabletMetadata) : [t] ≠ [] :=
  cons_ne_nil _ _

theorem holds_emptyTablet (s : TabletSchema) (hash : Tuple → Nat) :
    (⟨s, hash, [emptyTablet], one_tablet _⟩ : ManagedInsertPlan).Holds fun _ => none := by
  intro idx t found
  have own : t = emptyTablet := mem_singleton.mp (mem_of_getElem? found)
  have nothing : part (ManagedInsertPlan.route ⟨s,hash,[emptyTablet],one_tablet _⟩)
      (fun _ => (none : Option Tuple)) idx = fun _ => none := by
    funext k
    simp [part]
  rw [nothing, own]
  exact ⟨emptyTablet_wellFormed,emptyTablet_holds _⟩

theorem ManagedInsertPlan.Holds.listed
    (held : plan.Holds m) : Listed plan.schema.keyOf plan.visibleRows m := by
  have parts : ∀ idx rows, (plan.tablets.map TabletMetadata.visibleRows)[idx]? = some rows →
      Listed plan.schema.keyOf rows (part plan.route m idx) := by
    intro idx rows found
    rw [getElem?_map] at found
    obtain ⟨t,inside,rfl⟩ := Option.map_eq_some_iff.mp found
    exact (held idx t inside).2
  exact listed_of_parts (by simpa using plan.route_lt) parts

theorem changes_routed (plan : ManagedInsertPlan) (rows : List WriteRow) (idx : Nat) :
    puts (changesOf plan.schema (routeChunkRows plan rows idx)) = (puts (changesOf plan.schema rows)).filter
          (fun row => plan.route (plan.schema.keyOf row) = idx) ∧
      drops (changesOf plan.schema (routeChunkRows plan rows idx)) =
        (drops (changesOf plan.schema rows)).filter (fun k => plan.route k = idx) := by
  induction rows with
  | nil => exact ⟨rfl,rfl⟩
  | cons row rest ih =>
    obtain ⟨restPuts,restDrops⟩ := ih
    by_cases here : plan.route (plan.schema.keyOf row.values) = idx <;> by_cases upsert : row.op = some 0
    all_goals
      simp [routeChunkRows, changesOf, here, upsert, puts, drops] at restPuts restDrops ⊢
      exact ⟨restPuts,restDrops⟩

theorem writes_eq_changesOf (s : TabletSchema) (batches : List WriteBatch) :
    writes s batches = changesOf s (batches.flatMap WriteBatch.rows) := by
  rw [writes, changesOf, map_flatMap]
  rfl

theorem publish_routed {rows : List WriteRow}
    (within : plan.schema.sortKeyIdxes ⊆ plan.schema.keyIdxes) (wf : t.WellFormed)
    (holds : Lake.Holds plan.schema t (part plan.route m idx))
    (logged : LogOf plan.schema n log (routeChunkRows plan rows idx))
    (done : applyPrimaryKeyWriteLogToMetadata plan.schema t log = .ok t') :
    t'.WellFormed ∧ Lake.Holds plan.schema t' (part plan.route
      (dropAll (putAll plan.schema.keyOf m (puts (changesOf plan.schema rows)))
        (drops (changesOf plan.schema rows))) idx) := by
  obtain ⟨batches,appended,distinct,_,same⟩ := logged
  obtain ⟨upserts,deletes⟩ := appendAll_ok distinct (by simp [OpWrite.names]) appended
  obtain ⟨puts',drops'⟩ := changes_routed plan rows idx
  have after := publish_holds wf holds done
  have all := writes_eq_changesOf plan.schema batches
  rw [same] at all
  rw [upserts, deletes] at after
  change t'.WellFormed ∧ Lake.Holds plan.schema t' (dropAll (putAll plan.schema.keyOf
    (part plan.route m idx) (batches.flatMap fun b => segmentRows plan.schema b.rows))
    (drops (writes plan.schema batches))) at after
  rw [putAll_segments within, all, puts', drops', ← part_putAll, ← part_dropAll] at after
  exact after

theorem writeChunksIntoManagedPartition_ok
    (within : plan.schema.sortKeyIdxes ⊆ plan.schema.keyIdxes) (held : plan.Holds m)
    (done : writeChunksIntoManagedPartition plan chunks = .ok plan') :
    plan'.schema = plan.schema ∧ plan'.hash = plan.hash ∧
      plan'.Holds (dropAll (putAll plan.schema.keyOf m (puts (changesOf plan.schema chunks.flatten)))
        (drops (changesOf plan.schema chunks.flatten))) := by
  obtain ⟨st,written,rest⟩ := bind_ok done
  split at rest
  · cases rest
  · rename_i tablets published
    cases rest
    obtain ⟨length,each⟩ := publishTablets_ok published
    refine ⟨rfl,rfl,?_⟩
    intro idx t' found
    obtain ⟨t,inside,applied⟩ := each idx t' found
    rw [Nat.zero_add] at applied
    obtain ⟨here,_⟩ := List.getElem?_eq_some_iff.mp inside
    have start : LogsOf plan.schema ⟨fun _ => ⟨none,[]⟩,0⟩ fun _ => [] := by
      intro _
      exact ⟨[],rfl,nodup_nil,by simp,rfl⟩
    have logged := writeChunks_ok start written here
    obtain ⟨wf,holds⟩ := held idx t inside
    have sameRoute : (fun k => plan.hash k % tablets.length) = plan.route := by
      rw [length]
      rfl
    change t'.WellFormed ∧ Lake.Holds plan.schema t'
      (part (fun k => plan.hash k % tablets.length) _ idx)
    rw [sameRoute]
    exact publish_routed within wf holds logged applied

/-- A transaction on the map: all upserts, then all deletes. -/
def transact (s : TabletSchema) (m : Tuple → Option Tuple) (chunks : List (List WriteRow)) : Tuple → Option Tuple :=
  dropAll (putAll s.keyOf m (puts (changesOf s chunks.flatten))) (drops (changesOf s chunks.flatten))

/-- A managed table is a map from keys to rows: it shows the map that its transactions give one
after the other, however their rows lie in chunks, tablets, segments and delete vectors. -/
theorem writes_refine_map {plan' : ManagedInsertPlan} {transactions : List (List (List WriteRow))}
    {m : Tuple → Option Tuple} (within : plan.schema.sortKeyIdxes ⊆ plan.schema.keyIdxes) (held : plan.Holds m)
    (done : transactions.foldlM writeChunksIntoManagedPartition plan = .ok plan') :
    Listed plan.schema.keyOf plan'.visibleRows (transactions.foldl (transact plan.schema) m) := by
  induction transactions generalizing plan m with
  | nil =>
    cases done
    exact held.listed
  | cons chunks transactions ih =>
    obtain ⟨next,first,rest⟩ := bind_ok done
    obtain ⟨same,-,after⟩ := writeChunksIntoManagedPartition_ok within held first
    have last := ih (by rwa [same]) after rest
    rwa [same] at last

def accountChanges : List (List (List WriteRow)) :=
  [[[upsertRow (account 1 10)]], [[deleteRow (account 1 10)], [upsertRow (account 2 20)]]]

theorem writes_refine_map_accounts : ∃ plan', accountChanges.foldlM writeChunksIntoManagedPartition
      ⟨accountsSchema, fun _ => 0, [emptyTablet], one_tablet _⟩ = .ok plan' ∧
    Listed accountsSchema.keyOf plan'.visibleRows (accountChanges.foldl (transact accountsSchema) fun _ => none) :=
  ⟨_,rfl,writes_refine_map (Subset.refl _) (holds_emptyTablet _ fun _ => 0) rfl⟩

/-! A chunk of upserts is written and published. -/

/-- Rows can be sorted: there are sort columns, and the table has them. -/
def TabletSchema.Sortable (s : TabletSchema) : Prop :=
  s.sortKeyIdxes ≠ [] ∧ ∀ idx ∈ s.sortKeyIdxes, idx < s.columns

def OpWrite.Clean (s : TabletSchema) (log : OpWrite) : Prop :=
  log.dels = [] ∧ ∀ row ∈ log.upserts, .null ∉ s.keyOf row

theorem parseOpBatch_upserts {rows : List WriteRow} (upserts : ∀ row ∈ rows, row.op = some 0) :
    parseOpBatch rows = .ok (rows.map WriteRow.values, []) := by
  induction rows with
  | nil => rfl
  | cons row rest ih =>
    rw [forall_mem_cons] at upserts
    simp [parseOpBatch, upserts.1, ih upserts.2]

theorem sortBatchForNativeWrite_succeeds (sortable : s.Sortable) (rows : List Tuple) :
    ∃ sorted, sortBatchForNativeWrite s rows = .ok sorted := by
  unfold sortBatchForNativeWrite
  by_cases few : rows.length ≤ 1
  · exact ⟨rows,if_pos few⟩
  · have inRange : ¬ (s.sortKeyIdxes.any (· ≥ s.columns)) := by
      simp only [any_eq_true, decide_eq_true_eq, not_exists, not_and, not_le]
      intro idx member
      exact sortable.2 idx member
    rw [if_neg few, if_neg (by simpa using sortable.1), if_neg inRange]
    exact ⟨_,rfl⟩

theorem appendLakeTxnLog_upserts (sortable : s.Sortable) (name : FileName) {rows : List WriteRow}
    (some' : rows ≠ []) (upserts : ∀ row ∈ rows, row.op = some 0 ∧ .null ∉ s.keyOf row.values) :
    ∃ log, appendLakeTxnLog s ⟨none, []⟩ ⟨name, rows⟩ = .ok log ∧ log.Clean s := by
  obtain ⟨sorted,wasSorted⟩ := sortBatchForNativeWrite_succeeds sortable (rows.map WriteRow.values)
  have nonempty : rows.isEmpty = false := by simpa using some'
  refine ⟨⟨some [⟨name,sorted⟩],[]⟩,?_,rfl,?_⟩
  · simp [appendLakeTxnLog, guardThat, nonempty, resolveLakeBatchWriteRouting,
      parseOpBatch_upserts fun row member => (upserts row member).1, buildRowsetForUpsertBatch, wasSorted,
      bind, Except.bind, pure, Except.pure, upsertWriteRowsetInTxnLog, addDels]
  · intro row member
    rw [sortBatchForNativeWrite_ok wasSorted] at member
    simp only [OpWrite.upserts, Option.getD_some, flatMap_cons, flatMap_nil, append_nil,
      mem_insertionSort] at member
    obtain ⟨r,inside,rfl⟩ := mem_map.mp member
    exact (upserts r inside).2

theorem writeTablets_upserts (sortable : s.Sortable)
    (upserts : ∀ idx, ∀ row ∈ new idx, row.op = some 0 ∧ .null ∉ s.keyOf row.values) (st : TxnLogs)
    (distinct : idxs.Nodup) (empty : ∀ idx ∈ idxs, st.logs idx = ⟨none, []⟩)
    (clean : ∀ idx, (st.logs idx).Clean s) :
    ∃ st', writeTablets s new st idxs = .ok st' ∧ ∀ idx, (st'.logs idx).Clean s := by
  induction idxs generalizing st with
  | nil => exact ⟨st,rfl,clean⟩
  | cons idx rest ih =>
    obtain ⟨notLater,restDistinct⟩ := nodup_cons.mp distinct
    obtain ⟨hereEmpty,restEmpty⟩ := forall_mem_cons.mp empty
    by_cases nothing : new idx = []
    · obtain ⟨st',done,after⟩ := ih st restDistinct restEmpty clean
      refine ⟨st',?_,after⟩
      simpa [writeTablets, writeTablet, nothing, bind, Except.bind] using done
    · obtain ⟨log,appended,logClean⟩ :=
        appendLakeTxnLog_upserts sortable ⟨0,st.nextFileSeq⟩ nothing (upserts idx)
      have stillEmpty : ∀ j ∈ rest, update st.logs idx log j = ⟨none,[]⟩ := by
        intro j member
        have other : j ≠ idx := fun same => notLater (same ▸ member)
        rw [update_of_ne other]
        exact restEmpty j member
      have stillClean : ∀ j, (update st.logs idx log j).Clean s :=
        (Function.forall_update_iff st.logs fun _ log => log.Clean s).mpr ⟨logClean,fun j _ => clean j⟩
      obtain ⟨st',done,after⟩ := ih ⟨update st.logs idx log,st.nextFileSeq + 1⟩
        restDistinct stillEmpty stillClean
      refine ⟨st',?_,after⟩
      have step : writeTablet s new st idx = .ok ⟨update st.logs idx log,st.nextFileSeq + 1⟩ := by
        rw [writeTablet, if_neg (by simpa using nothing), hereEmpty, appended]
        rfl
      rw [writeTablets, step]
      exact done

theorem publish_clean (stored : ∀ p ∈ rowRefs t.placed, .null ∉ s.keyOf p.2) (clean : log.Clean s) :
    ∃ t', applyPrimaryKeyWriteLogToMetadata s t log = .ok t' ∧
      ∀ p ∈ rowRefs t'.placed, .null ∉ s.keyOf p.2 := by
  obtain ⟨noDels,keys⟩ := clean
  unfold applyPrimaryKeyWriteLogToMetadata
  cases logged : log.rowset with
  | none => exact ⟨t,by simp [noDels],stored⟩
  | some segments =>
    dsimp only
    split
    · exact ⟨t,rfl,stored⟩
    · rw [OpWrite.upserts, logged, Option.getD_some] at keys
      have new := rowRefs_encode t.newRowsetId keys
      rw [buildVisiblePrimaryKeyIndex, encodePrimaryKeys_isOk stored, encodePrimaryKeys_isOk new]
      refine ⟨_,rfl,?_⟩
      change ∀ p ∈ rowRefs (published t segments _).placed, _
      rw [published_placed, rowRefs_append]
      exact forall_mem_append.mpr ⟨stored,new⟩

theorem publishTablets_succeeds (clean : ∀ idx, (logs idx).Clean s)
    (stored : ∀ t ∈ tablets, ∀ p ∈ rowRefs t.placed, .null ∉ s.keyOf p.2) (idx : Nat) :
    ∃ tablets', publishTablets s logs idx tablets = .ok tablets' ∧
      ∀ t ∈ tablets', ∀ p ∈ rowRefs t.placed, .null ∉ s.keyOf p.2 := by
  induction tablets generalizing idx with
  | nil => exact ⟨[],rfl,stored⟩
  | cons t rest ih =>
    rw [forall_mem_cons] at stored
    obtain ⟨t',first,kept⟩ := publish_clean stored.1 (clean idx)
    obtain ⟨rest',later,restKept⟩ := ih stored.2 (idx + 1)
    refine ⟨t' :: rest',?_,forall_mem_cons.mpr ⟨kept,restKept⟩⟩
    rw [publishTablets, first]
    rw [later]
    rfl

theorem writeUpserts_succeeds (sortable : plan.schema.Sortable)
    (upserts : ∀ row ∈ chunk, row.op = some 0 ∧ .null ∉ plan.schema.keyOf row.values)
    (stored : ∀ t ∈ plan.tablets, ∀ p ∈ rowRefs t.placed, .null ∉ plan.schema.keyOf p.2) :
    ∃ plan', writeChunksIntoManagedPartition plan [chunk] = .ok plan' ∧
      ∀ t ∈ plan'.tablets, ∀ p ∈ rowRefs t.placed, .null ∉ plan.schema.keyOf p.2 := by
  have start : ∀ idx, ((fun _ => ⟨none,[]⟩ : Nat → OpWrite) idx).Clean plan.schema := by
    intro _
    exact ⟨rfl,by simp [OpWrite.upserts]⟩
  obtain ⟨st,written,clean⟩ := writeTablets_upserts sortable
    (fun idx row (member : row ∈ routeChunkRows plan chunk idx) => upserts row (mem_of_mem_filter member))
    ⟨fun _ => ⟨none,[]⟩,0⟩
    (nodup_range (n := plan.tablets.length)) (fun _ _ => rfl) start
  obtain ⟨tablets,published,kept⟩ := publishTablets_succeeds clean stored 0
  have chunks : writeChunks plan ⟨fun _ => ⟨none,[]⟩,0⟩ [chunk] = .ok st := by
    rw [writeChunks, writeRoutedChunks, written]
    rfl
  unfold writeChunksIntoManagedPartition
  rw [chunks]
  dsimp only [bind, Except.bind]
  split
  · rename_i e failed
    cases published.symm.trans failed
  · rename_i again
    cases published.symm.trans again
    exact ⟨_,rfl,kept⟩

end NovaRocks.Lake
