import Mathlib.Algebra.Ring.Nat
import NovaRocks.HashJoin.JoinHashTable

/-!
What the table of a hash join holds. The rows that were added are a list of entries; the
chain of a key links the entries with that key, latest first. One row more extends one
chain and leaves the others; a batch extends them row by row; the layout keeps them. In
the end the group of a probe key is the list of the rows that equal it.
-/
namespace NovaRocks.HashJoin
open NovaRocks.Store List

structure Entry (ν : Type) where
  key : List (Option ν)
  batch : Nat
  row : Nat

section
variable {ν : Type} [DecidableEq ν]

def keyAt (entries : List (Entry ν)) (id : Nat) : Option (List (Option ν)) :=
  entries[id]?.map Entry.key

def idsOf (entries : List (Entry ν)) (linked : Nat) (key : List (Option ν)) : List Nat :=
  ((List.range linked).filter fun id => decide (keyAt entries id = some key)).reverse

variable {entries : List (Entry ν)} {key : List (Option ν)}

theorem mem_idsOf {linked id : Nat} :
    id ∈ idsOf entries linked key ↔ id < linked ∧ keyAt entries id = some key := by
  simp [idsOf]

section
variable (entries : List (Entry ν)) (linked : Nat) (key : List (Option ν))

theorem nodup_idsOf : (idsOf entries linked key).Nodup := by
  rw [idsOf, nodup_reverse]
  exact nodup_range.filter _

theorem idsOf_succ :
    idsOf entries (linked + 1) key =
      if keyAt entries linked = some key then linked :: idsOf entries linked key
      else idsOf entries linked key := by
  unfold idsOf
  rw [range_succ, filter_append, reverse_append]
  by_cases same : keyAt entries linked = some key <;> simp [same]

theorem length_idsOf_le : (idsOf entries linked key).length ≤ linked :=
  length_le_of_nodup (nodup_idsOf entries linked key) fun _ member => (mem_idsOf.mp member).1

end

omit [DecidableEq ν] in
theorem keyAt_append {id : Nat} (below : id < entries.length) :
    keyAt (entries ++ more) id = keyAt entries id := by
  rw [keyAt, getElem?_append_left below, keyAt]

theorem idsOf_append (below : linked ≤ entries.length)
    (key : List (Option ν)) : idsOf (entries ++ more) linked key = idsOf entries linked key := by
  unfold idsOf
  congr 1
  apply filter_congr
  intro id member
  have inside := mem_range.mp member
  rw [keyAt_append (by omega)]

/-! ### The key table -/

theorem KeyTable.lookup_some {κ : Type} [DecidableEq κ] {table : KeyTable κ} {key : κ} {group : Nat}
    (found : table.lookup key = some group) : table.keys[group]? = some key := by
  obtain ⟨inside,same,-⟩ := findIdx?_eq_some_iff_getElem.mp found
  rw [getElem?_eq_getElem inside]
  exact congrArg some (of_decide_eq_true same)

theorem KeyTable.lookup_none {κ : Type} [DecidableEq κ] {table : KeyTable κ} {key : κ}
    (missing : table.lookup key = none) : key ∉ table.keys := by
  intro member
  have different := findIdx?_eq_none_iff.mp missing key member
  simp at different

/-! ### Tables while they are built -/

structure Linked (table : JoinHashTable ν) (entries : List (Entry ν)) (linked : Nat) : Prop where
  count : table.rowCount = entries.length
  next : table.rowNext.length = entries.length
  batches : table.rowBatchIndex = entries.map Entry.batch
  rows : table.rowInBatch = entries.map Entry.row
  fits : entries.length ≤ u32Max
  offsets : table.groupOffsets = none
  layout : table.groupRows = none
  distinct : table.keyTable.keys.Nodup
  heads : table.groupHead.length = table.keyTable.keys.length
  chains : ∀ (group : Nat) key, table.keyTable.keys[group]? = some key →
    ∃ head, table.groupHead[group]? = some head ∧
      Chain table.rowNext rowNone head (idsOf entries linked key)
  allowed : ∀ key ∈ table.keyTable.keys, rowHasForbiddenNull table.nullSafeEq key = false
  known : ∀ id < linked, ∀ key, keyAt entries id = some key →
    rowHasForbiddenNull table.nullSafeEq key = false → key ∈ table.keyTable.keys

def Used (table : JoinHashTable ν) (entries : List (Entry ν)) (linked : Nat) : Prop :=
  ∀ key ∈ table.keyTable.keys, idsOf entries linked key ≠ []

variable {table : JoinHashTable ν} {entries : List (Entry ν)} {linked : Nat} {key : List (Option ν)}

variable (here : keyAt entries linked = some key)

include here in
theorem idsOf_other
    (different : other ≠ key) : idsOf entries (linked + 1) other = idsOf entries linked other := by
  rw [idsOf_succ, if_neg]
  intro same
  rw [here] at same
  exact different (Option.some.inj same).symm

include here in
theorem idsOf_same : idsOf entries (linked + 1) key = linked :: idsOf entries linked key := by
  rw [idsOf_succ, if_pos here]

variable (holds : Linked table entries linked)

include holds in
theorem Linked.linkRow (inside : linked < entries.length)
    (here : keyAt entries linked = some key) (found : table.keyTable.keys[group]? = some key) :
    ∃ grown, table.linkRow group linked = .ok grown ∧ Linked grown entries (linked + 1) ∧
      grown.nullSafeEq = table.nullSafeEq ∧ grown.keyTable = table.keyTable := by
  obtain ⟨head,first,chain⟩ := holds.chains group key found
  have room : ¬ table.rowNext.length ≤ linked := by
    rw [holds.next]
    omega
  have live : linked ≠ rowNone := by
    have fits := holds.fits
    unfold rowNone
    omega
  have outside : ∀ other, linked ∉ idsOf entries linked other := by
    intro other member
    have below := (mem_idsOf.mp member).1
    omega
  have grown : table.linkRow group linked = .ok { table with
      rowNext := table.rowNext.set linked head
      groupHead := table.groupHead.set group linked } := by
    simp only [JoinHashTable.linkRow, first, if_neg room]
  refine ⟨_,grown,{ holds with next := ?_, heads := ?_, chains := ?_, known := ?_ },rfl,rfl⟩
  · rw [length_set]
    exact holds.next
  · rw [length_set]
    exact holds.heads
  · intro other owner known
    by_cases same : other = group
    · subst same
      have equal : owner = key := Option.some.inj (known.symm.trans found)
      subst equal
      refine ⟨linked,?_,?_⟩
      · have bound := (List.getElem?_eq_some_iff.mp first).1
        simp [bound]
      · rw [idsOf_same here]
        exact chain.push (by rw [holds.next]; exact inside) live (outside owner)
    · have different : owner ≠ key := by
        intro equal
        subst equal
        exact same ((getElem?_inj (List.getElem?_eq_some_iff.mp known).1 holds.distinct).mp
          (known.trans found.symm))
      obtain ⟨start,points,kept⟩ := holds.chains other owner known
      refine ⟨start,?_,?_⟩
      · rw [getElem?_set_ne (Ne.symm same)]
        exact points
      · rw [idsOf_other here different]
        exact kept.set (outside owner)
  · intro id below owner at' allowed
    rcases Nat.lt_succ_iff_lt_or_eq.mp below with earlier | rfl
    · exact holds.known id earlier owner at' allowed
    · have equal : owner = key := Option.some.inj (at'.symm.trans here)
      rw [equal]
      exact mem_of_getElem? found

theorem idsOf_succ_ne_nil (some' : idsOf entries linked owner ≠ []) :
    idsOf entries (linked + 1) owner ≠ [] := by
  rw [idsOf_succ]
  split
  · exact cons_ne_nil _ _
  · exact some'

include holds in
theorem Linked.idsOf_fresh (fresh : key ∉ table.keyTable.keys)
    (allowed : rowHasForbiddenNull table.nullSafeEq key = false) : idsOf entries linked key = [] := by
  apply eq_nil_iff_forall_not_mem.mpr
  intro id member
  obtain ⟨below,same⟩ := mem_idsOf.mp member
  exact fresh (holds.known id below key same allowed)

include holds in
theorem Linked.newGroup (fresh : key ∉ table.keyTable.keys)
    (allowed : rowHasForbiddenNull table.nullSafeEq key = false) :
    Linked { table with
      keyTable := ⟨table.keyTable.keys ++ [key]⟩
      groupHead := table.groupHead ++ [rowNone] } entries linked := by
  refine { holds with distinct := ?_, heads := ?_, chains := ?_, allowed := ?_, known := ?_ }
  · rw [← concat_eq_append]
    exact holds.distinct.concat fresh
  · simp [holds.heads]
  · intro group owner found
    rw [getElem?_append] at found ⊢
    rw [holds.heads]
    by_cases old : group < table.keyTable.keys.length
    · rw [if_pos old] at found ⊢
      exact holds.chains group owner found
    · rw [if_neg old] at found ⊢
      obtain ⟨at',equal⟩ : group - table.keyTable.keys.length = 0 ∧ key = owner := by
        simpa [getElem?_singleton] using found
      rw [at', ← equal, holds.idsOf_fresh fresh allowed]
      exact ⟨rowNone,rfl,.done⟩
  · exact forall_mem_append.mpr ⟨holds.allowed,forall_mem_singleton.mpr allowed⟩
  · intro id below owner at' plain
    exact mem_append_left _ (holds.known id below owner at' plain)

include holds here in
theorem Linked.skip (forbidden : rowHasForbiddenNull table.nullSafeEq key = true) :
    Linked table entries (linked + 1) := by
  refine { holds with chains := ?_, known := ?_ }
  · intro group owner found
    have different : owner ≠ key := by
      rintro rfl
      rw [holds.allowed owner (mem_of_getElem? found)] at forbidden
      cases forbidden
    rw [idsOf_other here different]
    exact holds.chains group owner found
  · intro id below owner at' allowed
    rcases Nat.lt_succ_iff_lt_or_eq.mp below with earlier | rfl
    · exact holds.known id earlier owner at' allowed
    · rw [Option.some.inj (at'.symm.trans here), forbidden] at allowed
      cases allowed

include holds in
theorem Linked.insertRow (used : Used table entries linked)
    (inside : linked < entries.length) (here : keyAt entries linked = some key) :
    ∃ grown, table.insertRow linked key = .ok grown ∧ Linked grown entries (linked + 1) ∧
      Used grown entries (linked + 1) ∧ grown.nullSafeEq = table.nullSafeEq := by
  unfold JoinHashTable.insertRow
  cases forbidden : rowHasForbiddenNull table.nullSafeEq key with
  | true =>
    exact ⟨table,rfl,holds.skip here forbidden,
      fun owner member => idsOf_succ_ne_nil (used owner member),rfl⟩
  | false =>
    simp only [KeyTable.findOrInsert]
    cases looked : table.keyTable.lookup key with
    | some group =>
      obtain ⟨grown,done,linked',safe,same⟩ :=
        holds.linkRow inside here (KeyTable.lookup_some looked)
      refine ⟨grown,done,linked',fun owner member => ?_,safe⟩
      rw [same] at member
      exact idsOf_succ_ne_nil (used owner member)
    | none =>
      have added := holds.newGroup (KeyTable.lookup_none looked) forbidden
      obtain ⟨grown,done,linked',safe,same⟩ :=
        added.linkRow inside here (getElem?_concat_length)
      simp only [JoinHashTable.handleLookup, holds.heads, ne_eq]
      refine ⟨grown,done,linked',fun owner member => ?_,safe⟩
      rw [same] at member
      rcases mem_append.mp member with old | new
      · exact idsOf_succ_ne_nil (used owner old)
      · rw [mem_singleton.mp new, idsOf_same here]
        exact cons_ne_nil _ _

theorem Linked.insertRows (keys : List (List (Option ν))) (table : JoinHashTable ν) (linked : Nat)
    (holds : Linked table entries linked) (used : Used table entries linked)
    (whole : linked + keys.length = entries.length)
    (at' : ∀ id key, keys[id]? = some key → keyAt entries (linked + id) = some key) :
    ∃ grown, table.insertRows linked keys = .ok grown ∧ Linked grown entries entries.length ∧
      Used grown entries entries.length ∧ grown.nullSafeEq = table.nullSafeEq := by
  induction keys generalizing table linked with
  | nil =>
    have all : linked = entries.length := whole
    subst all
    exact ⟨table,rfl,holds,used,rfl⟩
  | cons key keys ih =>
    have inside : linked < entries.length := by
      rw [length_cons] at whole
      omega
    obtain ⟨grown,done,linked',used',safe⟩ := holds.insertRow used inside (at' 0 key rfl)
    have rest : linked + 1 + keys.length = entries.length := by
      rw [length_cons] at whole
      omega
    obtain ⟨last,finished,all,groups,same⟩ := ih grown (linked + 1) linked' used' rest
      fun id owner found => by
        rw [Nat.add_assoc, Nat.add_comm 1 id]
        exact at' (id + 1) owner found
    refine ⟨last,?_,all,groups,same.trans safe⟩
    rw [JoinHashTable.insertRows, done]
    exact finished

def batchEntries (keys : List (List (Option ν))) (batch : Nat) : List (Entry ν) :=
  keys.zipIdx.map fun (key, row) => ⟨key, batch, row⟩

variable {keys : List (List (Option ν))}

omit [DecidableEq ν] in
@[simp] theorem length_batchEntries : (batchEntries keys batch).length = keys.length := by
  simp [batchEntries]

omit [DecidableEq ν] in
theorem keyAt_batchEntries {batch id : Nat} (found : keys[id]? = some key) :
    keyAt (entries ++ batchEntries keys batch) (entries.length + id) = some key := by
  rw [keyAt, getElem?_append_right (by omega), Nat.add_sub_cancel_left, batchEntries,
    getElem?_map, getElem?_zipIdx, found]
  simp

theorem Linked.reserve (holds : Linked table entries entries.length) (keys : List (List (Option ν)))
    (batch : Nat) (room : entries.length + keys.length ≤ u32Max) :
    Linked (table.reserve keys.length batch) (entries ++ batchEntries keys batch) entries.length := by
  refine ⟨?_,?_,?_,?_,?_,holds.offsets,holds.layout,holds.distinct,holds.heads,?_,holds.allowed,?_⟩
  · simp [JoinHashTable.reserve, holds.count]
  · simp [JoinHashTable.reserve, holds.next]
  · have all : (batchEntries keys batch).map Entry.batch = replicate keys.length batch := by
      rw [batchEntries, map_map]
      refine eq_replicate_iff.mpr ⟨by simp,?_⟩
      intro index member
      obtain ⟨pair,-,rfl⟩ := mem_map.mp member
      rfl
    simp [JoinHashTable.reserve, holds.batches, all]
  · have all : (batchEntries keys batch).map Entry.row = range keys.length := by
      rw [batchEntries, map_map, range_eq_range', ← zipIdx_map_snd]
      rfl
    simp [JoinHashTable.reserve, holds.rows, all]
  · rw [length_append, length_batchEntries]
    exact room
  · intro group owner found
    obtain ⟨head,points,chain⟩ := holds.chains group owner found
    refine ⟨head,points,?_⟩
    rw [idsOf_append (Nat.le_refl _)]
    exact chain.append
  · intro id below owner at' allowed
    rw [keyAt_append below] at at'
    exact holds.known id below owner at' allowed

theorem Linked.addBuildBatch (holds : Linked table entries entries.length)
    (used : Used table entries entries.length) (keys : List (List (Option ν))) (batch : Nat)
    (room : entries.length + keys.length ≤ u32Max) :
    ∃ grown, table.addBuildBatch table.nullSafeEq.length keys batch = .ok grown ∧
      Linked grown (entries ++ batchEntries keys batch) (entries ++ batchEntries keys batch).length ∧
      Used grown (entries ++ batchEntries keys batch) (entries ++ batchEntries keys batch).length ∧
      grown.nullSafeEq = table.nullSafeEq := by
  unfold JoinHashTable.addBuildBatch
  rw [holds.offsets, holds.layout, holds.count, guardThat_of rfl, guardThat_of room]
  cases keys with
  | nil =>
    rw [batchEntries, zipIdx_nil, map_nil, append_nil]
    exact ⟨table,rfl,holds,used,rfl⟩
  | cons key keys =>
    have reserved := holds.reserve (key :: keys) batch room
    have groups : Used (table.reserve (key :: keys).length batch)
        (entries ++ batchEntries (key :: keys) batch) entries.length := by
      intro owner member
      rw [idsOf_append (Nat.le_refl _)]
      exact used owner member
    exact Linked.insertRows (key :: keys) _ _ reserved groups
      (by rw [length_append, length_batchEntries]) fun id owner found => keyAt_batchEntries found

/-! ### The layout -/

theorem foldlM_count (slots : List Nat) (fits : start + slots.length ≤ u32Max) :
    slots.foldlM (fun count _ => checkedAdd count 1 message) start = .ok (start + slots.length) := by
  induction slots generalizing start with
  | nil => rfl
  | cons slot slots ih =>
    rw [length_cons] at fits
    rw [foldlM_cons, checkedAdd, if_pos (by omega)]
    change slots.foldlM _ (start + 1) = _
    rw [ih (by omega), length_cons, Nat.add_assoc, Nat.add_comm 1]

omit [DecidableEq ν] in
theorem countChain_eq {head : Nat} (chain : Chain table.rowNext rowNone head slots)
    (enough : slots.length ≤ table.rowNext.length) (fits : slots.length ≤ u32Max) :
    table.countChain head = .ok slots.length := by
  rw [JoinHashTable.countChain, foldChain_eq chain _ _ enough, foldlM_count slots (by omega),
    Nat.zero_add]

omit [DecidableEq ν] in
theorem countChains_eq (chains : Forall₂ (Chain table.rowNext rowNone) heads lists)
    (enough : ∀ list ∈ lists, list.length ≤ table.rowNext.length)
    (fits : ∀ list ∈ lists, list.length ≤ u32Max) : heads.mapM table.countChain = .ok (lists.map length) := by
  induction chains with
  | nil => rfl
  | @cons head list heads lists chain chains ih =>
    rw [forall_mem_cons] at enough fits
    rw [mapM_cons, countChain_eq chain enough.1 fits.1, ih enough.2 fits.2]
    rfl

theorem countOffsets_eq (counts : List Nat) (fits : start + counts.sum ≤ u32Max) :
    countOffsets start counts = .ok (offsetsFrom start counts) := by
  induction counts generalizing start with
  | nil => rfl
  | cons count counts ih =>
    rw [sum_cons] at fits
    rw [countOffsets, checkedAdd, if_pos (by omega)]
    change (countOffsets (start + count) counts >>= fun rest => _) = _
    rw [ih (by omega)]
    rfl

theorem getLastD_offsetsFrom (counts : List Nat) (start default : Nat) :
    (offsetsFrom start counts).getLastD default = start + counts.sum := by
  induction counts generalizing start default with
  | nil => rfl
  | cons count counts ih => rw [offsetsFrom, getLastD_cons, ih, sum_cons, Nat.add_assoc]

omit [DecidableEq ν] in
theorem writeChains_eq (chains : Forall₂ (Chain table.rowNext rowNone) heads lists)
    (enough : ∀ list ∈ lists, list.length ≤ table.rowNext.length) (before : List Nat) :
    table.writeChains heads (offsetsFrom before.length (lists.map length))
      (before ++ replicate lists.flatten.length 0) = .ok (before ++ lists.flatten) := by
  induction chains generalizing before with
  | nil => simp [JoinHashTable.writeChains]
  | @cons head list heads lists chain chains ih =>
    rw [forall_mem_cons] at enough
    have written : table.writeChain head before.length
        (before ++ replicate list.length 0 ++ replicate lists.flatten.length 0) =
        .ok (before.length + list.length, before ++ list ++ replicate lists.flatten.length 0) := by
      rw [JoinHashTable.writeChain, foldChain_eq chain _ _ enough.1]
      exact foldlM_place list before _ _ length_replicate
    have rest := ih enough.2 (before ++ list)
    rw [flatten_cons, length_append, replicate_add, ← append_assoc, map_cons,
      offsetsFrom, JoinHashTable.writeChains, written]
    rw [length_append, append_assoc before list lists.flatten] at rest
    exact rest

structure Laid (table : JoinHashTable ν) (entries : List (Entry ν)) : Prop where
  batches : table.rowBatchIndex = entries.map Entry.batch
  rows : table.rowInBatch = entries.map Entry.row
  groups : ∀ (group : Nat) key, table.keyTable.keys[group]? = some key →
    table.groupRowsSlice group = .ok (idsOf entries entries.length key)
  used : ∀ key ∈ table.keyTable.keys, idsOf entries entries.length key ≠ []
  known : ∀ id key, keyAt entries id = some key →
    rowHasForbiddenNull table.nullSafeEq key = false → key ∈ table.keyTable.keys
  heads : table.groupHead.length = table.keyTable.keys.length

theorem idsOf_disjoint (distinct : keys.Nodup) : (keys.map (idsOf entries linked)).flatten.Nodup := by
  rw [nodup_flatten]
  constructor
  · intro list member
    obtain ⟨key,-,rfl⟩ := mem_map.mp member
    exact nodup_idsOf entries linked key
  · rw [pairwise_map]
    apply distinct.imp
    intro a b different id first second
    have left := (mem_idsOf.mp first).2
    have right := (mem_idsOf.mp second).2
    exact different (Option.some.inj (left.symm.trans right))

include holds in
theorem Linked.chains_forall₂ :
    Forall₂ (Chain table.rowNext rowNone) table.groupHead
      (table.keyTable.keys.map (idsOf entries linked)) := by
  rw [forall₂_iff_get]
  refine ⟨by simp [holds.heads],?_⟩
  intro group first second
  have inside : group < table.keyTable.keys.length := by rw [← holds.heads]; exact first
  obtain ⟨head,points,chain⟩ := holds.chains group _ (getElem?_eq_getElem inside)
  have same : table.groupHead[group] = head := by
    rw [getElem?_eq_getElem first] at points
    exact Option.some.inj points
  simp only [get_eq_getElem, getElem_map, same]
  exact chain

theorem Linked.finalizeGroups (holds : Linked table entries entries.length)
    (used : Used table entries entries.length) :
    ∃ laid, table.finalizeGroups = .ok laid ∧ Laid laid entries ∧ laid.nullSafeEq = table.nullSafeEq := by
  generalize named : table.keyTable.keys.map (idsOf entries entries.length) = lists
  have chains : Forall₂ (Chain table.rowNext rowNone) table.groupHead lists := by
    rw [← named]
    exact holds.chains_forall₂
  have fits := holds.fits
  have next := holds.next
  have below : ∀ list ∈ lists, list.length ≤ table.rowNext.length := by
    intro list member
    rw [← named] at member
    obtain ⟨key,-,rfl⟩ := mem_map.mp member
    rw [next]
    exact length_idsOf_le entries entries.length key
  have total : lists.flatten.length ≤ entries.length := by
    rw [← named]
    apply length_le_of_nodup (idsOf_disjoint holds.distinct)
    intro id member
    obtain ⟨list,listed,inside⟩ := mem_flatten.mp member
    obtain ⟨key,-,rfl⟩ := mem_map.mp listed
    exact (mem_idsOf.mp inside).1
  have counted := countChains_eq chains below fun list member => by have := below list member; omega
  have sum : (lists.map length).sum = lists.flatten.length := length_flatten.symm
  have offsets : countOffsets 0 (lists.map length) = .ok (offsetsFrom 0 (lists.map length)) :=
    countOffsets_eq _ (by omega)
  have written := writeChains_eq chains below []
  have last : (offsetsFrom 0 (lists.map length)).getLastD 0 = lists.flatten.length := by
    rw [getLastD_offsetsFrom, sum, Nat.zero_add]
  have done : table.finalizeGroups = .ok { table with
      groupOffsets := some (offsetsFrom 0 (lists.map length))
      groupRows := some lists.flatten } := by
    unfold JoinHashTable.finalizeGroups
    rw [holds.offsets, holds.layout, counted]
    change (countOffsets 0 (lists.map length) >>= fun offsets => _) = _
    rw [offsets]
    change (table.writeChains _ _ (replicate (getLastD _ 0) 0) >>= fun rows => _) = _
    rw [last]
    rw [length_nil, nil_append, nil_append] at written
    rw [written]
    rfl
  refine ⟨_,done,⟨holds.batches,holds.rows,?_,used,?_,holds.heads⟩,rfl⟩
  · intro group key found
    have listed : lists[group]? = some (idsOf entries entries.length key) := by
      rw [← named, getElem?_map, found]
      rfl
    obtain ⟨low,starts,ends,slice⟩ := slice_flatten lists 0 group _ listed
    simp only [JoinHashTable.groupRowsSlice, starts, ends, Nat.zero_add, Nat.add_sub_cancel_left, slice]
  · intro id key at' allowed
    have inside : id < entries.length := by
      obtain ⟨entry,found,-⟩ := Option.map_eq_some_iff.mp at'
      exact (List.getElem?_eq_some_iff.mp found).1
    exact holds.known id inside key at' allowed

/-! ### What a probe key finds -/

/-- The ids of the build rows that equal the key, NULL being equal to NULL in null-safe columns only. -/
def partners (nullSafeEq : List Bool) (entries : List (Entry ν)) (key : List (Option ν)) : List Nat :=
  if rowHasForbiddenNull nullSafeEq key then [] else idsOf entries entries.length key

theorem Laid.lookup (laid : Laid table entries) (key : List (Option ν)) :
    (table.lookupGroupId key = none ∧ partners table.nullSafeEq entries key = []) ∨
      ∃ group, table.lookupGroupId key = some group ∧
        table.groupRowsSlice group = .ok (partners table.nullSafeEq entries key) ∧
        partners table.nullSafeEq entries key ≠ [] := by
  unfold JoinHashTable.lookupGroupId partners
  cases forbidden : rowHasForbiddenNull table.nullSafeEq key with
  | true => exact .inl ⟨rfl,rfl⟩
  | false =>
    cases looked : table.keyTable.lookup key with
    | none =>
      refine .inl ⟨rfl,?_⟩
      apply eq_nil_iff_forall_not_mem.mpr
      intro id member
      exact KeyTable.lookup_none looked (laid.known id key (mem_idsOf.mp member).2 forbidden)
    | some group =>
      have found := KeyTable.lookup_some looked
      exact .inr ⟨group,rfl,laid.groups group key found,laid.used key (mem_of_getElem? found)⟩

theorem Laid.rowLocation (laid : Laid table entries) {id : Nat}
    (found : entries[id]? = some entry) : table.rowLocation id = .ok (entry.batch, entry.row) := by
  simp [JoinHashTable.rowLocation, laid.batches, laid.rows, found]

theorem Laid.isEmpty (laid : Laid table entries) (empty : table.isEmpty = true) (key : List (Option ν)) :
    partners table.nullSafeEq entries key = [] := by
  have none : table.keyTable.keys = [] := by
    rw [← length_eq_zero_iff, ← laid.heads, length_eq_zero_iff]
    exact isEmpty_iff.mp empty
  rcases laid.lookup key with ⟨-,nothing⟩ | ⟨group,looked,-,-⟩
  · exact nothing
  · unfold JoinHashTable.lookupGroupId KeyTable.lookup at looked
    rw [none] at looked
    split at looked <;> cases looked

end

end NovaRocks.HashJoin
