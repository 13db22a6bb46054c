import NovaRocks.Store.Chains
import NovaRocks.Store.Checked

/-!
The table of a hash join. Build rows get ids in the order in which their batches come;
the rows of one key are linked to a chain, the latest first. When all batches are in,
the chains are laid out one after another, and a group is a slice of that array. The key
table, which finds the group of a key, is taken as correct: it is the list of the keys
seen, a key's group being its position. A key is the list of the values of the key
columns, `none` for NULL.
-/
namespace NovaRocks.HashJoin
open NovaRocks.Store

def u32Max : Nat :=
  4294967295

def rowNone : Nat :=
  u32Max

def checkedAdd (a b : Nat) (message : String) : Except String Nat :=
  if a + b ≤ u32Max then .ok (a + b) else .error message

structure KeyLookup where
  groupId : Nat
  isNew : Bool

structure KeyTable (κ : Type) where
  keys : List κ

def KeyTable.lookup {κ : Type} [DecidableEq κ] (table : KeyTable κ) (key : κ) : Option Nat :=
  table.keys.findIdx? fun known => decide (known = key)

def KeyTable.findOrInsert {κ : Type} [DecidableEq κ] (table : KeyTable κ) (key : κ) :
    KeyLookup × KeyTable κ :=
  match table.lookup key with
  | some group => (⟨group, false⟩, table)
  | none => (⟨table.keys.length, true⟩, ⟨table.keys ++ [key]⟩)

structure JoinHashTable (ν : Type) where
  keyTable : KeyTable (List (Option ν))
  nullSafeEq : List Bool
  groupHead : List Nat
  rowNext : List Nat
  rowBatchIndex : List Nat
  rowInBatch : List Nat
  rowCount : Nat
  groupOffsets : Option (List Nat)
  groupRows : Option (List Nat)

def rowHasForbiddenNull {ν : Type} : List Bool → List (Option ν) → Bool
  | safe :: flags, value :: values => (!safe && value.isNone) || rowHasForbiddenNull flags values
  | [], value :: values => value.isNone || rowHasForbiddenNull [] values
  | _, [] => false

section
variable [DecidableEq ν]

def JoinHashTable.new (nullSafeEq : List Bool) (keyTypes : Nat) : Except String (JoinHashTable ν) := do
  guardThat (keyTypes ≠ 0) "join hash table requires join keys"
  guardThat (keyTypes = nullSafeEq.length)
    s!"join hash table null-safe key count mismatch: key_types={keyTypes} flags={nullSafeEq.length}"
  .ok ⟨⟨[]⟩, nullSafeEq, [], [], [], [], 0, none, none⟩

def JoinHashTable.isEmpty (table : JoinHashTable ν) : Bool :=
  table.groupHead.isEmpty

variable (table : JoinHashTable ν)

def JoinHashTable.linkRow (groupId rowId : Nat) : Except String (JoinHashTable ν) :=
  match table.groupHead[groupId]? with
  | none => .error "join group id out of bounds"
  | some head =>
    if table.rowNext.length ≤ rowId then .error "join row id out of bounds"
    else .ok { table with
      rowNext := table.rowNext.set rowId head
      groupHead := table.groupHead.set groupId rowId }

def JoinHashTable.handleLookup (lookup : KeyLookup) (rowId : Nat) : Except String (JoinHashTable ν) :=
  if lookup.isNew then
    if lookup.groupId ≠ table.groupHead.length then .error "join group id out of bounds"
    else { table with groupHead := table.groupHead ++ [rowNone] }.linkRow lookup.groupId rowId
  else table.linkRow lookup.groupId rowId

/-- A row whose key has a forbidden NULL keeps its id but is in no group. -/
def JoinHashTable.insertRow (rowId : Nat) (key : List (Option ν)) : Except String (JoinHashTable ν) :=
  if rowHasForbiddenNull table.nullSafeEq key then .ok table
  else
    let found := table.keyTable.findOrInsert key
    { table with keyTable := found.2 }.handleLookup found.1 rowId

def JoinHashTable.insertRows (table : JoinHashTable ν) : Nat → List (List (Option ν)) →
    Except String (JoinHashTable ν)
  | _, [] => .ok table
  | rowId, key :: keys => do
    let inserted ← table.insertRow rowId key
    inserted.insertRows (rowId + 1) keys

/-- The slots of the new rows are made before the rows are linked. -/
def JoinHashTable.reserve (numRows batchIndex : Nat) : JoinHashTable ν :=
  { table with
    rowNext := table.rowNext ++ List.replicate numRows rowNone
    rowBatchIndex := table.rowBatchIndex ++ List.replicate numRows batchIndex
    rowInBatch := table.rowInBatch ++ List.range numRows
    rowCount := table.rowCount + numRows }

def JoinHashTable.addBuildBatch (keyCount : Nat) (keys : List (List (Option ν)))
    (batchIndex : Nat) : Except String (JoinHashTable ν) := do
  guardThat (table.groupOffsets.isNone && table.groupRows.isNone) "join hash table already finalized"
  guardThat (keyCount = table.nullSafeEq.length) "join key length mismatch"
  if keys.isEmpty then .ok table
  else
    guardThat (table.rowCount + keys.length ≤ u32Max) "join build row count overflow"
    (table.reserve keys.length batchIndex).insertRows table.rowCount keys

/-! ### Laying out the groups -/

def JoinHashTable.countChain (head : Nat) : Except String Nat :=
  foldChain table.rowNext rowNone "join row id out of bounds" "join chain does not end"
    (fun count _ => checkedAdd count 1 "join group row count overflow") table.rowNext.length head 0

def countOffsets : Nat → List Nat → Except String (List Nat)
  | total, [] => .ok [total]
  | total, count :: counts => do
    let sum ← checkedAdd total count "join group rows overflow"
    let rest ← countOffsets sum counts
    .ok (total :: rest)

def JoinHashTable.writeChain (head offset : Nat) (rows : List Nat) : Except String (Nat × List Nat) :=
  foldChain table.rowNext rowNone "join row id out of bounds" "join chain does not end"
    (place "join group row index out of bounds") table.rowNext.length head (offset, rows)

def JoinHashTable.writeChains (table : JoinHashTable ν) : List Nat → List Nat → List Nat →
    Except String (List Nat)
  | head :: heads, offset :: offsets, rows => do
    let written ← table.writeChain head offset rows
    table.writeChains heads offsets written.2
  | _, _, rows => .ok rows

def JoinHashTable.finalizeGroups : Except String (JoinHashTable ν) :=
  if table.groupOffsets.isSome || table.groupRows.isSome then .ok table
  else do
    let counts ← table.groupHead.mapM table.countChain
    let offsets ← countOffsets 0 counts
    let rows ← table.writeChains table.groupHead offsets (List.replicate (offsets.getLastD 0) 0)
    .ok { table with groupOffsets := some offsets, groupRows := some rows }

def JoinHashTable.groupRowsSlice (groupId : Nat) : Except String (List Nat) :=
  match table.groupOffsets, table.groupRows with
  | none, _ => .error "join group offsets missing"
  | some _, none => .error "join group rows missing"
  | some offsets, some rows =>
    match offsets[groupId]?, offsets[groupId + 1]? with
    | some start, some finish => .ok ((rows.drop start).take (finish - start))
    | _, _ => .error "join group id out of bounds"

def JoinHashTable.rowLocation (rowId : Nat) : Except String (Nat × Nat) :=
  match table.rowBatchIndex[rowId]?, table.rowInBatch[rowId]? with
  | some batch, some row => .ok (batch, row)
  | _, _ => .error "join row id out of bounds"

def JoinHashTable.lookupGroupId (key : List (Option ν)) : Option Nat :=
  if rowHasForbiddenNull table.nullSafeEq key then none else table.keyTable.lookup key

end

end NovaRocks.HashJoin
