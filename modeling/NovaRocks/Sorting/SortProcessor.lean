import NovaRocks.Sql.SortOrder
import NovaRocks.Relational.Ranks
import NovaRocks.Store.Checked

/-!
The sort operator. Chunks are buffered until the input ends. In top-n mode the
buffer is cut from time to time to what the answer can still need, by a bounded
heap, by a boundary row or by counting ranks, and in every mode it may be sorted
into a run and spilled. At the end the runs and the buffer give the answer.
-/
namespace NovaRocks
open Relational

inductive SortTopNType
  | rowNumber
  | rank
  | denseRank
deriving DecidableEq

inductive SpillMode
  | none
  | force
  | auto
  | random
deriving DecidableEq

structure SpillConfig where
  enableSpill : Bool
  spillMode : SpillMode
  spillOperatorMinBytes : Option Int
  spillOperatorMaxBytes : Option Int
  spillMemTableSize : Option Int
  spillMemTableNum : Option Int
  /-- of the spill storage -/
  blockSizeBytes : Nat

structure SortProcessor where
  interp : Interp
  ordered : interp.Ordered
  env : Row → Env
  orderBy : List SortItem
  useTopN : Bool
  limit : Option Nat
  offset : Nat
  topnType : SortTopNType
  maxBufferedRows : Option Nat
  maxBufferedBytes : Option Nat
  spill : Option SpillConfig
  estimatedBytes : List Row → Nat
  encodedBytes : List Row → Nat
  /-- the sort kernel; it is not stable -/
  lexsort : List Row → List Row
  lexsort_sorts : ∀ rows, Sorts (rowBefore interp env orderBy) rows (lexsort rows)

/-- The chunks in memory and the spilled runs, each one batch. -/
structure SortState where
  buffered : List (List Row)
  runs : List (List Row)

def asChunk (rows : List Row) : Option (List Row) :=
  if rows.isEmpty then none else some rows

namespace SortProcessor
variable (p : SortProcessor)

abbrev before : Row → Row → Prop :=
  rowBefore p.interp p.env p.orderBy

def keys : Row → List Value :=
  sortKeys p.interp p.env p.orderBy

def rowsToKeepForTopn : Option Nat :=
  if !p.useTopN || p.topnType ≠ .rowNumber then none else p.limit.map (p.offset + ·)

def rankLikeLimitForTopn : Option Nat :=
  if !p.useTopN || p.topnType = .rowNumber then none else p.limit

def isRankLikeTopn : Bool :=
  p.useTopN && p.topnType ≠ .rowNumber

def topnCutoffBase : Option Nat :=
  p.rowsToKeepForTopn.or p.rankLikeLimitForTopn

/-! The heap is kept as its entries from best to worst: by key, then by arrival. -/

def pushEntry (row : Row) : List Row → List Row
  | [] => [row]
  | entry :: heap => if p.before entry row then entry :: pushEntry row heap else row :: entry :: heap

def update (rowsToKeep : Nat) (heap : List Row) (row : Row) : List Row :=
  if heap.length < rowsToKeep then p.pushEntry row heap
  else match heap.getLast? with
    | some worst => if ¬ p.before worst row then p.pushEntry row heap.dropLast else heap
    | none => heap

def sortChunksTopnHeap (rowsToKeep : Nat) (chunks : List (List Row)) : Option (List Row) :=
  if rowsToKeep = 0 then none
  else if p.orderBy.isEmpty then asChunk (chunks.flatten.take rowsToKeep)
  else asChunk (chunks.flatten.foldl (p.update rowsToKeep) [])

def filterByBoundary (boundary : Row) (chunks : List (List Row)) : List Row :=
  (chunks.map (List.filter fun row => p.before row boundary)).flatten

def sortChunksTopn (rowsToKeep : Nat) (chunks : List (List Row)) : Option (List Row) :=
  let rowsToKeep := min rowsToKeep chunks.flatten.length
  if rowsToKeep = 0 then none
  else if p.orderBy.isEmpty then asChunk (chunks.flatten.take rowsToKeep)
  else do
    let boundary ← (← p.sortChunksTopnHeap rowsToKeep chunks).getLast?
    asChunk ((p.lexsort (p.filterByBoundary boundary chunks)).take rowsToKeep)

def sortChunksRank (rankLimit : Nat) (chunks : List (List Row)) : Option (List Row) :=
  if rankLimit = 0 then none
  else if p.orderBy.isEmpty then asChunk chunks.flatten
  else do
    let boundary ← (← p.sortChunksTopn rankLimit chunks).getLast?
    asChunk (p.lexsort (p.filterByBoundary boundary chunks))

/-- The loop over sorted rows that counts peer groups and stops past the limit. -/
def denseFront (rankLimit : Nat) : Nat → Option Row → List Row → List Row
  | _, _, [] => []
  | denseRank, previous, row :: rows =>
    let denseRank := match previous with
      | some last => if p.keys last ≠ p.keys row then denseRank + 1 else denseRank
      | none => denseRank
    if rankLimit < denseRank then [] else row :: denseFront rankLimit denseRank (some row) rows

def sortChunksDenseRank (rankLimit : Nat) (chunks : List (List Row)) : Option (List Row) :=
  if rankLimit = 0 then none
  else if p.orderBy.isEmpty then asChunk chunks.flatten
  else asChunk (p.denseFront rankLimit 1 none (p.lexsort chunks.flatten))

def sortChunksForTopnMode (chunks : List (List Row)) : Option (List Row) :=
  match p.rowsToKeepForTopn with
  | some rowsToKeep =>
    if rowsToKeep ≤ 1024 then p.sortChunksTopnHeap rowsToKeep chunks
    else p.sortChunksTopn rowsToKeep chunks
  | none => p.rankLikeLimitForTopn.bind fun rankLimit =>
    if p.topnType = .rank then p.sortChunksRank rankLimit chunks
    else p.sortChunksDenseRank rankLimit chunks

def sortAll (chunks : List (List Row)) : List Row :=
  if p.orderBy.isEmpty then chunks.flatten else p.lexsort chunks.flatten

def truncateBufferedPrefix : Nat → List (List Row) → List (List Row)
  | _, [] => []
  | 0, _ => []
  | remain + 1, chunk :: chunks =>
    if chunk.length ≤ remain + 1 then
      chunk :: truncateBufferedPrefix (remain + 1 - chunk.length) chunks
    else [chunk.take (remain + 1)]

def topnPruneRowThreshold (rowsToKeep : Nat) : Nat :=
  match p.maxBufferedRows with
  | some maxRows => max maxRows (rowsToKeep + 1)
  | none => max (rowsToKeep * 4) 4096

def bufferedBytes (buffered : List (List Row)) : Nat :=
  (buffered.map p.estimatedBytes).sum

def maybePruneTopnBuffered (buffered : List (List Row)) : List (List Row) :=
  match p.topnCutoffBase with
  | none => buffered
  | some cutoffBase =>
    if cutoffBase = 0 then []
    else if buffered.flatten.length ≤ cutoffBase then buffered
    else if buffered.flatten.length < p.topnPruneRowThreshold cutoffBase ∧
        (∀ maxBytes ∈ p.maxBufferedBytes, p.bufferedBytes buffered < maxBytes) ∧
        buffered.length < 8 then buffered
    else if p.orderBy.isEmpty then
      if p.topnType = .rowNumber then truncateBufferedPrefix cutoffBase buffered else buffered
    else (p.sortChunksForTopnMode buffered).toList

/-- Spilling as the query and the server enable it. -/
def spillState : Option SpillConfig :=
  p.spill.filter fun config => config.enableSpill && config.spillMode ≠ .none

def shouldSpillBuffered (config : SpillConfig) (buffered : List (List Row)) : Bool :=
  if buffered.isEmpty || config.spillMode = .none then false
  else if p.maxBufferedRows.any (· ≤ buffered.flatten.length) then true
  else if p.maxBufferedBytes.any (· ≤ p.bufferedBytes buffered) then true
  else if (p.bufferedBytes buffered : Int) < config.spillOperatorMinBytes.getD 0 then false
  else if config.spillMode = .force then true
  else
    let memTableBytes := do return (← config.spillMemTableSize) * (← config.spillMemTableNum)
    (config.spillOperatorMaxBytes.or memTableBytes).any (· ≤ (p.bufferedBytes buffered : Int))

def buildSortedRun (chunks : List (List Row)) : Except String (List Row) :=
  match p.topnCutoffBase with
  | some 0 => .ok []
  | some _ => match p.sortChunksForTopnMode chunks with
    | some run => .ok run
    | none => .error "topn sorted run expected non-empty output"
  | none => match asChunk (p.sortAll chunks) with
    | some run => .ok run
    | none => .error "full sort run expected non-empty output"

/-- The run is one message in one block, between the block's header and its index. -/
def blockBytes (run : List Row) : Nat :=
  40 + p.encodedBytes run + 32

def spillBufferedRun (config : SpillConfig) (state : SortState) : Except String SortState :=
  if state.buffered.isEmpty then .ok state
  else do
    let run ← p.buildSortedRun state.buffered
    if config.blockSizeBytes < p.blockBytes run then
      throw "spill block size exceeded configured limit"
    return ⟨[], state.runs ++ [run]⟩

section
variable (state : SortState)

def maybeSpillBuffered : Except String SortState :=
  match p.spillState with
  | some config =>
    if p.shouldSpillBuffered config state.buffered then p.spillBufferedRun config state else .ok state
  | none => .ok state

def receive (chunk : List Row) : SortState :=
  let buffered := if chunk.isEmpty then state.buffered else state.buffered ++ [chunk]
  { state with buffered := p.maybePruneTopnBuffered buffered }

def pushChunk (chunk : List Row) : Except String SortState :=
  p.maybeSpillBuffered (p.receive state chunk)

def sliceTopn (topnChunk : List Row) : Option (List Row) :=
  asChunk ((topnChunk.drop p.offset).take (p.limit.getD 0))

/-- Only reached without a limit, which here counts as 0. -/
def buildRankLikeTopnOutputFromChunks : Except String (Option (List Row)) :=
  if p.offset ≠ 0 then .error "topn_type requires offset=0" else .ok none

def buildFinalOutputFromChunks (chunks : List (List Row)) : Except String (Option (List Row)) :=
  if chunks.isEmpty then .ok none
  else match p.rankLikeLimitForTopn with
    | some _ => .ok (p.sortChunksForTopnMode chunks)
    | none =>
      if p.isRankLikeTopn then p.buildRankLikeTopnOutputFromChunks
      else match p.rowsToKeepForTopn with
        | some _ => .ok ((p.sortChunksForTopnMode chunks).bind p.sliceTopn)
        | none =>
          let sorted := p.sortAll chunks
          .ok (if sorted.length ≤ p.offset then none else some (limitRows p.limit p.offset sorted))

def mergeSpillRunIntoTopnCandidate (candidate : Option (List Row)) (run : List Row) :
    Except String (Option (List Row)) :=
  match candidate with
  | none => .error "sort spill merge expected candidate chunk before restore"
  | some source => .ok (p.sortChunksForTopnMode [source, run])

def buildFinalTopnOutputWithSpill (runs : List (List Row)) : Except String (Option (List Row)) :=
  if p.topnCutoffBase.getD 0 = 0 then .ok none
  else do
    let candidate ← runs.foldlM p.mergeSpillRunIntoTopnCandidate none
    return if p.topnType ≠ .rowNumber then candidate else candidate.bind p.sliceTopn

/-- Once something was spilled, or must be, the rest of the buffer is spilled too. -/
def usesSpill (config : SpillConfig) (state : SortState) : Bool :=
  !state.runs.isEmpty || config.spillMode = .force

def buildFinalOutputWithSpill : Except String (Option (List Row)) :=
  match p.spillState with
  | none => p.buildFinalOutputFromChunks state.buffered
  | some config =>
    if !usesSpill config state then p.buildFinalOutputFromChunks state.buffered
    else do
      let spilled ← p.spillBufferedRun config state
      if p.topnCutoffBase.isSome then p.buildFinalTopnOutputWithSpill spilled.runs
      else p.buildFinalOutputFromChunks spilled.runs

def sortFrom (chunks : List (List Row)) : Except String (Option (List Row)) := do
  p.buildFinalOutputWithSpill (← chunks.foldlM p.pushChunk state)

end

def sortChunks (chunks : List (List Row)) : Except String (Option (List Row)) :=
  p.sortFrom ⟨[], []⟩ chunks

/-! What the operator is for. -/

def keyCount (rows : List Row) : Nat :=
  (rows.map p.keys).toFinset.card

/-- Rows ahead count for RANK, their different keys for DENSE_RANK. -/
def rankSize : List Row → Nat :=
  if p.topnType = .denseRank then p.keyCount else List.length

/-- The rows whose rank, one more than what is ahead, is at most the limit. -/
def ranked (rows : List Row) : List Row :=
  match p.limit with
  | none => rows
  | some limit => firstPlaces p.before p.rankSize limit rows

def Answers (rows out : List Row) : Prop :=
  if p.isRankLikeTopn then Sorts p.before (p.ranked rows) out
  else ∃ sorted, Sorts p.before rows sorted ∧ out = limitRows p.limit p.offset sorted

end SortProcessor

end NovaRocks
