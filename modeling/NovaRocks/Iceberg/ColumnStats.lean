import Mathlib.Data.List.AList
import Mathlib.Data.List.Induction
import Mathlib.Data.List.Lex
import Mathlib.Data.Sum.Order
import NovaRocks.Parquet.PruningSafe

/-!
The bounds that a written file gives for its columns. The statistics of the row groups are merged
in the physical order of the column, and a row group that has none is passed over. A bound holds
for the whole file only if each row group with a value has the statistic and none of them lies
beyond the one that the physical order prefers.
-/
namespace NovaRocks.Iceberg.Sink
open List
open NovaRocks.Parquet (Raw Physical ColumnDescriptor)

structure Statistics where
  physical : Physical
  min : Option Raw
  max : Option Raw
  nullCount : Option Nat
  minIsExact : Bool
  maxIsExact : Bool
  isMinMaxBackwardsCompatible : Bool
  deriving DecidableEq

/-- A column chunk; the field id is that of the column's type, if it has one. -/
structure ColumnChunkMetaData where
  descriptor : ColumnDescriptor
  fieldId : Option Int
  compressedSize : Nat
  numValues : Nat
  statistics : Option Statistics
  deriving DecidableEq

inductive Side where
  | lower
  | upper

def Statistics.bound (stats : Statistics) : Side → Option Raw
  | .lower => stats.min
  | .upper => stats.max

/-! ### Merging -/

def rank : Raw → ℤ ⊕ₗ List ℕ
  | .int value => .inl value
  | .bytes value => .inr value

/-- Signed numbers and unsigned bytes. -/
instance : LinearOrder Raw := LinearOrder.lift' rank fun a b same => by
  cases a <;> cases b <;> cases same <;> rfl

/-- The order of the stored values; `floats` compares floating-point numbers. -/
def partialCmp (floats : Raw → Raw → Option Ordering) (physical : Physical) (a b : Raw) : Option Ordering :=
  match physical with
  | .float | .double => floats a b
  | _ => some (compare a b)

def choose (worse : Ordering) (compare : Raw → Raw → Option Ordering) :
    Option Raw → Option Raw → Option Raw
  | some left, some right => if compare left right = some worse then some right else some left
  | some left, none => some left
  | none, right => right

def chooseMin := choose .gt

def chooseMax := choose .lt

def isExact : Option Raw → Bool → Option Raw → Bool → Bool
  | some _, current, some _, next => current && next
  | some _, current, none, _ => current
  | none, _, some _, next => next
  | none, _, none, _ => false

def mergeTypedStatistics (current next : Statistics) (compare : Raw → Raw → Option Ordering) : Statistics where
  physical := current.physical
  min := chooseMin compare current.min next.min
  max := chooseMax compare current.max next.max
  nullCount := some (current.nullCount.getD 0 + next.nullCount.getD 0)
  minIsExact := isExact current.min current.minIsExact next.min next.minIsExact
  maxIsExact := isExact current.max current.maxIsExact next.max next.maxIsExact
  isMinMaxBackwardsCompatible := current.isMinMaxBackwardsCompatible && next.isMinMaxBackwardsCompatible

variable (floats : Raw → Raw → Option Ordering)

def mergeStatistics (current next : Statistics) : Statistics :=
  if current.physical = next.physical then
    mergeTypedStatistics current next (partialCmp floats current.physical)
  else current

structure ColumnStatsAccumulator where
  columnSize : Nat := 0
  valueCount : Nat := 0
  nullValueCount : Nat := 0
  hasStatistics : Bool := false
  mergedStatistics : Option Statistics := none
  counted : hasStatistics = mergedStatistics.isSome := by rfl

def ColumnStatsAccumulator.bound (acc : ColumnStatsAccumulator) (side : Side) : Option Raw :=
  acc.mergedStatistics.bind (·.bound side)

def ColumnStatsAccumulator.add (acc : ColumnStatsAccumulator) (column : ColumnChunkMetaData) :
    ColumnStatsAccumulator :=
  let acc := { acc with columnSize := acc.columnSize + column.compressedSize }
  match column.statistics with
  | none => acc
  | some stats => { acc with
      hasStatistics := true
      valueCount := acc.valueCount + column.numValues
      nullValueCount := acc.nullValueCount + stats.nullCount.getD 0
      mergedStatistics := some (acc.mergedStatistics.elim stats (mergeStatistics floats · stats))
      counted := rfl }

abbrev Accumulators := AList fun _ : Int => ColumnStatsAccumulator

def addColumn (accumulators : Accumulators) (column : ColumnChunkMetaData) : Accumulators :=
  match column.fieldId with
  | none => accumulators
  | some fieldId => accumulators.insert fieldId (((accumulators.lookup fieldId).getD {}).add floats column)

structure TIcebergColumnStats where
  columnSizes : Option (List (Int × Nat))
  valueCounts : Option (List (Int × Nat))
  nullValueCounts : Option (List (Int × Nat))
  nanValueCounts : Option (List (Int × Nat))
  lowerBounds : Option (List (Int × Raw))
  upperBounds : Option (List (Int × Raw))

def boundsOf (accumulators : Accumulators) (side : Side) : List (Int × Raw) :=
  (accumulators.entries.filter (·.2.hasStatistics)).filterMap fun e => (e.2.bound side).map (e.1, ·)

def collectIcebergColumnStats (rowGroups : List (List ColumnChunkMetaData)) : Option TIcebergColumnStats :=
  let accumulators := rowGroups.foldl (fun accs columns => columns.foldl (addColumn floats) accs) ∅
  if accumulators.entries.isEmpty then none
  else
    let counted := accumulators.entries.filter (·.2.hasStatistics)
    let bounds (side : Side) := if (boundsOf accumulators .lower).isEmpty &&
      (boundsOf accumulators .upper).isEmpty then none else some (boundsOf accumulators side)
    some {
      columnSizes := some (accumulators.entries.map fun e => (e.1, e.2.columnSize))
      valueCounts := if counted.isEmpty then none else some (counted.map fun e => (e.1, e.2.valueCount))
      nullValueCounts :=
        if counted.isEmpty then none else some (counted.map fun e => (e.1, e.2.nullValueCount))
      nanValueCounts := none
      lowerBounds := bounds .lower
      upperBounds := bounds .upper }

def TIcebergColumnStats.bounds (stats : TIcebergColumnStats) : Side → Option (List (Int × Raw))
  | .lower => stats.lowerBounds
  | .upper => stats.upperBounds

def Emits (rowGroups : List (List ColumnChunkMetaData)) (side : Side) (fieldId : Int) (bound : Raw) : Prop :=
  ∃ stats ∈ collectIcebergColumnStats floats rowGroups, ∃ bounds ∈ stats.bounds side, (fieldId, bound) ∈ bounds

def chunksOf (rowGroups : List (List ColumnChunkMetaData)) (fieldId : Int) : List ColumnChunkMetaData :=
  rowGroups.flatten.filter (·.fieldId = some fieldId)

/-! ### The merged bounds -/

section
variable {rowGroups : List (List ColumnChunkMetaData)}

theorem lookup_addColumn (chunks : List ColumnChunkMetaData) (accs : Accumulators) :
    ((chunks.foldl (addColumn floats) accs).lookup fieldId).getD {} =
      (chunks.filter (·.fieldId = some fieldId)).foldl (ColumnStatsAccumulator.add floats)
        ((accs.lookup fieldId).getD {}) := by
  induction chunks generalizing accs with
  | nil => rfl
  | cons c chunks ih =>
    rw [foldl_cons, ih, addColumn]
    cases named : c.fieldId with
    | none => simp [named]
    | some other =>
      by_cases same : other = fieldId
      · subst same
        simp [named]
      · simp [named, same, AList.lookup_insert_ne (Ne.symm same)]

theorem emits_iff_boundsOf : Emits floats rowGroups side fieldId bound ↔
    (fieldId, bound) ∈ boundsOf (rowGroups.flatten.foldl (addColumn floats) ∅) side := by
  simp only [Emits, collectIcebergColumnStats, foldl_flatten]
  generalize rowGroups.foldl _ _ = accs
  split
  · simp [boundsOf, isEmpty_iff.mp ‹_›]
  · cases shape : boundsOf accs side <;> cases side <;> simp [TIcebergColumnStats.bounds, shape]

theorem emits_iff : Emits floats rowGroups side fieldId bound ↔
    ((chunksOf rowGroups fieldId).foldl (ColumnStatsAccumulator.add floats) {}).bound side = some bound := by
  have merged : _ = (chunksOf rowGroups fieldId).foldl (ColumnStatsAccumulator.add floats) {} :=
    lookup_addColumn floats rowGroups.flatten ∅
  rw [emits_iff_boundsOf, boundsOf, mem_filterMap, ← merged]
  constructor
  · rintro ⟨⟨_,acc⟩,member,found⟩
    obtain ⟨_,isBound,same⟩ := Option.map_eq_some_iff.mp found
    cases same
    rw [AList.mem_lookup_iff.mpr (mem_filter.mp member).1]
    exact isBound
  · intro isBound
    cases found : (rowGroups.flatten.foldl (addColumn floats) ∅).lookup fieldId with
    | none =>
      rw [found] at isBound
      cases isBound
    | some acc =>
      rw [found] at isBound
      obtain ⟨stats,isMerged,-⟩ := Option.bind_eq_some_iff.mp isBound
      refine ⟨⟨fieldId,acc⟩,mem_filter.mpr ⟨AList.mem_lookup_iff.mp found,?_⟩,?_⟩
      · rw [acc.counted]
        exact Option.isSome_of_eq_some isMerged
      · exact Option.map_eq_some_iff.mpr ⟨bound,isBound,rfl⟩

end

/-! ### The preferred bound -/

def Side.Before : Side → Raw → Raw → Prop
  | .lower, a, b => a ≤ b
  | .upper, a, b => b ≤ a

def Side.worse : Side → Ordering
  | .lower => .gt
  | .upper => .lt

def ColumnChunkMetaData.bound (c : ColumnChunkMetaData) (side : Side) : Option Raw :=
  c.statistics.bind (·.bound side)

def floating (physical : Physical) : Prop :=
  physical = .float ∨ physical = .double

/-- One of the bounds, and none is beyond it. -/
def Best (side : Side) (bounds : List Raw) : Option Raw → Prop
  | none => bounds = []
  | some best => best ∈ bounds ∧ ∀ other ∈ bounds, side.Before best other

section
variable {side : Side} {physical : Physical}

theorem Side.before_total (a b : Raw) : side.Before a b ∨ side.Before b a := by
  cases side
  · exact le_total a b
  · exact le_total b a

theorem Side.before_trans (first : side.Before a b) (second : side.Before b c) : side.Before a c := by
  cases side
  · exact le_trans first second
  · exact le_trans second first

theorem Side.before_antisymm (first : side.Before a b) (second : side.Before b a) : a = b := by
  cases side
  · exact le_antisymm first second
  · exact le_antisymm second first

theorem Best.unique (first : Best side bounds (some a)) (second : Best side bounds other) : other = some a := by
  cases other with
  | none => exact absurd first.1 (by rw [show bounds = [] from second]; exact not_mem_nil)
  | some b => rw [Side.before_antisymm (first.2 b second.1) (second.2 a first.1)]

theorem partialCmp_worse (plain : ¬ floating physical) :
    partialCmp floats physical a b = some side.worse ↔ ¬ side.Before a b := by
  have cmp : partialCmp floats physical a b = some (compare a b) := by
    cases physical <;> first | rfl | exact absurd (by simp [floating]) plain
  rw [cmp, Option.some_inj]
  cases side
  · exact compare_gt_iff_gt.trans not_le.symm
  · exact compare_lt_iff_lt.trans not_le.symm

theorem Best.choose {candidate : Option Raw} (plain : ¬ floating physical) (best : Best side bounds current) :
    Best side (bounds ++ candidate.toList) (choose side.worse (partialCmp floats physical) current candidate) := by
  have self : ∀ a, side.Before a a := fun a => (Side.before_total a a).elim id id
  cases candidate with
  | none => cases current <;> simpa [Best, Sink.choose] using best
  | some new =>
    cases current with
    | none =>
      rw [show bounds = [] from best]
      exact ⟨mem_singleton_self _,by simpa using self new⟩
    | some old =>
      by_cases stays : side.Before old new
      · rw [Sink.choose, if_neg (mt (partialCmp_worse floats plain).mp (not_not.mpr stays))]
        exact ⟨mem_append_left _ best.1,forall_mem_append.mpr ⟨best.2,by simpa using stays⟩⟩
      · have beyond := (Side.before_total old new).resolve_left stays
        rw [Sink.choose, if_pos ((partialCmp_worse floats plain).mpr stays)]
        refine ⟨mem_append_right _ (mem_singleton_self _),forall_mem_append.mpr ⟨?_,by simpa using self new⟩⟩
        exact fun other member => Side.before_trans beyond (best.2 other member)

theorem bound_add {acc : ColumnStatsAccumulator} {c : ColumnChunkMetaData}
    (kind : ∀ stats ∈ acc.mergedStatistics, stats.physical = physical)
    (same : ∀ stats ∈ c.statistics, stats.physical = physical) :
    (∀ side, (acc.add floats c).bound side = choose side.worse (partialCmp floats physical)
        (acc.bound side) (c.bound side)) ∧
      ∀ stats ∈ (acc.add floats c).mergedStatistics, stats.physical = physical := by
  have merges : (acc.add floats c).mergedStatistics = c.statistics.elim acc.mergedStatistics fun stats =>
      some (acc.mergedStatistics.elim stats (mergeStatistics floats · stats)) := by
    unfold ColumnStatsAccumulator.add
    cases c.statistics <;> rfl
  unfold ColumnStatsAccumulator.bound ColumnChunkMetaData.bound
  rw [merges]
  cases isStats : c.statistics with
  | none =>
    refine ⟨fun side => ?_,kind⟩
    dsimp only [Option.elim_none, Option.bind_none]
    cases acc.mergedStatistics.bind _ <;> rfl
  | some stats =>
    cases isMerged : acc.mergedStatistics with
    | none => exact ⟨fun _ => rfl,by simpa using same stats isStats⟩
    | some merged =>
      have kinds : merged.physical = physical ∧ stats.physical = physical :=
        ⟨kind merged isMerged,same stats isStats⟩
      simp only [Option.elim_some, mergeStatistics, kinds.1, kinds.2, if_true]
      exact ⟨fun side => by cases side <;> rfl,by simpa [mergeTypedStatistics] using kinds.1⟩

theorem best_merged (side : Side) (plain : ¬ floating physical) (chunks : List ColumnChunkMetaData)
    (same : ∀ c ∈ chunks, ∀ stats ∈ c.statistics, stats.physical = physical) :
    Best side (chunks.filterMap (·.bound side))
        ((chunks.foldl (ColumnStatsAccumulator.add floats) {}).bound side) ∧
      ∀ stats ∈ (chunks.foldl (ColumnStatsAccumulator.add floats) {}).mergedStatistics,
        stats.physical = physical := by
  induction chunks using reverseRecOn with
  | nil => exact ⟨rfl,nofun⟩
  | append_singleton chunks c ih =>
    have last : [c].filterMap (·.bound side) = (c.bound side).toList := by
      cases isBound : c.bound side <;> simp [isBound]
    rw [forall_mem_append] at same
    obtain ⟨best,kind⟩ := ih same.1
    obtain ⟨merged,kinds⟩ := bound_add floats kind (same.2 c mem_cons_self)
    rw [filterMap_append, last, foldl_append, foldl_cons, foldl_nil, merged side]
    exact ⟨best.choose floats plain,kinds⟩

end

/-! ### The values -/

/-- The columns of one field id are one column, and its statistics are of its type. -/
structure ParquetMetaData where
  rowGroups : List (List ColumnChunkMetaData)
  column : ∀ c ∈ rowGroups.flatten, ∀ other ∈ rowGroups.flatten, c.fieldId.isSome →
    c.fieldId = other.fieldId → c.descriptor = other.descriptor
  kind : ∀ c ∈ rowGroups.flatten, ∀ stats ∈ c.statistics, stats.physical = c.descriptor.physical
  holds : ∀ c ∈ rowGroups.flatten, ∀ side, ∀ bound ∈ c.bound side, c.descriptor.Holds bound

/-- In the order of the numbers or texts that the column stores. -/
def ColumnChunkMetaData.Before (c : ColumnChunkMetaData) (side : Side) (a b : Raw) : Prop :=
  side.Before (c.descriptor.key a) (c.descriptor.key b)

def ColumnChunkMetaData.nullCount (c : ColumnChunkMetaData) : Option Nat :=
  c.statistics.bind (·.nullCount)

/-- What the statistics say about a value. -/
def ColumnChunkMetaData.Admits (c : ColumnChunkMetaData) (value : Raw) : Prop :=
  c.descriptor.Holds value ∧ ∀ side, ∀ bound ∈ c.bound side, c.Before side bound value

/-- The chunk may stand over these values that are not NULL. -/
structure ColumnChunkMetaData.Describes (c : ColumnChunkMetaData) (values : List Raw) : Prop where
  admits : ∀ value ∈ values, c.Admits value
  count : values.length ≤ c.numValues
  nulls : ∀ nulls ∈ c.nullCount, values.length + nulls = c.numValues

/-- Whatever values the row groups have, they are on the right sides of the bounds that are written. -/
def BoundsSound (metadata : ParquetMetaData) : Prop :=
  ∀ side fieldId bound, Emits floats metadata.rowGroups side fieldId bound →
    ∀ c ∈ metadata.rowGroups.flatten, c.fieldId = some fieldId → ¬ floating c.descriptor.physical →
      ∀ values, c.Describes values → ∀ value ∈ values, c.Before side bound value

/-- Not all values are NULL, and the bounds leave room for one. -/
def ColumnChunkMetaData.MayHold (c : ColumnChunkMetaData) : Prop :=
  c.nullCount.getD 0 < c.numValues ∧ ∀ low ∈ c.bound .lower, ∀ high ∈ c.bound .upper, c.Before .lower low high

/-- The physically first of the column's statistics is not beyond that of the chunk; if the chunk has
none, it is the extreme value of the column. -/
def Covers (metadata : ParquetMetaData) (side : Side) (c : ColumnChunkMetaData) (fieldId : Int) : Prop :=
  ∀ best, Best side ((chunksOf metadata.rowGroups fieldId).filterMap (·.bound side)) (some best) →
    match c.bound side with
    | some own => c.Before side best own
    | none => ∀ value, c.descriptor.Holds value → c.Before side best value

section
variable {metadata : ParquetMetaData} {c : ColumnChunkMetaData}

theorem emits_iff_best (member : c ∈ metadata.rowGroups.flatten) (isField : c.fieldId = some fieldId)
    (plain : ¬ floating c.descriptor.physical) : Emits floats metadata.rowGroups side fieldId bound ↔
      Best side ((chunksOf metadata.rowGroups fieldId).filterMap (·.bound side)) (some bound) := by
  obtain ⟨best,_⟩ := best_merged floats side plain (chunksOf metadata.rowGroups fieldId) (by
    intro other inside
    obtain ⟨listed,named⟩ := mem_filter.mp inside
    rw [decide_eq_true_eq] at named
    rw [metadata.column c member other listed (by rw [isField]; rfl) (by rw [named, isField])]
    exact metadata.kind other listed)
  rw [emits_iff]
  constructor
  · intro isBound
    rwa [isBound] at best
  · exact fun isBest => isBest.unique best

theorem ColumnChunkMetaData.MayHold.admits_bound (may : c.MayHold) (holds : c.descriptor.Holds own)
    (isOwn : c.bound side = some own) : c.Admits own := by
  refine ⟨holds,fun other bound isBound => ?_⟩
  cases side <;> cases other
  · cases isOwn.symm.trans isBound
    exact le_refl _
  · exact may.2 own isOwn bound isBound
  · exact may.2 bound isBound own isOwn
  · cases isOwn.symm.trans isBound
    exact le_refl _

theorem ColumnChunkMetaData.MayHold.describes (may : c.MayHold) (admits : c.Admits value) :
    ∃ values, c.Describes values ∧ value ∈ values := by
  have room := may.1
  refine ⟨replicate (c.numValues - c.nullCount.getD 0) value,⟨?_,?_,?_⟩,mem_replicate.mpr ⟨by omega,rfl⟩⟩
  · intro other isOther
    rw [eq_of_mem_replicate isOther]
    exact admits
  · rw [length_replicate]
    omega
  · intro nulls isNulls
    rw [Option.mem_def.mp isNulls, Option.getD_some] at room ⊢
    rw [length_replicate]
    omega

theorem ColumnChunkMetaData.Describes.mayHold (describes : c.Describes values) (isValue : value ∈ values) :
    c.MayHold := by
  have admits := describes.admits value isValue
  refine ⟨?_,fun low isLow high isHigh => le_trans (admits.2 .lower low isLow) (admits.2 .upper high isHigh)⟩
  have some_ := length_pos_of_mem isValue
  have count := describes.count
  cases isNulls : c.nullCount with
  | none => exact Nat.lt_of_lt_of_le some_ count
  | some nulls =>
    have exactly := describes.nulls nulls isNulls
    rw [Option.getD_some]
    omega

end

/-- The bounds that are written hold exactly if each row group that may have a value is covered by the
physically first statistic of the column. -/
theorem column_bounds_sound_iff (metadata : ParquetMetaData) :
    BoundsSound floats metadata ↔ ∀ side, ∀ c ∈ metadata.rowGroups.flatten, ∀ fieldId,
      c.fieldId = some fieldId → ¬ floating c.descriptor.physical → c.MayHold → Covers metadata side c fieldId := by
  constructor
  · intro sound side c member fieldId isField plain may best isBest
    have emits := (emits_iff_best floats member isField plain).mpr isBest
    have right : ∀ value, c.Admits value → c.Before side best value := by
      intro value admits
      obtain ⟨values,describes,inside⟩ := may.describes admits
      exact sound side fieldId best emits c member isField plain values describes value inside
    cases isOwn : c.bound side with
    | some own => exact right own (may.admits_bound (metadata.holds c member side own isOwn) isOwn)
    | none =>
      intro value holds
      by_cases admits : c.Admits value
      · exact right value admits
      -- the other bound of the chunk is before the value
      simp only [ColumnChunkMetaData.Admits, holds, true_and, not_forall] at admits
      obtain ⟨other,far,isFar,beyond⟩ := admits
      have before := right far (may.admits_bound (metadata.holds c member other far isFar) isFar)
      have back := (Side.before_total _ _).resolve_left beyond
      apply Side.before_trans before
      cases side <;> cases other
      · cases isOwn.symm.trans isFar
      · exact back
      · exact back
      · cases isOwn.symm.trans isFar
  · intro covers side fieldId bound emits c member isField plain values describes value isValue
    have admits := describes.admits value isValue
    have covered := covers side c member fieldId isField plain (describes.mayHold isValue) bound
      ((emits_iff_best floats member isField plain).mp emits)
    cases isOwn : c.bound side with
    | none =>
      rw [isOwn] at covered
      exact covered value admits.1
    | some own =>
      rw [isOwn] at covered
      exact Side.before_trans covered (admits.2 side own isOwn)

def ageColumn : ColumnDescriptor := ⟨"age", .int32, .integer⟩

def described : ColumnChunkMetaData :=
  ⟨ageColumn, some 1, 40, 1, some ⟨.int32, some (.int 5), some (.int 9), some 0, true, true, false⟩⟩

def undescribed : ColumnChunkMetaData := ⟨ageColumn, some 1, 40, 1, none⟩

def twoGroups : ParquetMetaData where
  rowGroups := [[described], [undescribed]]
  column := by decide
  kind := by decide
  holds := by
    refine forall_mem_cons.mpr ⟨fun side bound isBound => ?_,forall_mem_singleton.mpr fun _ _ none => by cases none⟩
    cases side <;> cases isBound <;> exact ⟨nofun,rfl⟩

/-- The lower bound 5 of the first row group is written for both, and 3 is below it. -/
theorem skipped_group_below_bound : Emits (fun _ _ => none) twoGroups.rowGroups .lower 1 (.int 5) ∧
    undescribed ∈ twoGroups.rowGroups.flatten ∧ undescribed.Describes [.int 3] ∧
    described.Describes [.int 7] ∧ ¬ undescribed.Before .lower (.int 5) (.int 3) := by
  refine ⟨⟨_,rfl,_,rfl,by decide⟩,by decide,⟨?_,by decide,by decide⟩,⟨?_,by decide,by decide⟩,?_⟩
  · exact forall_mem_singleton.mpr ⟨⟨nofun,rfl⟩,fun _ _ none => by cases none⟩
  · refine forall_mem_singleton.mpr ⟨⟨nofun,rfl⟩,fun side bound isBound => ?_⟩
    cases side <;> cases isBound
    · exact (by decide : Raw.int 5 ≤ .int 7)
    · exact (by decide : Raw.int 7 ≤ .int 9)
  · exact (by decide : ¬ Raw.int 5 ≤ .int 3)

end NovaRocks.Iceberg.Sink
