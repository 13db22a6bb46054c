import NovaRocks.Rbo.JoinReorderSound
import NovaRocks.Rbo.ColumnPruningSound
import NovaRocks.Cascades.JoinAssociativity
import NovaRocks.Analyzer.InSubquery
import NovaRocks.Iceberg.RowLineage
import NovaRocks.Iceberg.ExpireSnapshots
import NovaRocks.Iceberg.RowIdentity
import NovaRocks.Iceberg.Optimize
import NovaRocks.Iceberg.PositionDeletes
import NovaRocks.Mv.ProjectionRefresh
import NovaRocks.Mv.AggregateRecomputation
import NovaRocks.Iceberg.CommitRun
import NovaRocks.Codegen.StackCondition
import NovaRocks.Codegen.FilePruningCondition
import NovaRocks.HashJoin.BroadcastRuns
import NovaRocks.Lake.SegmentIds
import NovaRocks.Lake.KeyAgreement
import NovaRocks.SetOp.SetOpCorrect
import NovaRocks.Codegen.ShufflePartition
import NovaRocks.Sorting.SortBuffering
import NovaRocks.Lake.MergeReader
import NovaRocks.Rbo.FactoringSound
import NovaRocks.Rbo.SemiAntiCondition
import NovaRocks.Rbo.SubsetIter
import NovaRocks.Encoding.Bitshuffle
import NovaRocks.Iceberg.Applicability
import NovaRocks.Iceberg.PositionSelection
import NovaRocks.Iceberg.SnapshotLineage
import NovaRocks.Iceberg.DeletionVector
import NovaRocks.Iceberg.RecordTotals
import NovaRocks.Encoding.Temporal
import NovaRocks.Sql.DecimalArithmetic
import NovaRocks.Iceberg.ColumnStats
