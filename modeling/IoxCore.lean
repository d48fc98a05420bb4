import IoxCore.DataTypes
import IoxCore.BTreeMap
import IoxCore.Querier.StateReconciler
import IoxCore.Querier.ReconcileTheorems
import IoxCore.Querier.PartitionSortKeys
import IoxCore.Ingester.Lifecycle
import IoxCore.Ingester.LifecycleRun
import IoxCore.Ingester.ReplayPoint
import IoxCore.Ingester.QuerierHandler
import IoxCore.CacheSystem.Driver
import IoxCore.CacheSystem.DriverSafety
import IoxCore.Query.Reorg
import IoxCore.Query.Statistics
import IoxCore.ReadBuffer.FixedNull
import IoxCore.ReadBuffer.RowIds
import IoxCore.ReadBuffer.Table
import IoxCore.ReadBuffer.TableRead
import IoxCore.Backoff
import IoxCore.WriteBuffer.Codec
import IoxCore.Query.SortKey
import IoxCore.TraceExporters.Jaeger
