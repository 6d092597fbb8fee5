import Skaldberg.Lib.SortedMap
import Skaldberg.Lib.Frames
import Skaldberg.Lib.Runs
import Skaldberg.Lib.LittleEndian
import Skaldberg.Lib.Delimited
import Skaldberg.Lib.Comparator
import Skaldberg.Lib.Counter
import Skaldberg.Lib.Cumulative
import Skaldberg.Lib.Decimal
import Skaldberg.Lib.FirstSeen
import Skaldberg.Lib.Gregorian
import Skaldberg.Lib.Lexer
import Skaldberg.Lib.TimeSeries
import Skaldberg.Lib.Utf8
import Skaldberg.Chrono
import Skaldberg.Convert
import Skaldberg.RunSql
import Skaldberg.Ingest.Types
import Skaldberg.Ingest.Buffer
import Skaldberg.Ingest.Wal
import Skaldberg.Ingest.WalIter
import Skaldberg.Ingest.Flush
import Skaldberg.Ingest.Service
import Skaldberg.Ingest.Encoding
import Skaldberg.State
import Skaldberg.Ingest.Concurrent
import Skaldberg.Ingest.Validate
import Skaldberg.Ingest.NameGrammar
import Skaldberg.Ingest.Conservation
import Skaldberg.Ingest.Recovery
import Skaldberg.Ingest.CleanLog
import Skaldberg.Ingest.TruncatedLog
import Skaldberg.Ingest.Truncation
import Skaldberg.Ingest.Renumbering
import Skaldberg.Ingest.FailedAppend
import Skaldberg.Ingest.FileNames
import Skaldberg.Ingest.OwnFile
import Skaldberg.Ingest.Shutdown
import Skaldberg.Ingest.Backpressure
import Skaldberg.Ingest.FailedFlush
import Skaldberg.Ingest.CrashRestart
import Skaldberg.Ingest.ExactlyOnce
import Skaldberg.Ingest.DayBatches
import Skaldberg.RenderedTime
import Skaldberg.Ingest.Queryable
import Skaldberg.Ingest.UniqueSeries
import Skaldberg.Lib.Sql
import Skaldberg.Lib.Groups
import Skaldberg.Lib.TopN
import Skaldberg.Prometheus.Float
import Skaldberg.Prometheus.Exact
import Skaldberg.Prometheus.Expr
import Skaldberg.Prometheus.Selector
import Skaldberg.Prometheus.SelectorSemantics
import Skaldberg.Prometheus.QueryText
import Skaldberg.Prometheus.RangeFn
import Skaldberg.Prometheus.Windows
import Skaldberg.Prometheus.QueryWindow
import Skaldberg.Prometheus.EvalGrid
import Skaldberg.Prometheus.SelectedRows
import Skaldberg.Prometheus.ExactPoints
import Skaldberg.Prometheus.Increase
import Skaldberg.Prometheus.SampleOrder
import Skaldberg.Prometheus.Redelivery
import Skaldberg.Prometheus.RangeValue
import Skaldberg.Prometheus.RangeWindows
import Skaldberg.Prometheus.Aggregate
import Skaldberg.Prometheus.TopK
import Skaldberg.Prometheus.Histogram
import Skaldberg.Prometheus.Quantile
import Skaldberg.Prometheus.Binary
import Skaldberg.Prometheus.Evaluate
import Skaldberg.Prometheus.RequestTimes
import Skaldberg.Prometheus.Parens
import Skaldberg.Prometheus.PushedShape
import Skaldberg.Prometheus.NonInterference
import Skaldberg.Prometheus.Matrix
import Skaldberg.Prometheus.AggregateRefinement
import Skaldberg.Prometheus.TopKRefinement
import Skaldberg.Prometheus.GroupKey
import Skaldberg.Prometheus.SeriesKey
import Skaldberg.Prometheus.RangeAgreement
import Skaldberg.Prometheus.OneResult
import Skaldberg.Prometheus.SeriesEndpoint
import Skaldberg.Prometheus.Epoch
import Skaldberg.Prometheus.WithoutRefinement
import Skaldberg.Prometheus.VectorMatching
import Skaldberg.Prometheus.VectorRefinement
import Skaldberg.Prometheus.SortConsistency
import Skaldberg.Prometheus.QuantileAgreement
import Skaldberg.Prometheus.MatrixShape
import Skaldberg.Prometheus.PushedMatrices
import Skaldberg.Prometheus.GroupMatrices
import Skaldberg.Prometheus.BinaryMatrices
import Skaldberg.Prometheus.WellFormed
import Skaldberg.Lib.StagedStore
import Skaldberg.Ingest.ServerStore
import Skaldberg.Prometheus.StoreAnswers
import Skaldberg.Ingest.SealedLog
import Skaldberg.Ingest.Restarts
import Skaldberg.Ingest.RemoteWrite
import Skaldberg.Handlers
import Skaldberg.Prometheus.RequestAnswers
import Skaldberg.Prometheus.LabelEndpoints
import Skaldberg.Prometheus.InstantAnswers
import Skaldberg.AwsS3Storage
import Skaldberg.StorageFiles
import Skaldberg.Ingest.Damage
import Skaldberg.Prometheus.RestartAnswers
