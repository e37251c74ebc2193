import CrashCore.Application.ForensicNotes
import CrashCore.Application.Handlers
import CrashCore.Application.Instances
import CrashCore.Application.OutcomeMessages
import CrashCore.Application.PipelineLoop
import CrashCore.Application.RoundEnds
import CrashCore.Application.RoundFrames
import CrashCore.Auth.SessionStore
import CrashCore.Common.Binary64
import CrashCore.Common.Rounding
import CrashCore.Concurrency.BoundedQueue
import CrashCore.Concurrency.MpscQueue
import CrashCore.Concurrency.SpscAccesses
import CrashCore.Concurrency.SpscQueue
import CrashCore.Concurrency.WorkerPool
import CrashCore.Config.TomlConfig
import CrashCore.Delivery.DurablePredictionTx
import CrashCore.Delivery.OutboxCalls
import CrashCore.Delivery.OutboxLifecycle
import CrashCore.Delivery.SharedConnection
import CrashCore.Delivery.Signal
import CrashCore.Delivery.TemporalGuard
import CrashCore.Delivery.Workers
import CrashCore.Feedback.DeliveryForensics
import CrashCore.Feedback.ExactlyOnceFeedback
import CrashCore.Ingestion.CrashHistory
import CrashCore.Ingestion.DuplicateWindow
import CrashCore.Ingestion.EventDecoder
import CrashCore.Ingestion.EventRouter
import CrashCore.Ingestion.ExternalSigner
import CrashCore.Ingestion.NativeBcSocket
import CrashCore.Ingestion.PollWorker
import CrashCore.Ingestion.Protobuf
import CrashCore.Ingestion.RoundState
import CrashCore.Ingestion.SocketIoProtocol
import CrashCore.Ingestion.WsFrame
import CrashCore.Library.Blocks
import CrashCore.Library.BoundedList
import CrashCore.Library.Codec
import CrashCore.Library.Connection
import CrashCore.Library.Decimal
import CrashCore.Library.Fifo
import CrashCore.Library.FirstLeast
import CrashCore.Library.Firsts
import CrashCore.Library.Gaps
import CrashCore.Library.JsonText
import CrashCore.Library.LongestRun
import CrashCore.Library.Lru
import CrashCore.Library.RingBuffer
import CrashCore.Library.Run
import CrashCore.Library.SqlLexer
import CrashCore.Library.SqlScript
import CrashCore.Library.SqlTable
import CrashCore.Library.Table
import CrashCore.Library.TextSearch
import CrashCore.Library.Threads
import CrashCore.Logging.JsonLogger
import CrashCore.Observability.ReadinessBarrier
import CrashCore.Observability.RecentRoundCache
import CrashCore.Orchestration.Orchestrator
import CrashCore.Persistence.BatchWriter
import CrashCore.Persistence.ConnectionPool
import CrashCore.Persistence.MigrationRunner
import CrashCore.Persistence.NotificationOutbox
import CrashCore.Persistence.RowCodecs
import CrashCore.Persistence.Tables
import CrashCore.Prediction.AdaptiveEdge
import CrashCore.Prediction.Strategy
import CrashCore.Prediction.WalkForward
import CrashCore.PredictionInterface.InProcessSubmit
import CrashCore.PredictionInterface.NextRoundCalls
import CrashCore.PredictionInterface.PredictionAttempt
import CrashCore.PredictionInterface.PredictionClient
import CrashCore.PredictionInterface.ShmPredictionClient
import CrashCore.PredictionInterface.TargetCoordinator
import CrashCore.PredictionsEngine.IncrementalState
import CrashCore.PredictionsEngine.LearnedClustering
import CrashCore.PredictionsEngine.MlRuntime
import CrashCore.PredictionsEngine.ModelLoader
import CrashCore.PredictionsEngine.PredictionEngine
import CrashCore.Realtime.EventValidator
import CrashCore.Telemetry.Metrics
import CrashCore.Theorems.AlignedRecords
import CrashCore.Theorems.Attempts
import CrashCore.Theorems.AuthorizedActs
import CrashCore.Theorems.BarrierOrder
import CrashCore.Theorems.BatchConservation
import CrashCore.Theorems.BootOrder
import CrashCore.Theorems.CacheCoherence
import CrashCore.Theorems.CalibrationOrder
import CrashCore.Theorems.CoordinatorRefused
import CrashCore.Theorems.DedupeKeys
import CrashCore.Theorems.DurableBeforeNotify
import CrashCore.Theorems.EdgeReaction
import CrashCore.Theorems.EngineStatistics
import CrashCore.Theorems.EntryGate
import CrashCore.Theorems.FeedbackDelivery
import CrashCore.Theorems.FeedbackOnce
import CrashCore.Theorems.FifoQueues
import CrashCore.Theorems.HeartbeatLoss
import CrashCore.Theorems.HistoryPages
import CrashCore.Theorems.HistoryScan
import CrashCore.Theorems.IdleBatches
import CrashCore.Theorems.LeaseSafety
import CrashCore.Theorems.LifecycleExclusive
import CrashCore.Theorems.LogLines
import CrashCore.Theorems.LostSignals
import CrashCore.Theorems.LruRefinement
import CrashCore.Theorems.MessageRetries
import CrashCore.Theorems.MetricTotals
import CrashCore.Theorems.MigrationPrefix
import CrashCore.Theorems.MlHealth
import CrashCore.Theorems.ModelArtifacts
import CrashCore.Theorems.MpscOrder
import CrashCore.Theorems.NextRound
import CrashCore.Theorems.NoLookAhead
import CrashCore.Theorems.NormalizedFrames
import CrashCore.Theorems.ObservedOnce
import CrashCore.Theorems.OpenFrames
import CrashCore.Theorems.OutboxDelivery
import CrashCore.Theorems.OutcomeBooks
import CrashCore.Theorems.OutcomeDelivery
import CrashCore.Theorems.OwnResponses
import CrashCore.Theorems.PacketFraming
import CrashCore.Theorems.PairedStops
import CrashCore.Theorems.PersistPrediction
import CrashCore.Theorems.PoisonRows
import CrashCore.Theorems.PollDelays
import CrashCore.Theorems.PollOnce
import CrashCore.Theorems.PoolAccounting
import CrashCore.Theorems.PredictionAccounting
import CrashCore.Theorems.ProtobufCodec
import CrashCore.Theorems.Publication
import CrashCore.Theorems.QueueConstruction
import CrashCore.Theorems.QuotedValues
import CrashCore.Theorems.RealtimeVerdict
import CrashCore.Theorems.ReconnectDelays
import CrashCore.Theorems.ReconnectProgress
import CrashCore.Theorems.RegimeClusters
import CrashCore.Theorems.RegistryEntries
import CrashCore.Theorems.RejectionPermanent
import CrashCore.Theorems.RepeatedProgress
import CrashCore.Theorems.ReplayFiles
import CrashCore.Theorems.ResponseRing
import CrashCore.Theorems.RoundStates
import CrashCore.Theorems.RoundStatistics
import CrashCore.Theorems.RoutingOnce
import CrashCore.Theorems.RowRoundTrip
import CrashCore.Theorems.RowSendOnce
import CrashCore.Theorems.ScriptSplitting
import CrashCore.Theorems.SendOnce
import CrashCore.Theorems.SequenceGaps
import CrashCore.Theorems.SessionRoles
import CrashCore.Theorems.SettlementSafety
import CrashCore.Theorems.ShadowMode
import CrashCore.Theorems.SharedAtomicity
import CrashCore.Theorems.SignatureCache
import CrashCore.Theorems.SignerRequests
import CrashCore.Theorems.StaleKill
import CrashCore.Theorems.StatementTokens
import CrashCore.Theorems.SyntheticRounds
import CrashCore.Theorems.TargetClaims
import CrashCore.Theorems.TasksRunOnce
import CrashCore.Theorems.TelegramBodies
import CrashCore.Theorems.TerminalRows
import CrashCore.Theorems.TriggerAgreement
import CrashCore.Theorems.TwoEncodings
import CrashCore.Theorems.WalkForwardFolds
import CrashCore.Theorems.WebSocketReconnects
import CrashCore.Theorems.WsFrames
import CrashCore.Validation.FeedbackDispatcher
import CrashCore.Validation.LiveValidator
import CrashCore.Validation.PredictionRegistry
import CrashCore.Validation.RegistryCalls
