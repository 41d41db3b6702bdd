import Flowlab.Framework.KeyedList
import Flowlab.Framework.FixedArray
import Flowlab.Framework.Bisection
import Flowlab.Framework.FiniteMap
import Flowlab.Framework.Bytes
import Flowlab.Framework.Circular
import Flowlab.Framework.Drain
import Flowlab.Framework.Outcome
import Flowlab.Framework.Machine
import Flowlab.Framework.Access
import Flowlab.Framework.Tagged
import Flowlab.Core.Event
import Flowlab.Core.Book
import Flowlab.Core.OrderSlab
import Flowlab.Core.SlabRun
import Flowlab.Core.HotBook
import Flowlab.Core.HotGrid
import Flowlab.Core.HotRefine
import Flowlab.Core.GridShape
import Flowlab.Core.CppBook
import Flowlab.Core.L2Hash
import Flowlab.Core.Parity
import Flowlab.Core.OrderBook
import Flowlab.Core.Depth
import Flowlab.Core.Modify
import Flowlab.Core.Ledger
import Flowlab.Core.Cover
import Flowlab.Core.Touch
import Flowlab.Core.BookSnapshot
import Flowlab.Core.Restore
import Flowlab.Replay.Snapshot
import Flowlab.Replay.MoldUdp
import Flowlab.Replay.MoldEncode
import Flowlab.Replay.GapTracker
import Flowlab.Replay.GapOrder
import Flowlab.Replay.GapStats
import Flowlab.Replay.GapCount
import Flowlab.Replay.GapReport
import Flowlab.Replay.Ring
import Flowlab.Replay.RingRun
import Flowlab.Replay.Wal
import Flowlab.Replay.WalDir
import Flowlab.Replay.WalRead
import Flowlab.Replay.WalLog
import Flowlab.Replay.WalCrash
import Flowlab.Replay.WalDamage
import Flowlab.Replay.WalScan
import Flowlab.FeedParser.Itch
import Flowlab.FeedParser.Bounds
import Flowlab.FeedParser.Stream
import Flowlab.Replay.Itch
import Flowlab.Replay.ItchStream
import Flowlab.Replay.ItchEmit
import Flowlab.FeedParser.Mirror
import Flowlab.Core.Ffi
import Flowlab.Framework.Halting
import Flowlab.Core.State
import Flowlab.Replay.Engine
import Flowlab.Flow.CircuitBreaker
import Flowlab.Flow.BreakerRace
import Flowlab.Flow.PositionCap
import Flowlab.Flow.DailyLoss
import Flowlab.Flow.GapWindow
import Flowlab.Flow.Vpin
import Flowlab.Core.Refusal
import Flowlab.Framework.Lanes
import Flowlab.Core.Residue
import Flowlab.Core.Lanes
import Flowlab.Core.ModifyLane
import Flowlab.Chaos.OrderTracker
import Flowlab.Chaos.MomentumIgnition
import Flowlab.Chaos.FlashCrash
import Flowlab.Chaos.LatencyArbProxy
import Flowlab.Chaos.Shadow
import Flowlab.Chaos.ShadowRun
import Flowlab.Chaos.ShadowStep
import Flowlab.Framework.Provenance
import Flowlab.Chaos.Chain
import Flowlab.Chaos.PriceLevels
import Flowlab.Chaos.BandDepth
import Flowlab.Chaos.BandDepthRun
import Flowlab.Framework.Emission
import Flowlab.Chaos.ProxyCooldown
import Flowlab.Chaos.IgnitionTrades
import Flowlab.Chaos.IgnitionWindow
import Flowlab.Chaos.PhantomLiquidity
import Flowlab.Chaos.PhantomTrades
import Flowlab.Chaos.PhantomBounds
import Flowlab.Chaos.PhantomCancels
import Flowlab.Chaos.PhantomCycle
import Flowlab.Framework.SlidingWindow
import Flowlab.Chaos.CancellationStorm
import Flowlab.Chaos.CancelWindow
import Flowlab.Chaos.Spoof
import Flowlab.Framework.Segments
import Flowlab.Framework.StableSort
import Flowlab.Chaos.Clustering
import Flowlab.Chaos.ClusterPolicy
import Flowlab.Chaos.StressWindow
import Flowlab.Engine.Engine
import Flowlab.Engine.Ownership
import Flowlab.Engine.HardLock
import Flowlab.Framework.Pieces
import Flowlab.Engine.Wire
import Flowlab.Framework.Rounding
import Flowlab.Framework.RoundingOrder
import Flowlab.Framework.Writer
import Flowlab.Chaos.Pen
import Flowlab.Chaos.Generators
import Flowlab.Chaos.GeneratorStep
import Flowlab.Chaos.GeneratorLife
import Flowlab.Chaos.ClosedLoop
import Flowlab.Chaos.Storm
import Flowlab.Chaos.StormPoll
import Flowlab.Chaos.StormIds
import Flowlab.Framework.Recent
import Flowlab.Chaos.TwoLevels
import Flowlab.Chaos.CrashGate
import Flowlab.Chaos.CrashRun
import Flowlab.Chaos.CrashBatch
import Flowlab.Chaos.CrashLoop
import Flowlab.Chaos.CrashFlag
import Flowlab.Chaos.SnapRing
import Flowlab.Framework.ShiftRegister
import Flowlab.Replay.WalCrc
import Flowlab.Replay.WalTail
import Flowlab.Replay.WalSize
import Flowlab.Core.SnapshotReads
import Flowlab.Engine.Ich
import Flowlab.Engine.IchFrames
import Flowlab.Engine.IchSeek
import Flowlab.Engine.IchLoop
import Flowlab.Replay.FileSource
import Flowlab.Replay.FileSourceRun
import Flowlab.Replay.FileSourceCall
import Flowlab.Core.DepthSum
import Flowlab.Flow.Spread
import Flowlab.Engine.StageStats
import Flowlab.Framework.Pacing
import Flowlab.Chaos.StormPace
import Flowlab.Framework.Steps
import Flowlab.Ingest.WebSocketFeed
import Flowlab.Ingest.FeedStop
import Flowlab.Ingest.FeedMessages
import Flowlab.Replay.UdpSource
import Flowlab.Replay.UdpSession
import Flowlab.Replay.UdpRecovery
import Flowlab.Engine.Telemetry
import Flowlab.Engine.TelemetryRun
import Flowlab.Api.EngineClient
import Flowlab.Api.Dashboard
import Flowlab.Replay.SnapshotFile
import Flowlab.Engine.Resume
import Flowlab.Framework.HashChain
import Flowlab.Replay.History
import Flowlab.Replay.EventLog
import Flowlab.Replay.LogReplay
import Flowlab.Verify.Hasher
import Flowlab.Chaos.QuoteStuff
import Flowlab.Chaos.FullChain
import Flowlab.Chaos.FlagSpans
import Flowlab.Engine.Frames
import Flowlab.Engine.MarketData
import Flowlab.Engine.Published
import Flowlab.Engine.Truthful
import Flowlab.Engine.Synthetic
import Flowlab.Engine.SyntheticRun
import Flowlab.Engine.SyntheticTicks
import Flowlab.Flow.Regime
import Flowlab.Api.Regime
import Flowlab.Flow.Imbalance
import Flowlab.Engine.Regime
import Flowlab.Engine.ApplyHisto
