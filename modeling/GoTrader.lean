import GoTrader.Matching.Order
import GoTrader.Matching.Level
import GoTrader.Matching.AVLTree
import GoTrader.Matching.AVLTreeSpec
import GoTrader.Matching.OrderBook
import GoTrader.Matching.OrderBookSpec
import GoTrader.Matching.MarketManager
import GoTrader.Matching.Run
import GoTrader.Matching.Invariant
import GoTrader.Matching.InvariantBook
import GoTrader.Matching.InvariantOrders
import GoTrader.Matching.InvariantRun
import GoTrader.Matching.View
import GoTrader.Matching.Shape
import GoTrader.Matching.Match
import GoTrader.Matching.Effects
import GoTrader.Matching.NoCross
import GoTrader.Matching.Quantities
import GoTrader.Matching.AVLBalance
import GoTrader.Matching.AVLMap
import GoTrader.Matching.Balance
import GoTrader.Matching.Termination
import GoTrader.Matching.ExecutionPrice
import GoTrader.Matching.Symbols
import GoTrader.Matching.Canonical
import GoTrader.Matching.Atomicity
import GoTrader.Matching.Admission
import GoTrader.Matching.AVLPointer
import GoTrader.Matching.AVLPointerShape
import GoTrader.Matching.AVLPointerRotate
import GoTrader.Matching.AVLPointerInsert
import GoTrader.Matching.AVLPointerRemove
import GoTrader.Matching.AVLPointerRuns
import GoTrader.Matching.OrderListPointer
import GoTrader.Matching.Trades
import GoTrader.Matching.Cascade
import GoTrader.Matching.Totality
import GoTrader.Matching.Priority
import GoTrader.Matching.StopOrders
import GoTrader.Matching.Feed
import GoTrader.Persistence.Model
import GoTrader.Persistence.Concurrency
import GoTrader.Persistence.Rebuild
import GoTrader.Persistence.Recovery
import GoTrader.Persistence.Checkpoint
import GoTrader.Persistence.Wire
import GoTrader.Persistence.Journal
import GoTrader.Persistence.JournalWriter
import GoTrader.Persistence.SnapshotFile
import GoTrader.Persistence.Snapshotter
import GoTrader.Persistence.RecoverFiles
import GoTrader.Itch.Messages
import GoTrader.Itch.Parser
import GoTrader.Itch.MessageLevel
import GoTrader.Itch.Stats
