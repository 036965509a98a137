import Callhouse.Keeper.Mm.RiskLimits
import Callhouse.Keeper.Mm.OrderActions
import Callhouse.Keeper.Mm.LedgerCash
import Callhouse.Keeper.Mm.FillLogs
import Callhouse.Keeper.Mm.Outflow
import Callhouse.Indexer.MakerScoring
import Callhouse.Indexer.LenderBudget
import Callhouse.Agreement.WriteCapacity
import Callhouse.Indexer.ServedBook
import Callhouse.Keeper.Cranker.Index
import Callhouse.Lib.Transition
import Callhouse.Keeper.Cranker.Scanner
import Callhouse.Keeper.Store
import Callhouse.Keeper.Tx
import Callhouse.Keeper.Mm.Kill
import Callhouse.Keeper.Mm.ProtectiveSend
import Callhouse.Keeper.Mm.ProtocolBook
import Callhouse.Keeper.Cranker.ExpiryPlan
import Callhouse.Keeper.Cranker.RedeemStep
import Callhouse.Keeper.Cranker.DoneExpiry
import Callhouse.Lib.UnionFind
import Callhouse.Indexer.SelfTrade
import Callhouse.Indexer.Fifo
import Callhouse.Indexer.Reconcile
import Callhouse.Indexer.Positions
import Callhouse.Keeper.Mm.MmStore
import Callhouse.Lib.Watermark
import Callhouse.Keeper.Mm.Fills
import Callhouse.Keeper.Mm.MigrateLegacy
import Callhouse.Indexer.Cards
import Callhouse.Indexer.LiveWalk
import Callhouse.Agreement.ChainBook
import Callhouse.Agreement.Ticket
import Callhouse.Keeper.Cranker.FirstMint
import Callhouse.Lib.SlidingWindow
import Callhouse.Notifier.Breaker
import Callhouse.Notifier.Delivery
import Callhouse.Notifier.DeliveryRuns
import Callhouse.Keeper.Cranker.HouseBoundary
import Callhouse.Keeper.Guardian.Planner
import Callhouse.Keeper.Guardian.Watch
import Callhouse.Keeper.Guardian.WatchRuns
import Callhouse.Keeper.Pricer.Planner
import Callhouse.Agreement.RepriceBand
import Callhouse.Keeper.Mm.SlotTargets
import Callhouse.Keeper.Mm.SellerFee
import Callhouse.Keeper.Mm.QuotePrices
import Callhouse.Indexer.LenderCeiling
import Callhouse.Indexer.MakerRanking
import Callhouse.Indexer.MakerEpoch
import Callhouse.Indexer.LenderWeigh
import Callhouse.Indexer.LenderIntegral
import Callhouse.Indexer.ActivityFeed
import Callhouse.Indexer.TakeFees
import Callhouse.Indexer.Deliveries
import Callhouse.Keeper.Cranker.Ladder
import Callhouse.Keeper.Mm.TickBudget
import Callhouse.Lib.WalkDepth
import Callhouse.Indexer.AskDepth
import Callhouse.Web.Ticket
import Callhouse.Web.Budget
import Callhouse.Web.StaleOrders
import Callhouse.Lib.SearchMin
import Callhouse.Web.Breakeven
import Callhouse.Keeper.Pricer.Reprice
import Callhouse.Lib.PartialRun
import Callhouse.Keeper.Pricer.Settle
import Callhouse.Indexer.ActivityPages
import Callhouse.Lib.FeedClient
import Callhouse.Notifier.ActivityTick
import Callhouse.Indexer.FeeSchedule
import Callhouse.Keeper.Cranker.GasChunks
import Callhouse.Keeper.Cranker.SurveyRotation
import Callhouse.Keeper.Mm.GreekGate
import Callhouse.Keeper.Mm.SpotMoveBreaker
import Callhouse.Keeper.Cranker.FlywheelPieces
import Callhouse.Keeper.Mm.AskCushion
import Callhouse.Keeper.Mm.StepAside
import Callhouse.Lib.Checkpoint
import Callhouse.Notifier.ExpiryCountdowns
import Callhouse.Indexer.Calendar
import Callhouse.Indexer.PnlClock
import Callhouse.Indexer.PnlSkips
import Callhouse.Indexer.ChainTape
import Callhouse.Indexer.Inventory
import Callhouse.Indexer.InventoryRun
import Callhouse.Indexer.Projection.Clearinghouse
import Callhouse.Indexer.Projection.Clock
import Callhouse.Indexer.Projection.OpenInterest
import Callhouse.Indexer.Projection.OrderLedger
import Callhouse.Indexer.Projection.Replacements
import Callhouse.Indexer.Projection.Volumes
import Callhouse.Indexer.Access.Delays
import Callhouse.Indexer.Access.Operations
import Callhouse.Indexer.House.Handlers
import Callhouse.Indexer.House.Mirror
import Callhouse.Indexer.House.Run
import Callhouse.Indexer.ResponseCache.Clears
import Callhouse.Notifier.Challenges
