import NautilusCtrader.Common.Dict
import NautilusCtrader.Common.Decimal
import NautilusCtrader.Common.Sorting
import NautilusCtrader.Common.Machine
import NautilusCtrader.Common.Lifecycle
import NautilusCtrader.Messages
import NautilusCtrader.OrderRecord
import NautilusCtrader.VenueRecords
import NautilusCtrader.LegIds
import NautilusCtrader.RecordCodec
import NautilusCtrader.VenueBook.State
import NautilusCtrader.VenueBook.ForeignLegs
import NautilusCtrader.VenueBook.Handlers
import NautilusCtrader.VenueBook.Events
import NautilusCtrader.VenueBook.Apply
import NautilusCtrader.VenueBook.Load
import NautilusCtrader.VenueBook.Runs
import NautilusCtrader.VenueBook.Fills
import NautilusCtrader.VenueBook.Moves
import NautilusCtrader.VenueBook.HandlerMoves
import NautilusCtrader.VenueBook.Calls
import NautilusCtrader.VenueBook.FillsOnce
import NautilusCtrader.VenueBook.LegState
import NautilusCtrader.VenueBook.Reloads
import NautilusCtrader.VenueBook.LegNames
import NautilusCtrader.VenueBook.LegTracking
import NautilusCtrader.VenueBook.PositionState
import NautilusCtrader.VenueBook.ClosedPosition
import NautilusCtrader.VenueBook.LegLifecycle
import NautilusCtrader.VenueBook.NewestLevels
import NautilusCtrader.Operations
import NautilusCtrader.Reconciliation.Reconcile
import NautilusCtrader.Balance.Account
import NautilusCtrader.Balance.Background
import NautilusCtrader.Balance.Checkpoint
import NautilusCtrader.Balance.Deposits
import NautilusCtrader.Balance.Lists
import NautilusCtrader.Balance.Timer
import NautilusCtrader.Balance.Walks
import NautilusCtrader.Balance.Written
import NautilusCtrader.BalanceHistory
import NautilusCtrader.Common.Zones
import NautilusCtrader.Checkpoints
import NautilusCtrader.History
import NautilusCtrader.TokenRefresh
import NautilusCtrader.RefreshSpacing
import NautilusCtrader.Supervision
import NautilusCtrader.RateLimit
import NautilusCtrader.RateLimit.Serving
import NautilusCtrader.Connection
import NautilusCtrader.Bars.BarCloser
import NautilusCtrader.Bars.Emissions
import NautilusCtrader.Bars.QueueMoves
import NautilusCtrader.Bars.Backfills
import NautilusCtrader.Bars.Paging
import NautilusCtrader.Bars.Windows
import NautilusCtrader.Execution.Rebuilds
import NautilusCtrader.Common.Turns
import NautilusCtrader.Execution.OrderTranslation
import NautilusCtrader.Execution.Brackets
import NautilusCtrader.Execution.Amends
import NautilusCtrader.Subscriptions.Registry
import NautilusCtrader.Subscriptions.Counting
import NautilusCtrader.Subscriptions.Agreement
import NautilusCtrader.Subscriptions.CallTurns
import NautilusCtrader.Subscriptions.SessionTurns
import NautilusCtrader.Subscriptions.Interrupted
import NautilusCtrader.Subscriptions.Sections
import NautilusCtrader.Subscriptions.Bookkeeping
import NautilusCtrader.Subscriptions.LastSpots
import NautilusCtrader.VenueBook.BookRule
import NautilusCtrader.VenueBook.MatchedCloses
import NautilusCtrader.Reconciliation.CloseIds
import NautilusCtrader.Reconciliation.ReportOrder
import NautilusCtrader.Reconciliation.OnePosition
import NautilusCtrader.Reconciliation.ClosesInFlight
import NautilusCtrader.Reconciliation.ListOrder
import NautilusCtrader.Common.Climbing
import NautilusCtrader.VenueBook.ForeignIds
import NautilusCtrader.VenueBook.StandingOrders
import NautilusCtrader.VenueBook.PendingOrders
import NautilusCtrader.VenueBook.EndedOrders
import NautilusCtrader.Common.Newest
import NautilusCtrader.VenueBook.HeldState
import NautilusCtrader.VenueBook.NewestState
import NautilusCtrader.VenueBook.Replays
import NautilusCtrader.VenueBook.Attempts
import NautilusCtrader.VenueBook.OpeningAttempts
import NautilusCtrader.VenueBook.UnheldOpenings
import NautilusCtrader.VenueBook.FailedApply
import NautilusCtrader.Execution.PositionOrders
import NautilusCtrader.Execution.MassStatus
import NautilusCtrader.Bars.Draining
import NautilusCtrader.Bars.Fallbacks
import NautilusCtrader.Execution.AccountState
import NautilusCtrader.Execution.Outbox
import NautilusCtrader.LegIdCodec
import NautilusCtrader.Instruments.Symbols
import NautilusCtrader.Instruments.Provider
import NautilusCtrader.Instruments.Loads
import NautilusCtrader.Instruments.Chains
import NautilusCtrader.Common.Fair
import NautilusCtrader.Bars.PagingEnds
import NautilusCtrader.Bars.Requests
import NautilusCtrader.Bars.RequestAnswers
import NautilusCtrader.AccountClient.Lifecycle
import NautilusCtrader.AccountClient.Users
import NautilusCtrader.AccountClient.Cache
import NautilusCtrader.Common.Framing
import NautilusCtrader.Wire.Codec
import NautilusCtrader.Wire.Streams
import NautilusCtrader.Wire.Arrivals
import NautilusCtrader.Wire.Requests
import NautilusCtrader.Session.BringUp
import NautilusCtrader.Session.Losses
import NautilusCtrader.Session.Restores
import NautilusCtrader.DataClient.ConversionRetries
import NautilusCtrader.DataClient.Conversions
import NautilusCtrader.DataClient.Subscribes
