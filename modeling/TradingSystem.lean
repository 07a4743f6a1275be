import TradingSystem.Lib.Machine
import TradingSystem.Lib.Effects
import TradingSystem.Lib.Narrow
import TradingSystem.Lib.Bitmap
import TradingSystem.Lib.Buckets
import TradingSystem.Model.Order
import TradingSystem.Model.ObjectPool
import TradingSystem.Model.OrderBook
import TradingSystem.Model.MatchingEngine
import TradingSystem.Book.Moves
import TradingSystem.Book.WellFormed
import TradingSystem.Book.Functions
import TradingSystem.Book.Match
import TradingSystem.Engine.Effect
import TradingSystem.Engine.Representation
import TradingSystem.Engine.Slots
import TradingSystem.Engine.Conversions
import TradingSystem.Engine.Priority
import TradingSystem.Engine.Cancel
import TradingSystem.Engine.Ledger
import TradingSystem.Lib.SortedList
import TradingSystem.Reference.Book
import TradingSystem.Reference.Refinement
import TradingSystem.Engine.Drain
import TradingSystem.Engine.Tickers
import TradingSystem.Lib.Decimal
import TradingSystem.Model.Wire
import TradingSystem.Model.Network
import TradingSystem.Network.Feed
import TradingSystem.Network.Format
import TradingSystem.Network.Replies
import TradingSystem.Network.OrderEntry
import TradingSystem.Network.Publisher
import TradingSystem.Network.Interleaving
import TradingSystem.Network.Packets
import TradingSystem.Engine.Undo
import TradingSystem.Engine.Sizes
import TradingSystem.Engine.Trades
import TradingSystem.Engine.Late
import TradingSystem.Lib.Shared
import TradingSystem.Model.System
import TradingSystem.System.Sessions
import TradingSystem.Engine.Holders
import TradingSystem.Engine.Taker
import TradingSystem.Reference.Cancels
import TradingSystem.System.Queues
import TradingSystem.System.Quotes
import TradingSystem.System.Traders
import TradingSystem.System.Results
import TradingSystem.System.Settling
import TradingSystem.Reference.Mirror
import TradingSystem.System.Cancels
import TradingSystem.System.Threads
