import ExchangeSim.Types
import ExchangeSim.Memory.ObjectPool
import ExchangeSim.Memory.Arena
import ExchangeSim.Lob.PriceLevel
import ExchangeSim.Lob.OrderBook
import ExchangeSim.Lob.Invariant
import ExchangeSim.Lob.Search
import ExchangeSim.Lob.Matching
import ExchangeSim.Lob.Operations
import ExchangeSim.Lob.Reachable
import ExchangeSim.Lob.Uncrossed
import ExchangeSim.Lob.Rejection
import ExchangeSim.Lob.RoundTrip
import ExchangeSim.Lob.Counters
import ExchangeSim.Lob.Abstract
import ExchangeSim.Lob.View
import ExchangeSim.Lob.Refinement
import ExchangeSim.Lob.Depth
import ExchangeSim.Concurrency.SpscSemaphoreQueue
import ExchangeSim.Concurrency.RingBuffer
import ExchangeSim.Concurrency.AsyncLogger
import ExchangeSim.Metrics.Latency
import ExchangeSim.Engine.Accounts
import ExchangeSim.Engine.Risk
import ExchangeSim.Engine.MatchingEngine
import ExchangeSim.Engine.Fills
import ExchangeSim.Engine.Run
import ExchangeSim.Engine.Trader
import ExchangeSim.Tools.ReplayCsv
import ExchangeSim.Tools.Replay
