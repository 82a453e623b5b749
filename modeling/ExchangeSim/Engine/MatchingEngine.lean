import ExchangeSim.Lob.Uncrossed
import ExchangeSim.Lob.Refinement
import ExchangeSim.Engine.Risk

/-! `MatchingEngine::process_event` (`matching_engine.hpp`) on the engine's book, accounts
and counters. The book's trade callback runs `on_trade` for each trade in the order the book
emits them; the book never reads the accounts, so running `on_trade` over the trades the call
returns, in order, is the same state change. Latency samples, the logger and thread pinning
change no modelled state and are left out. -/
namespace ExchangeSim

/-- The fields of `EngineConfig` the engine reads; `max_price_levels` only sizes a reservation. -/
structure EngineConfig where
  maxOrders : UInt32 := 1000000
  maxTraders : Nat := 1000
  initialBalance : BitVec 64 := 1000000000
  risk : RiskConfig := {}
  deriving DecidableEq, Repr

/-- The counters of `EngineStats` that the engine updates. -/
structure EngineStats where
  tradeCount : BitVec 64 := 0
  volume : BitVec 64 := 0
  rejectedCount : BitVec 64 := 0
  filledQty : BitVec 64 := 0
  deriving DecidableEq, Repr

structure MatchingEngine where
  book : OrderBook
  accounts : Accounts
  stats : EngineStats
  config : EngineConfig
  eventsProcessed : BitVec 64

namespace MatchingEngine

/-- `MatchingEngine(queue, config)`. -/
def new (config : EngineConfig) : MatchingEngine :=
  ⟨OrderBook.new config.maxOrders,Accounts.new config.maxTraders,{},config,0⟩

/-- `on_trade`: both parties' accounts, then the trade counters. -/
def onTrade (engine : MatchingEngine) (trade : Trade) : MatchingEngine :=
  { engine with
    accounts := engine.accounts.applyTrade trade.makerTraderId trade.takerTraderId trade.takerSide
      trade.price trade.qty
    stats := { engine.stats with
      tradeCount := engine.stats.tradeCount + 1
      volume := engine.stats.volume + BitVec.ofInt 64 trade.qty } }

/-- The switch of `process_event`: the book call for the event's type, with its trades. -/
def dispatch (book : OrderBook) (event : OrderEvent) : OrderResponse × OrderBook × List Trade :=
  match event.type with
  | .newLimit => book.addLimit event.orderId event.traderId event.side event.price event.qty
  | .newMarket => book.addMarket event.orderId event.traderId event.side event.qty
  | .cancel => ((book.cancel event.orderId).1,(book.cancel event.orderId).2,[])
  | .modify => book.modify event.orderId event.qty event.price

/-- The accounts after `process_event`'s `get_or_create`, which it skips for a cancel. -/
def ensureAccount (engine : MatchingEngine) (event : OrderEvent) : Accounts :=
  if event.type = .cancel then engine.accounts
  else (engine.accounts.getOrCreate event.traderId engine.config.initialBalance).2

def processEvent (engine : MatchingEngine) (event : OrderEvent) : MatchingEngine :=
  let engine := { engine with accounts := engine.ensureAccount event }
  if engine.config.risk.check engine.accounts event ≠ .passed then
    { engine with stats := { engine.stats with rejectedCount := engine.stats.rejectedCount + 1 } }
  else
    let dispatched := dispatch engine.book event
    let engine := dispatched.2.2.foldl onTrade { engine with book := dispatched.2.1 }
    let engine := { engine with eventsProcessed := engine.eventsProcessed + 1 }
    if dispatched.1.success = true ∧ dispatched.1.qtyFilled > 0 then
      { engine with stats := { engine.stats with
        filledQty := engine.stats.filledQty + BitVec.ofInt 64 dispatched.1.qtyFilled } }
    else engine

/-- `process_event` over a sequence of events, as the engine thread applies them. -/
def processEvents (engine : MatchingEngine) (events : List OrderEvent) : MatchingEngine :=
  events.foldl processEvent engine

/-- A trader whose `get_or_create` found the table full has no account, yet the event still
passes the gate (a sell skips the balance check) and trades: `apply_trade` then finds the
taker missing and books the trade in neither account. Here the table holds one account,
trader 0 buys 10 from trader 1, and trader 0's position and balance stay as they were. -/
theorem trade_without_account :
    (((MatchingEngine.new { maxOrders := 4, maxTraders := 1 }).processEvents
        [.newLimit 1 0 .buy 100 10]).book.addLimit 2 1 .sell 100 10).2.2 = [⟨1,2,0,1,100,10,.sell⟩] ∧
    ((MatchingEngine.new { maxOrders := 4, maxTraders := 1 }).processEvents
        [.newLimit 1 0 .buy 100 10, .newLimit 2 1 .sell 100 10]).stats.tradeCount = 1 ∧
    ((MatchingEngine.new { maxOrders := 4, maxTraders := 1 }).processEvents
        [.newLimit 1 0 .buy 100 10, .newLimit 2 1 .sell 100 10]).accounts.get 1 = none ∧
    ((MatchingEngine.new { maxOrders := 4, maxTraders := 1 }).processEvents
        [.newLimit 1 0 .buy 100 10, .newLimit 2 1 .sell 100 10]).accounts.getPosition 0 = 0 ∧
    ((MatchingEngine.new { maxOrders := 4, maxTraders := 1 }).processEvents
        [.newLimit 1 0 .buy 100 10, .newLimit 2 1 .sell 100 10]).accounts.getBalance 0 = 1000000000 := by
  decide

/-- `on_trade` changes only the accounts and the trade counters. -/
theorem foldl_onTrade_frame : ∀ (trades : List Trade) (engine : MatchingEngine),
    (trades.foldl onTrade engine).book = engine.book ∧ (trades.foldl onTrade engine).config = engine.config ∧
      (trades.foldl onTrade engine).eventsProcessed = engine.eventsProcessed ∧
      (trades.foldl onTrade engine).stats.rejectedCount = engine.stats.rejectedCount
  | [], _ => ⟨rfl,rfl,rfl,rfl⟩
  | trade :: rest, engine => foldl_onTrade_frame rest (engine.onTrade trade)

/-- Each book call `process_event` makes is a public call of the book. -/
theorem processEvent_reachable {engine : MatchingEngine} (reach : OrderBook.Reachable engine.book)
    (event : OrderEvent) : OrderBook.Reachable (engine.processEvent event).book := by
  have dispatched : OrderBook.Reachable (dispatch engine.book event).2.1 := by
    unfold dispatch
    split
    · exact .addLimit _ _ _ _ _ reach
    · exact .addMarket _ _ _ _ reach
    · exact .cancel _ reach
    · exact .modify _ _ _ reach
  have frame := foldl_onTrade_frame (dispatch engine.book event).2.2
    { engine with accounts := engine.ensureAccount event, book := (dispatch engine.book event).2.1 }
  unfold processEvent
  dsimp only
  split_ifs
  · exact reach
  · exact frame.1 ▸ dispatched
  · exact frame.1 ▸ dispatched

theorem processEvents_reachable : ∀ (events : List OrderEvent) {engine : MatchingEngine},
    OrderBook.Reachable engine.book → OrderBook.Reachable (engine.processEvents events).book
  | [], _, reach => reach
  | event :: events, _, reach => processEvents_reachable events (processEvent_reachable reach event)

/-- Whatever events the engine receives, admitted or rejected, its book is never crossed and
holds each side best first with no id twice. -/
theorem engine_book_consistent (config : EngineConfig) (events : List OrderEvent) :
    OrderBook.Uncrossed ((MatchingEngine.new config).processEvents events).book ∧
      (OrderBook.abstract ((MatchingEngine.new config).processEvents events).book).Sorted ∧
      (((OrderBook.abstract ((MatchingEngine.new config).processEvents events).book).bids ++
        (OrderBook.abstract ((MatchingEngine.new config).processEvents events).book).asks).map
          Resting.orderId).Nodup := by
  have reach := processEvents_reachable events
    (show OrderBook.Reachable (MatchingEngine.new config).book from .new config.maxOrders)
  exact ⟨reach.uncrossed,reach.inv.abstract_sorted,reach.inv.abstract_ids⟩

/-- `events_processed` counts exactly the events that pass the gate. -/
theorem processEvent_admitted (engine : MatchingEngine) (event : OrderEvent) :
    (engine.processEvent event).eventsProcessed = engine.eventsProcessed + 1 ↔
      engine.config.risk.check (engine.ensureAccount event) event = .passed := by
  have frame := foldl_onTrade_frame (dispatch engine.book event).2.2
    { engine with accounts := engine.ensureAccount event, book := (dispatch engine.book event).2.1 }
  unfold processEvent
  dsimp only
  split_ifs with rejected
  · simp [rejected]
  all_goals simpa [frame.2.2.1] using not_not.mp rejected

/-- Each event is counted once: in `events_processed` if it passes the gate, in
`rejected_count` if not. -/
theorem processEvent_counts (engine : MatchingEngine) (event : OrderEvent) :
    (engine.processEvent event).eventsProcessed + (engine.processEvent event).stats.rejectedCount =
      engine.eventsProcessed + engine.stats.rejectedCount + 1 := by
  have frame := foldl_onTrade_frame (dispatch engine.book event).2.2
    { engine with accounts := engine.ensureAccount event, book := (dispatch engine.book event).2.1 }
  unfold processEvent
  dsimp only
  split_ifs <;> simp only [frame.2.2.1,frame.2.2.2] <;> abel

theorem processEvents_counts (events : List OrderEvent) : ∀ engine : MatchingEngine,
    (engine.processEvents events).eventsProcessed + (engine.processEvents events).stats.rejectedCount =
      engine.eventsProcessed + engine.stats.rejectedCount + BitVec.ofNat 64 events.length := by
  induction events with
  | nil => intro engine; simp [processEvents]
  | cons event rest ih =>
    intro engine
    have succ : BitVec.ofNat 64 (rest.length + 1) = BitVec.ofNat 64 rest.length + 1 :=
      (BitVec.ofNat_add_ofNat _ 1).symm
    rw [processEvents,List.foldl_cons,← processEvents,ih,processEvent_counts,List.length_cons,succ]
    abel

/-- With the balance check on, every buy that reaches the book was checked against an
existing account of the event's own `trader_id`, holding at least the `int64_t` product
`price * qty` after
`get_or_create`. For a modify that id is the one the event carries, which
`OrderEvent::modify` sets to `INVALID_TRADER_ID`. -/
theorem admitted_buy_balance (engine : MatchingEngine) (event : OrderEvent)
    (enabled : engine.config.risk.checkBalance = true) (buy : event.side = .buy) (order : event.type ≠ .cancel)
    (admitted : (engine.processEvent event).eventsProcessed = engine.eventsProcessed + 1) :
    ∃ acc, (engine.ensureAccount event).get event.traderId = some acc ∧
      wrap64 (event.price * event.qty) ≤ acc.balance.toInt :=
  RiskConfig.balance_of_passed ((processEvent_admitted engine event).mp admitted) order enabled buy

theorem buy_balance_on_new :
    (MatchingEngine.new {}).config.risk.checkBalance = true ∧ (OrderEvent.newLimit 1 0 .buy 100 10).side = .buy ∧
      (OrderEvent.newLimit 1 0 .buy 100 10).type ≠ .cancel ∧
      ((MatchingEngine.new {}).processEvent (.newLimit 1 0 .buy 100 10)).eventsProcessed =
        (MatchingEngine.new {}).eventsProcessed + 1 ∧
      ∃ acc, ((MatchingEngine.new {}).ensureAccount (.newLimit 1 0 .buy 100 10)).get 0 = some acc ∧
        wrap64 (100 * 10) ≤ acc.balance.toInt :=
  ⟨rfl,rfl,by decide,by decide,admitted_buy_balance (MatchingEngine.new {}) (.newLimit 1 0 .buy 100 10) rfl rfl
    (by decide) (by decide)⟩

/-- A modify is checked against the account of `INVALID_TRADER_ID`, which `get_or_create`
opens with the initial balance, and not against the owner of the order. Trader 7 rests two
buys of 5 at 100 and one fills, leaving a balance of 500; the modify of the other to 10 at
100 passes the gate and re-adds a buy of notional 1000 for trader 7. -/
theorem modify_skips_owner_balance :
    ((MatchingEngine.new { maxOrders := 8, initialBalance := 1000 }).processEvents
        [.newLimit 1 7 .buy 100 5, .newLimit 2 7 .buy 100 5, .newLimit 3 8 .sell 100 5,
          .modify 2 10 100]).eventsProcessed = 4 ∧
    (((MatchingEngine.new { maxOrders := 8, initialBalance := 1000 }).processEvents
        [.newLimit 1 7 .buy 100 5, .newLimit 2 7 .buy 100 5, .newLimit 3 8 .sell 100 5]).ensureAccount
        (.modify 2 10 100)).getBalance 7 = 500 ∧
    (((MatchingEngine.new { maxOrders := 8, initialBalance := 1000 }).processEvents
        [.newLimit 1 7 .buy 100 5, .newLimit 2 7 .buy 100 5, .newLimit 3 8 .sell 100 5,
          .modify 2 10 100]).book.orderMap.lookup 2).map (fun i =>
        (((MatchingEngine.new { maxOrders := 8, initialBalance := 1000 }).processEvents
          [.newLimit 1 7 .buy 100 5, .newLimit 2 7 .buy 100 5, .newLimit 3 8 .sell 100 5,
            .modify 2 10 100]).book.orderPool.getObject i).traderId) = some 7 ∧
    (((MatchingEngine.new { maxOrders := 8, initialBalance := 1000 }).processEvents
        [.newLimit 1 7 .buy 100 5, .newLimit 2 7 .buy 100 5, .newLimit 3 8 .sell 100 5,
          .modify 2 10 100]).book.orderMap.lookup 2).map (fun i =>
        (((MatchingEngine.new { maxOrders := 8, initialBalance := 1000 }).processEvents
          [.newLimit 1 7 .buy 100 5, .newLimit 2 7 .buy 100 5, .newLimit 3 8 .sell 100 5,
            .modify 2 10 100]).book.orderPool.getObject i).side) = some .buy ∧
    (((MatchingEngine.new { maxOrders := 8, initialBalance := 1000 }).processEvents
        [.newLimit 1 7 .buy 100 5, .newLimit 2 7 .buy 100 5, .newLimit 3 8 .sell 100 5,
          .modify 2 10 100]).book.orderMap.lookup 2).map (fun i =>
        (((MatchingEngine.new { maxOrders := 8, initialBalance := 1000 }).processEvents
          [.newLimit 1 7 .buy 100 5, .newLimit 2 7 .buy 100 5, .newLimit 3 8 .sell 100 5,
            .modify 2 10 100]).book.orderPool.getObject i).price *
        (((MatchingEngine.new { maxOrders := 8, initialBalance := 1000 }).processEvents
          [.newLimit 1 7 .buy 100 5, .newLimit 2 7 .buy 100 5, .newLimit 3 8 .sell 100 5,
            .modify 2 10 100]).book.orderPool.getObject i).qtyRemaining) = some 1000 := by
  decide

end MatchingEngine

end ExchangeSim
