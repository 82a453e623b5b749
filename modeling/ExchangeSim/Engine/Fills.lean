import ExchangeSim.Engine.MatchingEngine
import ExchangeSim.Lob.Counters
import ExchangeSim.Lob.Rejection
import Mathlib.Algebra.Order.BigOperators.Group.List
import Mathlib.Algebra.Order.Group.Int

/-! The engine counts fills twice. `on_trade` adds each trade the book emits to
`stats.trade_count` and `stats.volume`, as the book adds it to `total_trades_` and
`total_volume_`; `process_event` adds the `qty_filled` of each successful response to
`stats.filled_qty`. The first two agree with the book along every run. The third agrees with
`stats.volume` because the risk gate only lets positive quantities in: every resting order
keeps quantity left, so a call that trades fills a positive quantity, and it succeeds. -/
namespace ExchangeSim

namespace OrderBook

variable {book : OrderBook}

theorem addLimitInternal_found (orderId traderId : Nat) (side : Side) (price qty : Int) :
    (book.addLimitInternal orderId traderId side price qty).1.result ≠ .notFound := by
  unfold OrderBook.addLimitInternal
  by_cases known : orderId ∈ book.orderMap
  · rw [if_pos known]
    nofun
  rw [if_neg known]
  dsimp only
  split_ifs <;> nofun

/-- A `modify` that finds no order trades nothing. -/
theorem modify_notFound (orderId : Nat) (newQty newPrice : Int)
    (missing : (book.modify orderId newQty newPrice).1.result = .notFound) :
    (book.modify orderId newQty newPrice).2.2 = [] := by
  revert missing
  unfold OrderBook.modify
  split
  · exact fun _ => rfl
  · dsimp only
    split_ifs
    · exact fun found => absurd found (addLimitInternal_found _ _ _ _ _)
    · simp
    · exact fun found => absurd found (addLimitInternal_found _ _ _ _ _)

end OrderBook

namespace MatchingEngine

open OrderBook

variable {book : OrderBook}

/-- What `process_event` adds to `filled_qty` for a response. -/
def filledIncrement (response : OrderResponse) : BitVec 64 :=
  if response.success = true ∧ response.qtyFilled > 0 then BitVec.ofInt 64 response.qtyFilled else 0

/-- Each book call adds its trades to the book's counters and reports their quantity as
filled, in `int64_t`. -/
theorem dispatch_counted (book : OrderBook) (event : OrderEvent) :
    Counted book (dispatch book event).2.1 (dispatch book event).2.2 ∧
      (dispatch book event).1.qtyFilled = wrap64 ((dispatch book event).2.2.map Trade.qty).sum := by
  unfold dispatch
  split
  · exact addLimitInternal_counted _ _ _ _ _ _
  · exact addMarket_counted _ _ _ _ _
  · exact cancel_counted _ _
  · exact modify_counted _ _ _ _

/-- On a reachable book, a call that trades succeeds. -/
theorem dispatch_success (reach : Reachable book) (event : OrderEvent)
    (traded : (dispatch book event).2.2 ≠ []) : (dispatch book event).1.success = true := by
  revert traded
  simp only [OrderResponse.success,Bool.and_eq_true,bne_iff_ne,ne_eq]
  unfold dispatch
  split
  · have rejected := reach.inv.addLimitInternal_rejected event.orderId event.traderId event.side event.price
      event.qty
    exact fun traded => ⟨fun same => traded (congrArg Prod.snd (rejected same)),addLimitInternal_found _ _ _ _ _⟩
  · unfold OrderBook.addMarket
    dsimp only
    split_ifs <;> simp
  · exact fun traded => absurd rfl traded
  · exact fun traded => ⟨reach.inv.modify_accepts _ _ _,fun missing => traded (modify_notFound _ _ _ missing)⟩

/-- On a reachable book whose resting quantities are positive, a call with a positive
quantity, or a cancel, keeps them positive and trades positive quantities. -/
theorem dispatch_positive (reach : Reachable book) (positive : (abstract book).Positive)
    (event : OrderEvent) (left : event.type = .modify → 0 < event.qty) :
    (abstract (dispatch book event).2.1).Positive ∧ ∀ trade ∈ (dispatch book event).2.2, 0 < trade.qty := by
  have inv := reach.inv
  unfold dispatch
  split
  · have after := positive.addLimit event.orderId event.traderId event.side event.price event.qty
    rw [← inv.addLimit_abstract] at after
    exact after
  · have after := positive.addMarket event.orderId event.traderId event.side event.qty
    rw [← inv.addMarket_abstract] at after
    exact after
  · have after := positive.cancel event.orderId
    rw [← inv.cancel_abstract] at after
    exact ⟨after,by simp⟩
  · rename_i modify
    have after := positive.modify event.orderId (left modify) event.price
    rw [← inv.modify_abstract] at after
    exact after

/-- On a reachable book whose resting quantities are positive, a call fills at most the
event's quantity, so less than `2^63` when that quantity is an `int64_t`. -/
theorem dispatch_filled (reach : Reachable book) (positive : (abstract book).Positive) (event : OrderEvent)
    (fits : event.type ≠ .cancel → event.qty < 2^63) :
    ((dispatch book event).2.2.map Trade.qty).sum < 2^63 := by
  have inv := reach.inv
  by_cases cancel : event.type = .cancel
  · simp [dispatch,cancel]
  have bound := max_lt (fits cancel) (show (0 : Int) < 2^63 by decide)
  unfold dispatch
  split
  · have filled := positive.addLimit_filled event.orderId event.traderId event.side event.price (fits cancel)
    rw [← inv.addLimit_abstract] at filled
    exact filled.trans_lt bound
  · have filled := positive.addMarket_filled event.orderId event.traderId event.side (fits cancel)
    rw [← inv.addMarket_abstract] at filled
    exact filled.trans_lt bound
  · contradiction
  · have filled := positive.modify_filled event.orderId (fits cancel) event.price
    rw [← inv.modify_abstract] at filled
    exact filled.trans_lt bound

/-- What a call adds to `filled_qty` is the volume of its trades. -/
theorem filledIncrement_dispatch (reach : Reachable book) (positive : (abstract book).Positive)
    (event : OrderEvent) (left : event.type = .modify → 0 < event.qty)
    (fits : event.type ≠ .cancel → event.qty < 2^63) :
    filledIncrement (dispatch book event).1 = volumeOf (dispatch book event).2.2 := by
  have fills := (dispatch_positive reach positive event left).2
  have small := dispatch_filled reach positive event fits
  rw [filledIncrement,(dispatch_counted book event).2,volumeOf_eq_ofInt_sum]
  by_cases traded : (dispatch book event).2.2 = []
  · simp [traded]
  · have filled : 0 < ((dispatch book event).2.2.map Trade.qty).sum :=
      List.sum_pos _ (List.forall_mem_map.mpr fills) (by simpa using traded)
    rw [wrap64_of_mem (by omega) small,if_pos ⟨dispatch_success reach event traded,filled⟩]

theorem foldl_onTrade_stats : ∀ (trades : List Trade) (engine : MatchingEngine),
    (trades.foldl onTrade engine).stats.tradeCount = engine.stats.tradeCount + BitVec.ofNat 64 trades.length ∧
      (trades.foldl onTrade engine).stats.volume = engine.stats.volume + volumeOf trades ∧
      (trades.foldl onTrade engine).stats.filledQty = engine.stats.filledQty
  | [], engine => by simp
  | trade :: rest, engine => by
    obtain ⟨count,volume,filled⟩ := foldl_onTrade_stats rest (engine.onTrade trade)
    refine ⟨?_,?_,filled⟩
    · rw [List.foldl_cons,count,List.length_cons,← BitVec.ofNat_add_ofNat,
        show BitVec.ofNat 64 1 = 1 from rfl]
      simp only [onTrade]
      abel
    · rw [List.foldl_cons,volume,← List.singleton_append,volumeOf_append,volumeOf_singleton]
      simp only [onTrade]
      abel

/-- What every run of the engine keeps: its book is reachable and every resting quantity is
positive, and the fill counters agree with each other and with the book's. -/
structure Sound (engine : MatchingEngine) : Prop where
  reach : Reachable engine.book
  positive : (abstract engine.book).Positive
  trades : engine.stats.tradeCount = engine.book.tradeCount
  volume : engine.stats.volume = engine.book.totalVolume
  filled : engine.stats.filledQty = engine.stats.volume

theorem sound_new (config : EngineConfig) : Sound (MatchingEngine.new config) :=
  ⟨.new config.maxOrders,fun t order member => by
    cases t <;> simp [MatchingEngine.new,abstract_new,Book.empty,Book.side] at member,
    rfl,rfl,rfl⟩

theorem Sound.processEvent {engine : MatchingEngine} (sound : Sound engine) (event : OrderEvent) :
    Sound (engine.processEvent event) := by
  have frame := foldl_onTrade_frame (dispatch engine.book event).2.2
    { engine with accounts := engine.ensureAccount event, book := (dispatch engine.book event).2.1 }
  obtain ⟨count,volume,filled⟩ := foldl_onTrade_stats (dispatch engine.book event).2.2
    { engine with accounts := engine.ensureAccount event, book := (dispatch engine.book event).2.1 }
  have reach := processEvent_reachable sound.reach event
  unfold MatchingEngine.processEvent at reach ⊢
  dsimp only at reach ⊢
  split_ifs at reach ⊢ with rejected positive
  · exact ⟨sound.reach,sound.positive,sound.trades,sound.volume,sound.filled⟩
  all_goals
    have passed := RiskConfig.check_passed (not_not.mp rejected)
    have left : event.type = .modify → 0 < event.qty := fun modify => (passed (by simp [modify])).1
    have fits : event.type ≠ .cancel → event.qty < 2^63 := fun order =>
      (passed order).2.1.trans_lt engine.config.risk.maxOrderQty_lt
    obtain ⟨⟨bookCount,bookVolume⟩,-⟩ := dispatch_counted engine.book event
    have after := (dispatch_positive sound.reach sound.positive event left).1
    have increment := filledIncrement_dispatch sound.reach sound.positive event left fits
  · rw [filledIncrement,if_pos positive] at increment
    refine ⟨reach,frame.1 ▸ after,?_,?_,?_⟩
    · simp only [count,frame.1,OrderBook.tradeCount,bookCount,sound.trades]
    · simp only [volume,frame.1,bookVolume,sound.volume]
    · simp only [filled,volume,increment,sound.filled]
  · rw [filledIncrement,if_neg positive] at increment
    refine ⟨reach,frame.1 ▸ after,?_,?_,?_⟩
    · simp only [count,frame.1,OrderBook.tradeCount,bookCount,sound.trades]
    · simp only [volume,frame.1,bookVolume,sound.volume]
    · simp only [filled,volume,← increment,sound.filled,add_zero]

theorem Sound.processEvents : ∀ (events : List OrderEvent) {engine : MatchingEngine},
    Sound engine → Sound (engine.processEvents events)
  | [], _, sound => sound
  | event :: events, _, sound => Sound.processEvents events (sound.processEvent event)

/-- The engine's two counts of fills agree. After any sequence of events on a fresh engine,
`stats().trade_count` is the book's `trade_count()`, `stats().volume` its `total_volume()`, and
`stats().filled_qty`, accumulated from the responses, is `stats().volume`, accumulated from the
trade callback. -/
theorem engine_fill_counters (config : EngineConfig) (events : List OrderEvent) :
    ((MatchingEngine.new config).processEvents events).stats.tradeCount =
        ((MatchingEngine.new config).processEvents events).book.tradeCount ∧
      ((MatchingEngine.new config).processEvents events).stats.volume =
        ((MatchingEngine.new config).processEvents events).book.totalVolume ∧
      ((MatchingEngine.new config).processEvents events).stats.filledQty =
        ((MatchingEngine.new config).processEvents events).stats.volume :=
  have sound := Sound.processEvents events (sound_new config)
  ⟨sound.trades,sound.volume,sound.filled⟩

end MatchingEngine

end ExchangeSim
