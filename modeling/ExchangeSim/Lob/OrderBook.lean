import ExchangeSim.Lob.PriceLevel
import Mathlib.Data.List.AList

/-! `OrderBook` (`order_book.cpp`): two sorted level vectors over one object pool, the
order-id index, and `match_order`'s sweep of the opposite side. The mutex and the trade
callback are not state: each operation returns the trades it passed to the callback, in
order, and the lock only serialises whole calls. -/
namespace ExchangeSim

structure OrderBook where
  orderPool : ObjectPool Order
  orderMap : AList (fun _ : Nat => Nat)
  bids : List PriceLevel
  asks : List PriceLevel
  totalTrades : BitVec 64
  totalVolume : BitVec 64

namespace OrderBook

/-- `OrderBook(max_orders, ...)`: the level and map reservations do not change behaviour. -/
def new (maxOrders : UInt32) : OrderBook := ⟨ObjectPool.new maxOrders,∅,[],[],0,0⟩

/-- `side == Side::Buy ? bids_ : asks_`. -/
def levels (book : OrderBook) : Side → List PriceLevel
  | .buy => book.bids
  | .sell => book.asks

def setLevels (book : OrderBook) : Side → List PriceLevel → OrderBook
  | .buy, levels => { book with bids := levels }
  | .sell, levels => { book with asks := levels }

/-- The comparator of both lower-bound searches: `level` stands before price `p`. -/
def before (isBid : Bool) (level : PriceLevel) (p : Int) : Bool :=
  if isBid then level.price > p else level.price < p

/-- `std::lower_bound` with `before`: the first position whose level `before` does not
place ahead of `p`. The standard defines it on ranges partitioned by the comparator, which
the sorted level vectors are; there it is this position. -/
def lowerBound (isBid : Bool) (p : Int) : List PriceLevel → Nat
  | [] => 0
  | level :: rest => if before isBid level p then lowerBound isBid p rest + 1 else 0

/-- `find_level`: the position of the level priced `price`, `none` for `end()`. -/
def findLevel (levels : List PriceLevel) (price : Int) (isBid : Bool) : Option Nat :=
  let it := lowerBound isBid price levels
  match levels[it]? with
  | some level => if level.price = price then some it else none
  | none => none

/-- `find_or_create_level`: the position of the level priced `price` and the vector,
with a fresh level inserted at the lower bound when there was none. -/
def findOrCreateLevel (levels : List PriceLevel) (price : Int) (isBid : Bool) :
    Nat × List PriceLevel :=
  let it := lowerBound isBid price levels
  match levels[it]? with
  | some level =>
    if level.price = price then (it,levels) else (it,levels.insertIdx it (PriceLevel.new price))
  | none => (it,levels.insertIdx it (PriceLevel.new price))

def removeLevelIfEmpty (levels : List PriceLevel) (it : Nat) : List PriceLevel :=
  match levels[it]? with
  | some level => if level.empty then levels.eraseIdx it else levels
  | none => levels

def removeOrderInternal (book : OrderBook) (poolIdx : Nat) : OrderBook :=
  let order := book.orderPool.getObject poolIdx
  let levels := book.levels order.side
  let book := match findLevel levels order.price (order.side == .buy) with
    | some it =>
      let removed := (levels.getD it default).remove book.orderPool poolIdx
      let levels := removeLevelIfEmpty (levels.set it removed.1) it
      { book.setLevels order.side levels with orderPool := removed.2 }
    | none => book
  { book with orderPool := book.orderPool.deallocate poolIdx }

/-- What `match_order` is told of the incoming order. -/
structure Taker where
  orderId : Nat
  traderId : Nat
  side : Side
  price : Int
  isMarket : Bool

/-- The state `match_order`'s loops advance; `trades` went to the callback, in order, and
their number is the `trade_count` out-parameter. -/
structure Sweep where
  book : OrderBook
  remaining : Int
  trades : List Trade

/-- One iteration of the inner `while`: fill against the level's front order. -/
def fillFront (taker : Taker) (level : PriceLevel) (sweep : Sweep) : PriceLevel × Sweep :=
  let book := sweep.book
  let makerIdx := level.frontIdx
  let maker := book.orderPool.getObject makerIdx
  let fillQty := min sweep.remaining maker.qtyRemaining
  let trade : Trade :=
    ⟨maker.orderId,taker.orderId,maker.traderId,taker.traderId,maker.price,fillQty,taker.side⟩
  let makerLeft := wrap64 (maker.qtyRemaining - fillQty)
  let pool := book.orderPool.modifyObject makerIdx fun o => { o with qtyRemaining := makerLeft }
  let level := level.reduceQty fillQty
  let book := { book with
    orderPool := pool
    totalTrades := book.totalTrades + 1
    totalVolume := book.totalVolume + BitVec.ofInt 64 fillQty }
  let sweep : Sweep := ⟨book,wrap64 (sweep.remaining - fillQty),sweep.trades ++ [trade]⟩
  if makerLeft ≤ 0 then
    let removed := level.remove pool makerIdx
    (removed.1,{ sweep with book := { book with
      orderPool := removed.2.deallocate makerIdx
      orderMap := book.orderMap.erase maker.orderId } })
  else (level,sweep)

/-- The inner `while` of `match_order` on one level, run at most `fuel` times; the
level's order count is enough (`fillLevel_enough`). -/
def fillLevel (taker : Taker) : Nat → PriceLevel → Sweep → PriceLevel × Sweep
  | 0, level, sweep => (level,sweep)
  | fuel + 1, level, sweep =>
    if sweep.remaining > 0 ∧ !level.empty then
      let next := fillFront taker level sweep
      fillLevel taker fuel next.1 next.2
    else (level,sweep)

/-- The price check that ends the sweep of a limit order. -/
def beyondLimit (taker : Taker) (level : PriceLevel) : Bool :=
  !taker.isMarket &&
    ((taker.side == .buy && level.price > taker.price) ||
      (taker.side == .sell && level.price < taker.price))

/-- The outer `for` of `match_order` over the opposite levels, best first: an emptied level
is erased, a level left non-empty is kept and the iterator advances. -/
def sweepLevels (taker : Taker) : List PriceLevel → Sweep → List PriceLevel × Sweep
  | [], sweep => ([],sweep)
  | level :: rest, sweep =>
    if sweep.remaining ≤ 0 then (level :: rest,sweep)
    else if beyondLimit taker level then (level :: rest,sweep)
    else
      let filled := fillLevel taker level.orderCount level sweep
      if filled.1.empty then sweepLevels taker rest filled.2
      else
        let swept := sweepLevels taker rest filled.2
        (filled.1 :: swept.1,swept.2)

/-- `match_order`: the book, the remaining quantity and the trades emitted. -/
def matchOrder (book : OrderBook) (taker : Taker) (qty : Int) : OrderBook × Int × List Trade :=
  let swept := sweepLevels taker (book.levels (opposite taker.side)) ⟨book,qty,[]⟩
  (swept.2.book.setLevels (opposite taker.side) swept.1,swept.2.remaining,swept.2.trades)

def addLimitInternal (book : OrderBook) (orderId traderId : Nat) (side : Side) (price qty : Int) :
    OrderResponse × OrderBook × List Trade :=
  if orderId ∈ book.orderMap then ({ orderId := orderId, result := .rejected },book,[])
  else
    let matched := book.matchOrder ⟨orderId,traderId,side,price,false⟩ qty
    let book := matched.1
    let remaining := matched.2.1
    let trades := matched.2.2
    let response : OrderResponse :=
      { orderId := orderId, tradeCount := trades.length, qtyFilled := wrap64 (qty - remaining),
        qtyRemaining := remaining }
    if remaining ≤ 0 then ({ response with result := .fullyFilled },book,trades)
    else
      let allocated := book.orderPool.allocate (Order.create orderId traderId side price remaining)
      let poolIdx := allocated.1
      if poolIdx = invalidPoolIndex then
        ({ response with result := .rejected },{ book with orderPool := allocated.2 },trades)
      else
        let orderMap := book.orderMap.insert orderId poolIdx
        let found := findOrCreateLevel (book.levels side) price (side == .buy)
        let pushed := (found.2.getD found.1 default).pushBack allocated.2 poolIdx
        let book := { book.setLevels side (found.2.set found.1 pushed.1) with
                      orderPool := pushed.2, orderMap := orderMap }
        ({ response with result := if trades.length > 0 then .partiallyFilled else .accepted },
          book,trades)

/-- `add_limit` takes the lock and runs `add_limit_internal`. -/
def addLimit (book : OrderBook) (orderId traderId : Nat) (side : Side) (price qty : Int) :
    OrderResponse × OrderBook × List Trade :=
  book.addLimitInternal orderId traderId side price qty

def addMarket (book : OrderBook) (orderId traderId : Nat) (side : Side) (qty : Int) :
    OrderResponse × OrderBook × List Trade :=
  let matched := book.matchOrder ⟨orderId,traderId,side,0,true⟩ qty
  let remaining := matched.2.1
  let response : OrderResponse :=
    { orderId := orderId, tradeCount := matched.2.2.length, qtyFilled := wrap64 (qty - remaining),
      qtyRemaining := remaining, result := if remaining ≤ 0 then .fullyFilled else .partiallyFilled }
  (response,matched.1,matched.2.2)

def cancel (book : OrderBook) (orderId : Nat) : OrderResponse × OrderBook :=
  match book.orderMap.lookup orderId with
  | none => ({ orderId := orderId, result := .notFound },book)
  | some poolIdx =>
    let order := book.orderPool.getObject poolIdx
    let book := book.removeOrderInternal poolIdx
    ({ orderId := orderId, qtyRemaining := order.qtyRemaining, result := .cancelled },
      { book with orderMap := book.orderMap.erase orderId })

def modify (book : OrderBook) (orderId : Nat) (newQty newPrice : Int) :
    OrderResponse × OrderBook × List Trade :=
  match book.orderMap.lookup orderId with
  | none => ({ orderId := orderId, result := .notFound },book,[])
  | some poolIdx =>
    let order := book.orderPool.getObject poolIdx
    if newPrice ≠ 0 ∧ newPrice ≠ order.price then
      let book := book.removeOrderInternal poolIdx
      let book := { book with orderMap := book.orderMap.erase orderId }
      book.addLimitInternal orderId order.traderId order.side newPrice newQty
    else if newQty < order.qtyRemaining then
      let levels := book.levels order.side
      let levels := match findLevel levels order.price (order.side == .buy) with
        | some it => levels.set it ((levels.getD it default).reduceQty (wrap64 (order.qtyRemaining - newQty)))
        | none => levels
      let pool := book.orderPool.modifyObject poolIdx fun o => { o with qtyRemaining := newQty }
      ({ orderId := orderId, qtyRemaining := newQty, result := .modified },
        { book.setLevels order.side levels with orderPool := pool },[])
    else
      let book := book.removeOrderInternal poolIdx
      let book := { book with orderMap := book.orderMap.erase orderId }
      book.addLimitInternal orderId order.traderId order.side order.price newQty

def clear (book : OrderBook) : OrderBook :=
  { book with
    orderPool := book.orderPool.clear
    orderMap := ∅
    bids := []
    asks := []
    totalTrades := 0
    totalVolume := 0 }

def bestBid (book : OrderBook) : Option Int := (book.bids.find? fun level => !level.empty).map (·.price)

def bestAsk (book : OrderBook) : Option Int := (book.asks.find? fun level => !level.empty).map (·.price)

/-- The `total_qty` of the first level that holds an order, else 0: the loop of `best_bid_qty`
and `best_ask_qty` over its side's levels. -/
def frontQty (levels : List PriceLevel) : Int :=
  ((levels.find? fun level => !level.empty).map (·.totalQty)).getD 0

def bestBidQty (book : OrderBook) : Int := frontQty book.bids

def bestAskQty (book : OrderBook) : Int := frontQty book.asks

/-- The number of levels that hold an order: the loop of `bid_levels` and `ask_levels` over its
side's levels. -/
def countLevels (levels : List PriceLevel) : Nat := levels.countP fun level => !level.empty

def bidLevels (book : OrderBook) : Nat := countLevels book.bids

def askLevels (book : OrderBook) : Nat := countLevels book.asks

def spread (book : OrderBook) : Option Int :=
  match book.bestBid, book.bestAsk with
  | some bid, some ask => some (wrap64 (ask - bid))
  | _, _ => none

def orderCount (book : OrderBook) : Nat := book.orderPool.size

/-- `trade_count()`: the counter `total_trades_`. -/
def tradeCount (book : OrderBook) : BitVec 64 := book.totalTrades

def hasOrder (book : OrderBook) (orderId : Nat) : Bool := decide (orderId ∈ book.orderMap)

end OrderBook

end ExchangeSim
