import ExchangeSim.Tools.ReplayCsv
import ExchangeSim.Lob.Refinement

/-! The replay loop of `replay_from_csv`'s `main`: each parsed order becomes one call of an
`OrderBook(100000, 1024)`, and the trade callback counts the trades and adds up their
quantities in two `uint64_t`. A new order whose line has no side reads the `Side` that
`CsvOrder order;` left indeterminate; the loop has no call for it. A failed conversion throws
out of `main`. The `Accounts` the loop fills with `get_or_create` are never read, and what
`main` prints is a function of the responses, the counters and the final book. -/
namespace ExchangeSim

/-- Every run of calls from a reachable book leaves a reachable book. -/
theorem OrderBook.Reachable.run {book : OrderBook} (reach : book.Reachable) :
    ∀ calls, (book.run calls).2.Reachable
  | [] => reach
  | call :: calls => (reach.perform call).run calls

namespace ReplayCsv

/-- The book call of the loop's `switch` for an order. -/
def CsvOrder.call (order : CsvOrder) : Option Call :=
  match order.type with
  | .newLimit => order.side.map fun side => .addLimit order.orderId order.traderId side order.price order.qty
  | .newMarket => order.side.map fun side => .addMarket order.orderId order.traderId side order.qty
  | .cancel => some (.cancel order.orderId)
  | .modify => some (.modify order.orderId order.qty order.price)

theorem CsvOrder.call_isSome {order : CsvOrder} (sided : order.side.isSome) : order.call.isSome := by
  obtain ⟨side,named⟩ := Option.isSome_iff_exists.mp sided
  cases order with
  | mk type orderId traderId side' price qty =>
    cases type <;> simp_all [CsvOrder.call]

/-- The counters the trade callback captures, both `uint64_t`. -/
structure Tally where
  tradeCount : BitVec 64
  tradeVolume : BitVec 64

/-- The trade callback: `++trade_count; trade_volume += trade.qty.get();`. -/
def Tally.onTrade (tally : Tally) (trade : Trade) : Tally :=
  ⟨tally.tradeCount + 1,tally.tradeVolume + BitVec.ofInt 64 trade.qty⟩

/-- The loop over the parsed orders: what each call returns and passes to the callback, in
order, then the book and the counters at the end; `none` at an order with no call. -/
def replay (book : OrderBook) (tally : Tally) : List CsvOrder →
    Option (List (Option OrderResponse × List Trade) × OrderBook × Tally)
  | [] => some ([],book,tally)
  | order :: orders =>
    order.call.bind fun call =>
      (replay (book.perform call).2 ((book.perform call).1.2.foldl Tally.onTrade tally) orders).map
        fun rest => ((book.perform call).1 :: rest.1,rest.2)

/-- `main` on a file's content: parse it, then run the loop from the fresh book and counters. -/
def replayFile (content : List Char) : Option (List (Option OrderResponse × List Trade) × OrderBook × Tally) :=
  match parseCsv content with
  | .ok orders => replay (OrderBook.new 100000) ⟨0,0⟩ orders
  | .error _ => none

/-- The callback over a list of trades counts them and adds their quantities, modulo 2^64. -/
theorem foldl_onTrade (trades : List Trade) (tally : Tally) :
    trades.foldl Tally.onTrade tally =
      ⟨tally.tradeCount + BitVec.ofNat 64 trades.length,tally.tradeVolume + BitVec.ofInt 64 (trades.map Trade.qty).sum⟩ := by
  induction trades generalizing tally with
  | nil => simp
  | cons trade trades ih =>
    rw [List.foldl_cons,ih,Tally.onTrade,List.length_cons,List.map_cons,List.sum_cons,BitVec.ofNat_add,
      BitVec.ofInt_add,BitVec.add_assoc,BitVec.add_assoc,BitVec.add_comm (BitVec.ofNat 64 trades.length)]
    rfl

/-- When every order has a call, the loop is the book's run of the calls, with the callback
folded over all their trades. -/
theorem replay_eq (book : OrderBook) (tally : Tally) (orders : List CsvOrder)
    (sided : ∀ order ∈ orders, order.call.isSome) :
    replay book tally orders =
      some ((book.run (orders.filterMap CsvOrder.call)).1,(book.run (orders.filterMap CsvOrder.call)).2,
        ((book.run (orders.filterMap CsvOrder.call)).1.flatMap Prod.snd).foldl Tally.onTrade tally) := by
  induction orders generalizing book tally with
  | nil => rfl
  | cons order orders ih =>
    obtain ⟨call,named⟩ := Option.isSome_iff_exists.mp (sided order (List.mem_cons_self _ _))
    rw [replay,named,Option.some_bind,ih _ _ fun other member => sided other (List.mem_cons_of_mem _ member),
      Option.map_some',List.filterMap_cons_some named]
    simp only [OrderBook.run,List.flatMap_cons,List.foldl_append]

/-- What the abstract book does with the orders' calls from an empty book of 100000 orders:
each call's response and trades, and the book it leaves. -/
def specified (orders : List CsvOrder) : List (Option OrderResponse × List Trade) × Book :=
  (Book.empty 100000).run (orders.filterMap CsvOrder.call)

/-- Replaying a file in the tool's format, written from orders that each have a side and
fields within their C++ types, prints what the price-time-priority book specifies: every
response and trade is the abstract book's, the final book is reachable and its abstraction is
the abstract book's, and the summary counts the trades and adds their quantities modulo
2^64. -/
theorem replay_refines (header : List Char) (noBreak : '\n' ∉ header) (orders : List CsvOrder)
    (valid : ∀ order ∈ orders, order.Valid) :
    ∃ book tally, replayFile (header ++ '\n' :: orders.flatMap fun order => order.line ++ ['\n']) =
        some ((specified orders).1,book,tally) ∧
      book.Reachable ∧ book.abstract = (specified orders).2 ∧
      tally.tradeCount = BitVec.ofNat 64 ((specified orders).1.flatMap Prod.snd).length ∧
      tally.tradeVolume = BitVec.ofInt 64 (((specified orders).1.flatMap Prod.snd).map Trade.qty).sum := by
  have refines : (((OrderBook.new 100000).run (orders.filterMap CsvOrder.call)).1,
      ((OrderBook.new 100000).run (orders.filterMap CsvOrder.call)).2.abstract) = specified orders :=
    (OrderBook.Reachable.new 100000).run_abstract (orders.filterMap CsvOrder.call)
  have parsed : parseCsv (header ++ '\n' :: orders.flatMap fun order => order.line ++ ['\n']) = .ok orders := by
    rw [parseCsv,getlines_file noBreak,List.tail_cons,parseLines_lines orders valid]
  refine ⟨_,(((OrderBook.new 100000).run (orders.filterMap CsvOrder.call)).1.flatMap Prod.snd).foldl Tally.onTrade ⟨0,0⟩,?_,
    (OrderBook.Reachable.new 100000).run (orders.filterMap CsvOrder.call),congrArg Prod.snd refines,?_⟩
  · rw [replayFile,parsed]
    dsimp only
    rw [replay_eq _ _ _ fun order member => CsvOrder.call_isSome (valid order member).side,
      ← congrArg Prod.fst refines]
  · rw [foldl_onTrade,← congrArg Prod.fst refines]
    simp

theorem replay_refines_crossing :
    ∃ book tally, replayFile (['t','y','p','e'] ++ '\n' ::
        ([⟨.newLimit,1,0,some .buy,10000,100⟩,⟨.newLimit,2,1,some .sell,9900,40⟩] : List CsvOrder).flatMap
          fun order => order.line ++ ['\n']) =
        some ((specified [⟨.newLimit,1,0,some .buy,10000,100⟩,⟨.newLimit,2,1,some .sell,9900,40⟩]).1,book,tally) ∧
      book.Reachable ∧ book.abstract = (specified [⟨.newLimit,1,0,some .buy,10000,100⟩,⟨.newLimit,2,1,some .sell,9900,40⟩]).2 ∧
      tally.tradeCount =
        BitVec.ofNat 64 ((specified [⟨.newLimit,1,0,some .buy,10000,100⟩,⟨.newLimit,2,1,some .sell,9900,40⟩]).1.flatMap
          Prod.snd).length ∧
      tally.tradeVolume =
        BitVec.ofInt 64 (((specified [⟨.newLimit,1,0,some .buy,10000,100⟩,⟨.newLimit,2,1,some .sell,9900,40⟩]).1.flatMap
          Prod.snd).map Trade.qty).sum :=
  replay_refines _ (by decide) _ fun order member => by
    rcases List.mem_pair.mp member with rfl | rfl <;> exact ⟨by decide,by decide,rfl,by decide,by decide⟩

end ReplayCsv

end ExchangeSim
