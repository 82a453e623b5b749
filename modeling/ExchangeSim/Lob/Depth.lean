import Mathlib.Data.List.Dedup
import ExchangeSim.Lob.Refinement

/-! The depth queries of `OrderBook` read the abstract book: `best_bid_qty` and
`best_ask_qty` are the quantity resting at their side's best price, and `bid_levels` and
`ask_levels` the number of distinct prices on their side. On a reachable book every level
holds an order, its orders share its price, and its `total_qty` is their sum. -/
namespace ExchangeSim

namespace Book

/-- The quantity resting at `price` on side `s`. -/
def depthAt (book : Book) (s : Side) (price : Int) : Int :=
  (((book.side s).filter fun order => order.price = price).map Resting.qty).sum

/-- The quantity resting at side `s`'s best price; 0 on an empty side. -/
def bestQty (book : Book) (s : Side) : Int :=
  match (book.side s).head? with
  | none => 0
  | some order => book.depthAt s order.price

/-- The number of distinct prices on side `s`. -/
def priceCount (book : Book) (s : Side) : Nat := ((book.side s).map Resting.price).dedup.length

end Book

namespace OrderBook

open PriceLevel

variable {book : OrderBook}

/-- A run of equal prices followed by none of them leaves one price. -/
theorem dedup_replicate_append {p : Int} {rest : List Int} (fresh : p ∉ rest) :
    ∀ n, (List.replicate (n + 1) p ++ rest).dedup = p :: rest.dedup
  | 0 => List.dedup_cons_of_not_mem fresh
  | n + 1 => by
    rw [List.replicate_succ,List.cons_append,List.dedup_cons_of_mem (by simp),dedup_replicate_append fresh n]

/-- The prices of a side's orders, level by level: each level's price once per order. -/
theorem Inv.view_prices (inv : Inv book) (s : Side) :
    ∀ levels, (∀ level ∈ levels, level ∈ book.levels s) →
      (view book.orderPool levels).map Resting.price =
        levels.flatMap fun level => List.replicate (level.chain book.orderPool).length level.price
  | [], _ => rfl
  | level :: rest, within => by
    have own : ((level.chain book.orderPool).map fun j => (book.orderPool.getObject j).resting).map Resting.price =
        List.replicate (level.chain book.orderPool).length level.price := by
      rw [List.eq_replicate_iff]
      refine ⟨by simp,fun p member => ?_⟩
      simp only [List.map_map,List.mem_map,Function.comp_apply,Order.resting_price] at member
      obtain ⟨j,inChain,rfl⟩ := member
      exact (inv.levels s level (within level (List.mem_cons_self _ _))).price j inChain
    rw [view_cons,List.map_append,own,inv.view_prices s rest fun y member => within y (List.mem_cons_of_mem _ member),
      List.flatMap_cons]

/-- Each level's price appears on no level behind it. -/
theorem Inv.price_fresh (inv : Inv book) (s : Side) {front : List PriceLevel} {level : PriceLevel}
    {rest : List PriceLevel} (split : book.levels s = front ++ level :: rest) :
    level.price ∉ rest.flatMap fun y => List.replicate (y.chain book.orderPool).length y.price := by
  have sorted := inv.sorted s
  rw [split,List.pairwise_append,List.pairwise_cons] at sorted
  simp only [List.mem_flatMap,List.mem_replicate,not_exists,not_and]
  exact fun y member _ same => better_irrefl s y.price (same ▸ sorted.2.1.1 y member)

/-- `bid_levels` and `ask_levels` count the distinct prices of their side. -/
theorem Inv.countLevels_levels (inv : Inv book) (s : Side) :
    countLevels (book.levels s) = (abstract book).priceCount s := by
  have nonempty : countLevels (book.levels s) = (book.levels s).length :=
    List.countP_eq_length.mpr fun level member => by
      simpa using PriceLevel.not_empty.mpr (inv.nonempty s level member)
  rw [nonempty,Book.priceCount,abstract_side,inv.view_prices s _ fun _ => id]
  suffices distinct : ∀ front levels, book.levels s = front ++ levels →
      (levels.flatMap fun level => List.replicate (level.chain book.orderPool).length level.price).dedup.length =
        levels.length from (distinct [] _ rfl).symm
  intro front levels split
  induction levels generalizing front with
  | nil => rfl
  | cons level rest ih =>
    obtain ⟨n,count⟩ := Nat.exists_eq_add_of_lt (inv.nonempty s level (by simp [split]))
    have length : (level.chain book.orderPool).length = n + 1 := by
      rw [← (inv.levels s level (by simp [split])).queue.count,count,Nat.zero_add]
    rw [List.flatMap_cons,length,dedup_replicate_append (inv.price_fresh s split),List.length_cons,List.length_cons,
      ih (front ++ [level]) (by simp [split])]

/-- `best_bid_qty` and `best_ask_qty` are the quantity resting at their side's best price, in
`int64_t`. -/
theorem Inv.frontQty_levels (inv : Inv book) (s : Side) :
    frontQty (book.levels s) = wrap64 ((abstract book).bestQty s) := by
  rw [Book.bestQty,abstract_side]
  cases levels : book.levels s with
  | nil => rfl
  | cons level rest =>
    have member : level ∈ book.levels s := by simp [levels]
    have ok := inv.levels s level member
    have nonempty := inv.nonempty s level member
    have front := ok.price level.frontIdx (by rw [chain_front nonempty]; exact List.mem_cons_self _ _)
    have fresh := inv.price_fresh s (show book.levels s = [] ++ level :: rest from levels)
    rw [← inv.view_prices s rest fun y inRest => by simp [levels,inRest]] at fresh
    have own : ((level.chain book.orderPool).map fun j => (book.orderPool.getObject j).resting).filter
        (fun order => order.price = level.price) = (level.chain book.orderPool).map fun j => (book.orderPool.getObject j).resting :=
      List.filter_eq_self.mpr fun order inChain => by
        obtain ⟨j,linked,rfl⟩ := List.mem_map.mp inChain
        simpa using ok.price j linked
    have others : (view book.orderPool rest).filter (fun order => order.price = level.price) = [] :=
      List.filter_eq_nil_iff.mpr fun order inRest same => fresh (List.mem_map.mpr ⟨order,inRest,by simpa using same⟩)
    have first : (view book.orderPool (level :: rest)).head? = some (book.orderPool.getObject level.frontIdx).resting := by
      rw [view_front nonempty]; rfl
    rw [first]
    dsimp only
    rw [Book.depthAt,abstract_side,levels,Order.resting_price,front,view_cons,List.filter_append,own,others,List.append_nil,List.map_map,
      frontQty,List.find?_cons_of_pos _ (by simpa using PriceLevel.not_empty.mpr nonempty),Option.map_some',
      Option.getD_some,ok.total]
    rfl

/-- The depth queries of a reachable book read its abstraction: `best_bid_qty()` and
`best_ask_qty()` are the quantity resting at the side's best price (0 on an empty side) as the
level's `int64_t` total holds it, and `bid_levels()` and `ask_levels()` the number of distinct
prices on the side. -/
theorem reachable_depth (reach : Reachable book) :
    book.bestBidQty = wrap64 ((abstract book).bestQty .buy) ∧ book.bestAskQty = wrap64 ((abstract book).bestQty .sell) ∧
      book.bidLevels = (abstract book).priceCount .buy ∧ book.askLevels = (abstract book).priceCount .sell :=
  have inv := reach.inv
  ⟨inv.frontQty_levels .buy,inv.frontQty_levels .sell,inv.countLevels_levels .buy,inv.countLevels_levels .sell⟩

theorem depth_after_add :
    ((OrderBook.new 4).addLimit 1 0 .buy 100 10).2.1.bestBidQty =
        wrap64 ((abstract ((OrderBook.new 4).addLimit 1 0 .buy 100 10).2.1).bestQty .buy) ∧
      ((OrderBook.new 4).addLimit 1 0 .buy 100 10).2.1.bestAskQty =
        wrap64 ((abstract ((OrderBook.new 4).addLimit 1 0 .buy 100 10).2.1).bestQty .sell) ∧
      ((OrderBook.new 4).addLimit 1 0 .buy 100 10).2.1.bidLevels =
        (abstract ((OrderBook.new 4).addLimit 1 0 .buy 100 10).2.1).priceCount .buy ∧
      ((OrderBook.new 4).addLimit 1 0 .buy 100 10).2.1.askLevels =
        (abstract ((OrderBook.new 4).addLimit 1 0 .buy 100 10).2.1).priceCount .sell :=
  reachable_depth (.addLimit 1 0 .buy 100 10 (.new 4))

end OrderBook

end ExchangeSim
