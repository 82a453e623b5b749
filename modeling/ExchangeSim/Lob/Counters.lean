import ExchangeSim.Lob.Invariant

/-! The book's counters. Each fill of `match_order` emits one trade, adds one to
`total_trades_` and its quantity to `total_volume_`, and takes its quantity off the
remaining quantity in `int64_t`; nothing else touches the counters but `clear`. So every call
adds its trades to the counters, and the `qty_filled` it reports is the quantity of its trades
in `int64_t`. -/
namespace ExchangeSim

/-- What trades add to `total_volume_`: the quantity of each, as the `uint64` the counter is. -/
def volumeOf (trades : List Trade) : BitVec 64 := (trades.map fun trade => BitVec.ofInt 64 trade.qty).sum

@[simp] theorem volumeOf_nil : volumeOf [] = 0 := rfl

@[simp] theorem volumeOf_append (first second : List Trade) :
    volumeOf (first ++ second) = volumeOf first + volumeOf second := by
  simp [volumeOf]

@[simp] theorem volumeOf_singleton (trade : Trade) : volumeOf [trade] = BitVec.ofInt 64 trade.qty := by
  simp [volumeOf]

/-- The volume of trades is their total quantity, taken modulo 2^64. -/
theorem volumeOf_eq_ofInt_sum : ∀ trades : List Trade,
    volumeOf trades = BitVec.ofInt 64 (trades.map Trade.qty).sum
  | [] => rfl
  | trade :: rest => by
    rw [← List.singleton_append,volumeOf_append,volumeOf_eq_ofInt_sum rest,volumeOf_singleton]
    simp [BitVec.ofInt_add]

namespace OrderBook

/-- `sweep'` continues `sweep` by the trades `new`: each is counted once in `total_trades_`
and by its quantity in `total_volume_`, and its quantity is taken off the remaining quantity,
modulo 2^64. -/
def Extends (sweep sweep' : Sweep) (new : List Trade) : Prop :=
  sweep'.trades = sweep.trades ++ new ∧
    sweep'.book.totalTrades = sweep.book.totalTrades + BitVec.ofNat 64 new.length ∧
    sweep'.book.totalVolume = sweep.book.totalVolume + volumeOf new ∧
    wrap64 sweep'.remaining = wrap64 (sweep.remaining - (new.map Trade.qty).sum)

theorem Extends.refl (sweep : Sweep) : Extends sweep sweep [] := by
  simp [Extends]

theorem Extends.trans {sweep sweep' sweep'' : Sweep} {new new' : List Trade}
    (first : Extends sweep sweep' new) (second : Extends sweep' sweep'' new') :
    Extends sweep sweep'' (new ++ new') := by
  obtain ⟨trades,count,volume,remaining⟩ := first
  obtain ⟨trades',count',volume',remaining'⟩ := second
  refine ⟨by rw [trades',trades,List.append_assoc],?_,?_,?_⟩
  · rw [count',count,List.length_append,← BitVec.ofNat_add_ofNat,add_assoc]
  · rw [volume',volume,volumeOf_append,add_assoc]
  · rw [remaining',List.map_append,List.sum_append]
    unfold wrap64 at remaining ⊢
    omega

variable (taker : Taker)

/-- One fill emits one trade. -/
theorem fillFront_extends (level : PriceLevel) (sweep : Sweep) :
    ∃ trade, Extends sweep (fillFront taker level sweep).2 [trade] := by
  unfold fillFront
  dsimp only
  split_ifs <;> exact ⟨_,rfl,by simp,by simp,by simp⟩

theorem fillLevel_extends : ∀ (n : Nat) (level : PriceLevel) (sweep : Sweep),
    ∃ new, Extends sweep (fillLevel taker n level sweep).2 new
  | 0, _, sweep => ⟨[],Extends.refl sweep⟩
  | n + 1, level, sweep => by
    simp only [fillLevel]
    split_ifs
    · obtain ⟨trade,first⟩ := fillFront_extends taker level sweep
      obtain ⟨new,rest⟩ := fillLevel_extends n (fillFront taker level sweep).1 (fillFront taker level sweep).2
      exact ⟨_,first.trans rest⟩
    · exact ⟨[],Extends.refl sweep⟩

theorem sweepLevels_extends : ∀ (L : List PriceLevel) (sweep : Sweep),
    ∃ new, Extends sweep (sweepLevels taker L sweep).2 new
  | [], sweep => ⟨[],Extends.refl sweep⟩
  | level :: rest, sweep => by
    obtain ⟨new,filled⟩ := fillLevel_extends taker level.orderCount level sweep
    obtain ⟨new',swept⟩ := sweepLevels_extends rest (fillLevel taker level.orderCount level sweep).2
    simp only [sweepLevels]
    split_ifs
    · exact ⟨[],Extends.refl sweep⟩
    · exact ⟨[],Extends.refl sweep⟩
    · exact ⟨_,filled.trans swept⟩
    · exact ⟨_,filled.trans swept⟩

/-- `book'` is `book` with the trades added to its counters. -/
def Counted (book book' : OrderBook) (trades : List Trade) : Prop :=
  book'.totalTrades = book.totalTrades + BitVec.ofNat 64 trades.length ∧
    book'.totalVolume = book.totalVolume + volumeOf trades

theorem Counted.none {book book' : OrderBook} (trades : book'.totalTrades = book.totalTrades)
    (volume : book'.totalVolume = book.totalVolume) : Counted book book' [] := by
  simp [Counted,trades,volume]

/-- A call made after steps that leave the counters alone counts from the start. -/
theorem Counted.after {book book' book'' : OrderBook} {trades : List Trade}
    (same : book'.totalTrades = book.totalTrades ∧ book'.totalVolume = book.totalVolume)
    (counted : Counted book' book'' trades) : Counted book book'' trades := by
  rw [Counted,← same.1,← same.2]
  exact counted

/-- `match_order` counts its trades, and they take its quantity down to what remains, modulo
2^64. -/
theorem matchOrder_counted (book : OrderBook) (qty : Int) :
    Counted book (book.matchOrder taker qty).1 (book.matchOrder taker qty).2.2 ∧
      wrap64 (qty - (book.matchOrder taker qty).2.1) = wrap64 ((book.matchOrder taker qty).2.2.map Trade.qty).sum := by
  obtain ⟨new,trades,count,volume,remaining⟩ :=
    sweepLevels_extends taker (book.levels (opposite taker.side)) ⟨book,qty,[]⟩
  simp only [List.nil_append] at trades
  dsimp only at count volume remaining
  simp only [OrderBook.matchOrder,Counted,setLevels_totalTrades,setLevels_totalVolume,trades]
  refine ⟨⟨count,volume⟩,?_⟩
  unfold wrap64 at remaining ⊢
  omega

variable {taker}

/-- `add_limit_internal` counts its trades, and reports their quantity as filled. -/
theorem addLimitInternal_counted (book : OrderBook) (orderId traderId : Nat) (side : Side)
    (price qty : Int) :
    Counted book (book.addLimitInternal orderId traderId side price qty).2.1
        (book.addLimitInternal orderId traderId side price qty).2.2 ∧
      (book.addLimitInternal orderId traderId side price qty).1.qtyFilled =
        wrap64 ((book.addLimitInternal orderId traderId side price qty).2.2.map Trade.qty).sum := by
  obtain ⟨⟨count,volume⟩,filled⟩ := matchOrder_counted ⟨orderId,traderId,side,price,false⟩ book qty
  unfold OrderBook.addLimitInternal
  by_cases known : orderId ∈ book.orderMap
  · rw [if_pos known]
    exact ⟨Counted.none rfl rfl,rfl⟩
  rw [if_neg known]
  dsimp only
  split_ifs
  · exact ⟨⟨count,volume⟩,filled⟩
  all_goals exact ⟨⟨by simp [count],by simp [volume]⟩,filled⟩

theorem addMarket_counted (book : OrderBook) (orderId traderId : Nat) (side : Side) (qty : Int) :
    Counted book (book.addMarket orderId traderId side qty).2.1 (book.addMarket orderId traderId side qty).2.2 ∧
      (book.addMarket orderId traderId side qty).1.qtyFilled =
        wrap64 ((book.addMarket orderId traderId side qty).2.2.map Trade.qty).sum :=
  matchOrder_counted ⟨orderId,traderId,side,0,true⟩ book qty

/-- Unlinking an order and erasing its id leave the counters alone. -/
theorem removeOrderInternal_counters (book : OrderBook) (i orderId : Nat) :
    ({ book.removeOrderInternal i with orderMap := (book.removeOrderInternal i).orderMap.erase orderId } :
        OrderBook).totalTrades = book.totalTrades ∧
      ({ book.removeOrderInternal i with orderMap := (book.removeOrderInternal i).orderMap.erase orderId } :
        OrderBook).totalVolume = book.totalVolume := by
  unfold OrderBook.removeOrderInternal
  dsimp only
  split <;> simp

theorem cancel_counted (book : OrderBook) (orderId : Nat) :
    Counted book (book.cancel orderId).2 [] ∧ (book.cancel orderId).1.qtyFilled = 0 := by
  unfold OrderBook.cancel
  split
  · exact ⟨Counted.none rfl rfl,rfl⟩
  · obtain ⟨trades,volume⟩ := removeOrderInternal_counters book ‹_› orderId
    exact ⟨Counted.none trades volume,rfl⟩

theorem modify_counted (book : OrderBook) (orderId : Nat) (newQty newPrice : Int) :
    Counted book (book.modify orderId newQty newPrice).2.1 (book.modify orderId newQty newPrice).2.2 ∧
      (book.modify orderId newQty newPrice).1.qtyFilled =
        wrap64 ((book.modify orderId newQty newPrice).2.2.map Trade.qty).sum := by
  unfold OrderBook.modify
  split
  · exact ⟨Counted.none rfl rfl,rfl⟩
  · rename_i i _
    have erased := removeOrderInternal_counters book i orderId
    dsimp only
    split_ifs
    · exact (addLimitInternal_counted _ _ _ _ _ _).imp_left (Counted.after erased)
    · exact ⟨Counted.none (by simp) (by simp),rfl⟩
    · exact (addLimitInternal_counted _ _ _ _ _ _).imp_left (Counted.after erased)

end OrderBook

end ExchangeSim
