import ExchangeSim.Lob.Uncrossed

/-! `cancel` undoes `add_limit` of an order that crosses nothing. The order takes the head of
the freelist and joins the back of its level, or a fresh level; `cancel` unlinks it from the
back, erases the level if it made it, gives the slot back to the head of the freelist and
erases the id. The book returns to its state before the add, except that the freed slot keeps
the bytes of the cancelled order. -/
namespace ExchangeSim

namespace OrderBook

open PriceLevel

variable {book : OrderBook}

/-- A limit order priced beyond every opposite level trades with none of them. -/
theorem matchOrder_beyond {taker : Taker} {qty : Int} (going : 0 < qty)
    (beyond : ∀ y ∈ book.levels (opposite taker.side), beyondLimit taker y = true) :
    book.matchOrder taker qty = (book,qty,[]) := by
  have swept : sweepLevels taker (book.levels (opposite taker.side)) ⟨book,qty,[]⟩ =
      (book.levels (opposite taker.side),⟨book,qty,[]⟩) := by
    cases levels : book.levels (opposite taker.side) with
    | nil => rfl
    | cons y rest => simp [sweepLevels,Int.not_le.mpr going,beyond y (by simp [levels])]
  simp [OrderBook.matchOrder,swept]

theorem erase_insert_fresh {m : AList fun _ : Nat => Nat} {k : Nat} (fresh : k ∉ m) (v : Nat) :
    (m.insert k v).erase k = m :=
  AList.ext <| show ((m.insert k v).entries.kerase k) = m.entries by
    simp [AList.insert_entries,List.kerase_cons_eq,List.kerase_of_not_mem_keys (AList.mem_keys.not.mp fresh)]

@[simp] theorem rebuild_rebuild (s : Side) (L L' : List PriceLevel) (pool pool' : ObjectPool Order)
    (m m' : AList fun _ : Nat => Nat) :
    (book.rebuild s L pool m).rebuild s L' pool' m' = book.rebuild s L' pool' m' := by
  cases s <;> rfl

theorem rebuild_levels_self (s : Side) (pool : ObjectPool Order) (m : AList fun _ : Nat => Nat) :
    book.rebuild s (book.levels s) pool m = { book with orderPool := pool, orderMap := m } := by
  cases s <;> rfl

/-- Where `add_limit` puts an order that crosses nothing: the slot at the head of the freelist,
at the back of the level of its price, found or created where the side stays sorted. -/
theorem Inv.addLimit_resting (inv : Inv book) {orderId traderId : Nat} {side : Side} {price qty : Int}
    (fresh : orderId ∉ book.orderMap) (free : book.orderPool.freeHead ≠ invalidPoolIndex)
    (going : 0 < qty)
    (beyond : ∀ y ∈ book.levels (opposite side), beyondLimit ⟨orderId,traderId,side,price,false⟩ y = true) :
    ∃ A x B L, (book.levels side = A ++ x :: B ∧ x.empty = false ∨
        x = PriceLevel.new price ∧ book.levels side = A ++ B) ∧ x.price = price ∧
      wrap64 x.totalQty = x.totalQty ∧ Queue (book.orderPool.taken (Order.create orderId traderId side price qty)) x L ∧
      book.orderPool.freeHead ∉ L ∧
      book.addLimit orderId traderId side price qty =
        ({ orderId := orderId, qtyRemaining := qty, result := .accepted },
          book.rebuild side (A ++ (x.pushBack (book.orderPool.taken (Order.create orderId traderId side price qty))
              book.orderPool.freeHead).1 :: B)
            (x.pushBack (book.orderPool.taken (Order.create orderId traderId side price qty))
              book.orderPool.freeHead).2
            (book.orderMap.insert orderId book.orderPool.freeHead),[]) := by
  obtain ⟨A,x,B,found,position,price',shape⟩ := findOrCreateLevel_spec (p := price) (inv.sorted side)
  have unused := (inv.pool.freeHead_free free).2
  have add : book.addLimit orderId traderId side price qty =
      ({ orderId := orderId, qtyRemaining := qty, result := .accepted },
        book.rebuild side (A ++ (x.pushBack (book.orderPool.taken (Order.create orderId traderId side price qty))
            book.orderPool.freeHead).1 :: B)
          (x.pushBack (book.orderPool.taken (Order.create orderId traderId side price qty))
            book.orderPool.freeHead).2
          (book.orderMap.insert orderId book.orderPool.freeHead),[]) := by
    have matched := @matchOrder_beyond book ⟨orderId,traderId,side,price,false⟩ qty going beyond
    simp only [OrderBook.addLimit,OrderBook.addLimitInternal,if_neg fresh,matched,
      if_neg (Int.not_le.mpr going),ObjectPool.allocate_free _ _ free,if_neg free,found,position,
      getD_length_append,set_length_append,List.length_nil,sub_self]
    rfl
  rcases shape with old | ⟨rfl,old,_⟩
  · have member : x ∈ book.levels side := by simp [old]
    have ok := inv.levels side x member
    have nonempty := inv.nonempty side x member
    have apart : book.orderPool.freeHead ∉ x.chain book.orderPool := fun linked => by
      simp [ok.live _ linked] at unused
    refine ⟨A,x,B,x.chain book.orderPool,.inl ⟨old,by simpa [PriceLevel.empty] using nonempty.ne'⟩,
      price',by rw [ok.total,wrap64_wrap64],ok.queue.congr fun j linked => ?_,apart,add⟩
    have other : j ≠ book.orderPool.freeHead := fun same => apart (same ▸ linked)
    simp [SameLinks,other]
  · exact ⟨A,PriceLevel.new price,B,[],.inr ⟨rfl,old⟩,rfl,rfl,
      ⟨trivial,rfl,rfl,rfl,List.nodup_nil,List.not_mem_nil _⟩,List.not_mem_nil _,add⟩

/-- `cancel` of the id of an order just pushed at the back of a level: `remove` undoes the push,
the level is erased if the push made it, and the slot is freed. -/
theorem Wf.cancel_pushed {A B : List PriceLevel} {x : PriceLevel} {L : List Nat} {P : ObjectPool Order}
    {f k : Nat} {s : Side} {m : AList fun _ : Nat => Nat}
    (wf : Wf (book.rebuild s (A ++ (x.pushBack P f).1 :: B) (x.pushBack P f).2 (m.insert k f)))
    (queue : Queue P x L) (apart : f ∉ L) (ranged : wrap64 x.totalQty = x.totalQty) (side : (P.getObject f).side = s)
    (price : (P.getObject f).price = x.price) :
    (book.rebuild s (A ++ (x.pushBack P f).1 :: B) (x.pushBack P f).2 (m.insert k f)).cancel k =
      ({ orderId := k, qtyRemaining := (P.getObject f).qtyRemaining, result := .cancelled },
        book.rebuild s (if x.empty then A ++ B else A ++ x :: B)
          ((P.modifyObject f fun o => { o with prevIdx := invalidPoolIndex, nextIdx := invalidPoolIndex }).deallocate f)
          ((m.insert k f).erase k)) := by
  have relinked : Relinked P (x.pushBack P f).2 := pushBack_relinked
  have pushedSide : ((x.pushBack P f).2.getObject f).side = s := (relinked.side f).trans side
  have pushedPrice : (x.pushBack P f).1.price = ((x.pushBack P f).2.getObject f).price := by
    rw [pushBack_price,relinked.price f,price]
  have removed := removeOrderInternal_eq wf (by rw [rebuild_orderPool,pushedSide,rebuild_levels])
    pushedPrice
  simp only [rebuild_orderPool,pushedSide,pushBack_remove queue apart ranged,rebuild_rebuild,rebuild_orderMap] at removed
  simp only [OrderBook.cancel,rebuild_orderMap,AList.lookup_insert,removed,rebuild_orderPool,
    relinked.qtyRemaining]
  rfl

/-- Add-then-cancel round trip. On a reachable book with a free slot, a limit order with a
fresh id, a positive quantity and a price that crosses no opposite level is accepted without
a trade, and cancelling its id returns its quantity and gives back the book it was added to:
the same levels with the same queues and totals, the same index, the same freelist, size and
counters. Only the slot it used keeps the bytes of the cancelled order. -/
theorem add_cancel_round_trip (reach : Reachable book) (orderId traderId : Nat) (side : Side)
    (price qty : Int) (room : book.orderPool.full = false) (fresh : orderId ∉ book.orderMap)
    (positive : 0 < qty)
    (noCross : (side = .buy → ∀ y ∈ book.asks, price < y.price) ∧
      (side = .sell → ∀ y ∈ book.bids, y.price < price)) :
    (book.addLimit orderId traderId side price qty).1.result = .accepted ∧
    (book.addLimit orderId traderId side price qty).2.2 = [] ∧
    ((book.addLimit orderId traderId side price qty).2.1.cancel orderId).1.result = .cancelled ∧
    ((book.addLimit orderId traderId side price qty).2.1.cancel orderId).1.qtyRemaining = qty ∧
    ((book.addLimit orderId traderId side price qty).2.1.cancel orderId).2 =
      { book with orderPool := { book.orderPool with storage := (Function.update book.orderPool.storage
          book.orderPool.freeHead { book.orderPool.storage book.orderPool.freeHead with
            storage := Order.create orderId traderId side price qty }) } } := by
  have inv := reach.inv
  have free : book.orderPool.freeHead ≠ invalidPoolIndex := by simpa [ObjectPool.full] using room
  have beyond : ∀ y ∈ book.levels (opposite side),
      beyondLimit ⟨orderId,traderId,side,price,false⟩ y = true := by
    cases side
    · simpa [beyondLimit,opposite,levels] using noCross.1 rfl
    · simpa [beyondLimit,opposite,levels] using noCross.2 rfl
  obtain ⟨A,x,B,L,shape,price',ranged,queue,apart,add⟩ := inv.addLimit_resting fresh free positive beyond
  have wf := (inv.addLimitInternal orderId traderId side price qty).toWf
  rw [show book.addLimitInternal orderId traderId side price qty =
    book.addLimit orderId traderId side price qty from rfl,add] at wf
  have cancelled := wf.cancel_pushed queue apart ranged (by simp [Order.create]) (by simp [Order.create,price'])
  have levels : (if x.empty then A ++ B else A ++ x :: B) = book.levels side := by
    rcases shape with ⟨old,kept⟩ | ⟨rfl,old⟩
    · simp [kept,old]
    · simp [old,PriceLevel.empty,PriceLevel.new]
  rw [add]
  refine ⟨rfl,rfl,?_⟩
  rw [cancelled]
  refine ⟨rfl,by simp [Order.create],?_⟩
  simp only [levels,ObjectPool.deallocate_taken _ _ _ (inv.pool.freeHead_free free).2,
    erase_insert_fresh fresh,rebuild_levels_self]
  rfl

theorem round_trip_on_one_bid :
    Reachable ((OrderBook.new 4).addLimit 1 0 .buy 100 10).2.1 ∧
      ((OrderBook.new 4).addLimit 1 0 .buy 100 10).2.1.orderPool.full = false ∧
      2 ∉ ((OrderBook.new 4).addLimit 1 0 .buy 100 10).2.1.orderMap ∧ (0 : Int) < 5 ∧
      ((Side.sell = .buy → ∀ y ∈ ((OrderBook.new 4).addLimit 1 0 .buy 100 10).2.1.asks, 101 < y.price) ∧
        (Side.sell = .sell → ∀ y ∈ ((OrderBook.new 4).addLimit 1 0 .buy 100 10).2.1.bids, y.price < 101)) ∧
      ((((OrderBook.new 4).addLimit 1 0 .buy 100 10).2.1.addLimit 2 1 .sell 101 5).2.1.cancel 2).1.qtyRemaining
        = 5 :=
  have reach : Reachable ((OrderBook.new 4).addLimit 1 0 .buy 100 10).2.1 := .addLimit 1 0 .buy 100 10 (.new 4)
  have room : ((OrderBook.new 4).addLimit 1 0 .buy 100 10).2.1.orderPool.full = false := by decide
  have fresh : 2 ∉ ((OrderBook.new 4).addLimit 1 0 .buy 100 10).2.1.orderMap := by decide
  have noCross : (Side.sell = .buy → ∀ y ∈ ((OrderBook.new 4).addLimit 1 0 .buy 100 10).2.1.asks, 101 < y.price) ∧
      (Side.sell = .sell → ∀ y ∈ ((OrderBook.new 4).addLimit 1 0 .buy 100 10).2.1.bids, y.price < 101) := by
    decide
  ⟨reach,room,fresh,by decide,noCross,
    (add_cancel_round_trip reach 2 1 .sell 101 5 room fresh (by decide) noCross).2.2.2.1⟩

end OrderBook

end ExchangeSim
