import ExchangeSim.Lob.Reachable

/-! A rejected call leaves the book as it was. `add_limit_internal` rejects a duplicate id
before touching anything, and it rejects for a full pool only after a sweep that traded
nothing: a fill that leaves the taker with quantity has emptied its maker, whose slot is
then free. `modify` never rejects: the order it unlinks frees a slot for its re-add. -/
namespace ExchangeSim

namespace OrderBook

open PriceLevel

variable {book : OrderBook} {i k : Nat}

/-- A sweep that traded and still has quantity has freed a slot. -/
theorem Inv.free_after_trade (inv : Inv book) (taker : Taker) (qty : Int)
    (going : 0 < (book.matchOrder taker qty).2.1) (traded : (book.matchOrder taker qty).2.2 ≠ []) :
    (book.matchOrder taker qty).1.orderPool.freeHead ≠ invalidPoolIndex := by
  have := (matchOrder_induct taker
    (fun sweep => 0 < sweep.remaining → sweep.trades ≠ [] →
      sweep.book.orderPool.freeHead ≠ invalidPoolIndex)
    (fun _ _ _ _ wf nonempty _ going _ => fillFront_freeHead wf nonempty (.inl going)) inv qty
    (fun _ none => absurd rfl none)).2
  simp only [OrderBook.matchOrder,setLevels_orderPool] at going traded ⊢
  exact this going traded

/-- The sweep never takes the last free slot. -/
theorem Inv.free_matched (inv : Inv book) (taker : Taker) (qty : Int)
    (free : book.orderPool.freeHead ≠ invalidPoolIndex) :
    (book.matchOrder taker qty).1.orderPool.freeHead ≠ invalidPoolIndex := by
  have := (matchOrder_induct taker (fun sweep => sweep.book.orderPool.freeHead ≠ invalidPoolIndex)
    (fun _ _ _ _ wf nonempty free => fillFront_freeHead wf nonempty (.inr free)) inv qty free).2
  simpa [OrderBook.matchOrder] using this

/-- A sweep without a trade leaves the book as it was. -/
theorem Inv.matched_no_trade (inv : Inv book) (taker : Taker) (qty : Int)
    (none : (book.matchOrder taker qty).2.2 = []) : (book.matchOrder taker qty).1 = book := by
  have lengths : (sweepLevels taker (book.levels (opposite taker.side)) ⟨book,qty,[]⟩).2.trades.length =
      (⟨book,qty,[]⟩ : Sweep).trades.length := by
    simpa [OrderBook.matchOrder] using none
  simp [OrderBook.matchOrder,sweepLevels_no_trade taker (inv.nonempty _) lengths]

theorem Inv.addLimitInternal_rejected (inv : Inv book) (orderId traderId : Nat) (side : Side)
    (price qty : Int)
    (rejected : (book.addLimitInternal orderId traderId side price qty).1.result = .rejected) :
    (book.addLimitInternal orderId traderId side price qty).2 = (book,[]) := by
  revert rejected
  unfold OrderBook.addLimitInternal
  by_cases dup : orderId ∈ book.orderMap
  · rw [if_pos dup]; exact fun _ => rfl
  rw [if_neg dup]
  have traded := inv.free_after_trade ⟨orderId,traderId,side,price,false⟩ qty
  have still := inv.matched_no_trade ⟨orderId,traderId,side,price,false⟩ qty
  generalize book.matchOrder ⟨orderId,traderId,side,price,false⟩ qty = matched at traded still ⊢
  obtain ⟨M,remaining,trades⟩ := matched
  dsimp only at traded still ⊢
  by_cases spent : remaining ≤ 0
  · rw [if_pos spent]; simp
  rw [if_neg spent]
  by_cases full : M.orderPool.freeHead = invalidPoolIndex
  · simp only [ObjectPool.allocate_full _ _ full,if_true]
    have none : trades = [] := by
      by_contra traded'
      exact traded (by omega) traded' full
    subst none
    intro _
    rw [← still rfl]
  · simp only [ObjectPool.allocate_free _ _ full,if_neg full]
    split_ifs <;> simp

/-- `add_limit_internal` on a book with a free slot and a fresh id never rejects. -/
theorem Inv.addLimitInternal_accepts (inv : Inv book) {orderId : Nat} (fresh : orderId ∉ book.orderMap)
    (free : book.orderPool.freeHead ≠ invalidPoolIndex) (traderId : Nat) (side : Side)
    (price qty : Int) : (book.addLimitInternal orderId traderId side price qty).1.result ≠ .rejected := by
  unfold OrderBook.addLimitInternal
  rw [if_neg fresh]
  have free' := inv.free_matched ⟨orderId,traderId,side,price,false⟩ qty free
  generalize book.matchOrder ⟨orderId,traderId,side,price,false⟩ qty = matched at free' ⊢
  obtain ⟨M,remaining,trades⟩ := matched
  dsimp only at free' ⊢
  split_ifs <;> simp_all [ObjectPool.allocate_free _ _ free']

/-- The order `cancel` and `modify` unlink frees its slot, which heads the freelist. -/
theorem Inv.removeOrder_free (inv : Inv book) (found : book.orderMap.lookup k = some i) :
    (book.removeOrderInternal i).orderPool.freeHead ≠ invalidPoolIndex := by
  obtain ⟨A,x,B,position,member,price⟩ := inv.locate found
  rw [removeOrderInternal_eq inv.toWf position price]
  simp only [rebuild_orderPool,ObjectPool.deallocate_freeHead]
  exact inv.pool.ne_invalid ((inv.levels _ x (by rw [position]; simp)).live i member)

theorem Inv.modify_accepts (inv : Inv book) (orderId : Nat) (newQty newPrice : Int) :
    (book.modify orderId newQty newPrice).1.result ≠ .rejected := by
  unfold OrderBook.modify
  split
  · simp
  · rename_i i found
    dsimp only
    have readd : ∀ price, (OrderBook.addLimitInternal
        { book.removeOrderInternal i with orderMap := (book.removeOrderInternal i).orderMap.erase orderId }
        orderId (book.orderPool.getObject i).traderId (book.orderPool.getObject i).side price
          newQty).1.result ≠ .rejected := fun price =>
      (inv.removeOrder found).addLimitInternal_accepts (by simp [AList.mem_erase])
        (inv.removeOrder_free found) _ _ _ _
    split_ifs
    · exact readd newPrice
    · simp
    · exact readd _

/-- In every reachable state a rejected `add_limit` returns the book unchanged and emitted no
trade, and `modify` is never rejected. -/
theorem reachable_rejection (reach : Reachable book) :
    (∀ orderId traderId side price qty,
      (book.addLimit orderId traderId side price qty).1.result = .rejected →
        (book.addLimit orderId traderId side price qty).2 = (book,[])) ∧
    ∀ orderId newQty newPrice, (book.modify orderId newQty newPrice).1.result ≠ .rejected :=
  ⟨reach.inv.addLimitInternal_rejected,reach.inv.modify_accepts⟩

theorem rejection_after_add :
    (∀ orderId traderId side price qty,
      (((OrderBook.new 1).addLimit 1 0 .buy 100 10).2.1.addLimit orderId traderId side price
        qty).1.result = .rejected →
        (((OrderBook.new 1).addLimit 1 0 .buy 100 10).2.1.addLimit orderId traderId side price qty).2 =
          (((OrderBook.new 1).addLimit 1 0 .buy 100 10).2.1,[])) ∧
    ∀ orderId newQty newPrice,
      (((OrderBook.new 1).addLimit 1 0 .buy 100 10).2.1.modify orderId newQty newPrice).1.result ≠
        .rejected :=
  reachable_rejection (.addLimit 1 0 .buy 100 10 (.new 1))

end OrderBook

end ExchangeSim
