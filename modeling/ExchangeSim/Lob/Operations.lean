import ExchangeSim.Lob.Matching

/-! Every public call of `OrderBook` keeps the representation invariant `Inv`. `cancel` and
the re-adding paths of `modify` unlink one indexed order, the in-place path of `modify`
changes one quantity, and `add_limit_internal` links at most one order after the sweep. -/
namespace ExchangeSim

namespace OrderBook

open PriceLevel

variable {book book' : OrderBook} {s : Side} {A B : List PriceLevel} {x : PriceLevel} {i k : Nat}

theorem Inv.congr (inv : Inv book) (same : book'.orderPool = book.orderPool ∧
    book'.orderMap = book.orderMap ∧ book'.bids = book.bids ∧ book'.asks = book.asks) :
    Inv book' := by
  refine ⟨inv.toWf.congr same,fun t y member => ?_⟩
  obtain ⟨-,-,bids,asks⟩ := same
  cases t
  · exact inv.nonempty .buy y (show y ∈ book.bids by rw [← bids]; exact member)
  · exact inv.nonempty .sell y (show y ∈ book.asks by rw [← asks]; exact member)

/-- A well-formed book whose side `s` holds old or non-empty levels, the other side being
unchanged. -/
theorem Inv.of_wf (wf : Wf book') (inv : Inv book) (s : Side)
    (other : book'.levels (opposite s) = book.levels (opposite s))
    (side : ∀ y ∈ book'.levels s, y ∈ book.levels s ∨ 0 < y.orderCount) : Inv book' := by
  refine ⟨wf,fun t y member => ?_⟩
  rcases levels_cases s t with rfl | rfl
  · exact (side y member).elim (inv.nonempty t y) id
  · exact inv.nonempty _ y (other ▸ member)

/-- An indexed order is linked at a level of its own side and price. -/
theorem Wf.locate (wf : Wf book) (found : book.orderMap.lookup k = some i) :
    ∃ A x B, book.levels (book.orderPool.getObject i).side = A ++ x :: B ∧
      i ∈ x.chain book.orderPool ∧ x.price = (book.orderPool.getObject i).price := by
  obtain ⟨t,x,inSide,inChain⟩ := mem_linkedSlots.mp ((wf.index k i).mp found).1
  have ok := wf.levels t x inSide
  obtain ⟨A,B,position⟩ := List.append_of_mem inSide
  exact ⟨A,x,B,by rw [ok.side i inChain]; exact position,inChain,(ok.price i inChain).symm⟩

theorem removeLevelIfEmpty_position (A B : List PriceLevel) (x : PriceLevel) :
    removeLevelIfEmpty (A ++ x :: B) A.length = if x.empty then A ++ B else A ++ x :: B := by
  simp only [removeLevelIfEmpty,getElem?_length_append,List.head?_cons]
  split_ifs <;> simp [eraseIdx_length_append]

/-- `remove_order_internal` of a linked order: its level loses it and is erased if emptied,
and its slot is freed. -/
theorem removeOrderInternal_eq (wf : Wf book)
    (position : book.levels (book.orderPool.getObject i).side = A ++ x :: B)
    (price : x.price = (book.orderPool.getObject i).price) :
    book.removeOrderInternal i = book.rebuild (book.orderPool.getObject i).side
      (if (x.remove book.orderPool i).1.empty then A ++ B else A ++ (x.remove book.orderPool i).1 :: B)
      ((x.remove book.orderPool i).2.deallocate i) book.orderMap := by
  have sorted := wf.sorted (book.orderPool.getObject i).side
  rw [position] at sorted
  simp only [removeOrderInternal,position,← price,findLevel_position sorted,getD_length_append,
    set_length_append,removeLevelIfEmpty_position]
  simp [rebuild]

/-- Unlinking the order indexed by `k` and erasing `k`, as `cancel` does. -/
theorem Inv.removeOrder (inv : Inv book) (found : book.orderMap.lookup k = some i) :
    Inv { book.removeOrderInternal i with orderMap := (book.removeOrderInternal i).orderMap.erase k } := by
  obtain ⟨A,x,B,position,member,price⟩ := inv.locate found
  have wf := inv.removeSlot position member
  rw [((inv.index k i).mp found).2] at wf
  rw [removeOrderInternal_eq inv.toWf position price]
  show Inv (book.rebuild _ _ _ (book.orderMap.erase k))
  split_ifs with gone
  · have erased := wf.eraseEmpty (rebuild_levels _ _ _ _ _) (by simpa [PriceLevel.empty] using gone)
    rw [setLevels_rebuild] at erased
    refine Inv.of_wf erased inv (book.orderPool.getObject i).side (by simp) fun y member => .inl ?_
    rw [position]
    simp only [rebuild_levels,List.mem_append,List.mem_cons] at member ⊢
    exact member.imp_right .inr
  · refine Inv.of_wf wf inv (book.orderPool.getObject i).side (by simp) fun y member => ?_
    simp only [rebuild_levels,List.mem_append,List.mem_cons] at member
    rcases member with inA | rfl | inB
    · exact .inl (by simp [position,inA])
    · exact .inr (PriceLevel.not_empty.mp (by simpa using gone))
    · exact .inl (by simp [position,inB])

theorem Inv.cancel (inv : Inv book) (orderId : Nat) : Inv (book.cancel orderId).2 := by
  unfold OrderBook.cancel
  split
  · exact inv
  · exact inv.removeOrder ‹_›

theorem Inv.matched (inv : Inv book) (taker : Taker) (qty : Int) : Inv (book.matchOrder taker qty).1 :=
  (matchOrder_induct taker (fun _ => True) (fun _ _ _ _ _ _ _ => trivial) inv qty trivial).1

/-- The sweep of `match_order` only erases ids from the index. -/
theorem Inv.matchOrder_fresh (inv : Inv book) (taker : Taker) (qty : Int) {k : Nat}
    (fresh : k ∉ book.orderMap) : k ∉ (book.matchOrder taker qty).1.orderMap := by
  have := (matchOrder_induct taker (fun sweep => k ∉ sweep.book.orderMap)
    (fun _ _ _ _ _ _ fresh member => fresh (fillFront_orderMap member)) inv qty fresh).2
  simpa [OrderBook.matchOrder] using this

/-- `add_limit_internal` keeps the invariant: the sweep keeps it, and the remainder joins
the level of its price, created where the side stays sorted if there was none. -/
theorem Inv.addLimitInternal (inv : Inv book) (orderId traderId : Nat) (side : Side)
    (price qty : Int) : Inv (book.addLimitInternal orderId traderId side price qty).2.1 := by
  unfold OrderBook.addLimitInternal
  by_cases dup : orderId ∈ book.orderMap
  · rw [if_pos dup]; exact inv
  rw [if_neg dup]
  have inv₁ := inv.matched ⟨orderId,traderId,side,price,false⟩ qty
  have fresh := inv.matchOrder_fresh ⟨orderId,traderId,side,price,false⟩ qty dup
  generalize book.matchOrder ⟨orderId,traderId,side,price,false⟩ qty = matched at inv₁ fresh ⊢
  obtain ⟨M,remaining,trades⟩ := matched
  dsimp only at inv₁ fresh ⊢
  by_cases spent : remaining ≤ 0
  · rw [if_pos spent]; exact inv₁
  rw [if_neg spent]
  by_cases full : M.orderPool.freeHead = invalidPoolIndex
  · simp only [ObjectPool.allocate_full _ _ full,if_true]; exact inv₁
  simp only [ObjectPool.allocate_free _ _ full,if_neg full]
  obtain ⟨A,y,B,found,position,price',shape⟩ := findOrCreateLevel_spec (p := price) (inv₁.sorted side)
  rw [found,position,getD_length_append,set_length_append]
  show Inv (M.rebuild side _ _ _)
  have order : (Order.create orderId traderId side price remaining).side = side := rfl
  rcases shape with old | ⟨rfl,old,sorted⟩
  · refine Inv.of_wf (inv₁.pushSlot old full order price'.symm fresh) inv₁ side (by simp)
      fun z member => ?_
    simp only [rebuild_levels,List.mem_append,List.mem_cons] at member
    rcases member with inA | rfl | inB
    · exact .inl (by simp [old,inA])
    · exact .inr (Nat.succ_pos _)
    · exact .inl (by simp [old,inB])
  · have wf := (inv₁.insertEmpty old price sorted).pushSlot (levels_setLevels _ _ _)
      (by simpa using full) order rfl (by simpa using fresh)
    simp only [setLevels_orderPool,setLevels_orderMap,rebuild_setLevels] at wf
    refine Inv.of_wf wf inv₁ side (by simp) fun z member => ?_
    simp only [rebuild_levels,List.mem_append,List.mem_cons] at member
    rcases member with inA | rfl | inB
    · exact .inl (by simp [old,inA])
    · exact .inr (Nat.succ_pos _)
    · exact .inl (by simp [old,inB])

theorem Inv.addMarket (inv : Inv book) (orderId traderId : Nat) (side : Side) (qty : Int) :
    Inv (book.addMarket orderId traderId side qty).2.1 :=
  inv.matched _ qty

/-- `modify`: a price change or a size increase unlinks and re-adds, a size decrease changes
the quantity in place. -/
theorem Inv.modify (inv : Inv book) (orderId : Nat) (newQty newPrice : Int) :
    Inv (book.modify orderId newQty newPrice).2.1 := by
  unfold OrderBook.modify
  split
  · exact inv
  · rename_i i found
    dsimp only
    split_ifs with reprice shrink
    · exact (inv.removeOrder found).addLimitInternal _ _ _ _ _
    · obtain ⟨A,x,B,position,member,price⟩ := inv.locate found
      have sorted := inv.sorted (book.orderPool.getObject i).side
      rw [position] at sorted
      rw [position,← price,findLevel_position sorted]
      simp only [getD_length_append,set_length_append]
      have lowered : wrap64 ((book.orderPool.getObject i).qtyRemaining -
          wrap64 ((book.orderPool.getObject i).qtyRemaining - newQty)) = wrap64 newQty := by
        unfold wrap64; omega
      refine (Inv.of_wf (inv.setQty position member _ newQty lowered) inv (book.orderPool.getObject i).side
        (by simp) fun z inside => ?_).congr ⟨rfl,by simp,rfl,rfl⟩
      simp only [rebuild_levels,List.mem_append,List.mem_cons] at inside
      rcases inside with inA | rfl | inB
      · exact .inl (by simp [position,inA])
      · exact .inr (inv.nonempty (book.orderPool.getObject i).side x (by simp [position]))
      · exact .inl (by simp [position,inB])
    · exact (inv.removeOrder found).addLimitInternal _ _ _ _ _

/-- The in-place path of `modify` takes any smaller quantity, zero included: the order
stays linked with nothing left, and a later sweep fills it with a trade of quantity zero. -/
theorem modify_to_zero_keeps_order :
    (((OrderBook.new 10).addLimit 1 0 .buy 100 10).2.1.modify 1 0 0).1.result = .modified ∧
      (((OrderBook.new 10).addLimit 1 0 .buy 100 10).2.1.modify 1 0 0).2.1.hasOrder 1 = true ∧
      ((((OrderBook.new 10).addLimit 1 0 .buy 100 10).2.1.modify 1 0 0).2.1.orderPool.getObject
        0).qtyRemaining = 0 ∧
      ((((OrderBook.new 10).addLimit 1 0 .buy 100 10).2.1.modify 1 0 0).2.1.addMarket 2 1 .sell
        5).2.2 = [⟨1,2,0,1,100,0,.sell⟩] := by
  decide

/-- A book over a pool with no live slot, no index entry and no level. -/
theorem inv_empty {pool : ObjectPool Order} (valid : pool.Valid) (unused : ∀ i, pool.inUse i = false)
    (trades volume : BitVec 64) : Inv ⟨pool,∅,[],[],trades,volume⟩ where
  pool := valid
  sorted t := by cases t <;> exact List.Pairwise.nil
  levels t := by cases t <;> simp [levels]
  distinct := by simp [linkedSlots,sideSlots]
  live i used := by simp [unused i] at used
  index k i := by simp [AList.lookup_empty,linkedSlots,sideSlots]
  nonempty t := by cases t <;> simp [levels]

theorem inv_new (maxOrders : UInt32) : Inv (OrderBook.new maxOrders) :=
  inv_empty (ObjectPool.valid_new maxOrders) (fun _ => rfl) 0 0

theorem Inv.clear (inv : Inv book) : Inv book.clear :=
  inv_empty inv.pool.clear inv.pool.inUse_clear 0 0

end OrderBook

end ExchangeSim
