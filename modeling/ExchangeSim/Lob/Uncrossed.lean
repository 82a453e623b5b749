import ExchangeSim.Lob.Reachable

/-! The book is never crossed: every bid level is priced below every ask level. The sweep
only takes levels off the opposite side, unlinking and shrinking orders keep prices, and
`add_limit_internal` rests a remainder only when its sweep stopped at a level beyond the
limit, so the new level lies on its own side of every opposite level. -/
namespace ExchangeSim

namespace OrderBook

open PriceLevel

/-- Every bid level is priced below every ask level. -/
def Uncrossed (book : OrderBook) : Prop :=
  ∀ x ∈ book.levels .buy, ∀ y ∈ book.levels .sell, x.price < y.price

variable {book book' : OrderBook} {i k : Nat}

theorem uncrossed_iff (s : Side) : Uncrossed book ↔
    ∀ x ∈ book.levels s, ∀ y ∈ book.levels (opposite s), better (opposite s) x.price y.price := by
  cases s
  · rfl
  · exact ⟨fun u x inX y inY => u y inY x inX,fun u x inX y inY => u y inY x inX⟩

/-- Side `s` keeps old prices or gains prices on its own side of every opposite level; the
opposite side keeps old prices. -/
theorem Uncrossed.step (u : Uncrossed book) (s : Side)
    (side : ∀ x ∈ book'.levels s, (∃ x₀ ∈ book.levels s, x₀.price = x.price) ∨
      ∀ y ∈ book.levels (opposite s), better (opposite s) x.price y.price)
    (other : ∀ y ∈ book'.levels (opposite s), ∃ y₀ ∈ book.levels (opposite s), y₀.price = y.price) :
    Uncrossed book' := by
  rw [uncrossed_iff s] at u ⊢
  intro x inX y inY
  obtain ⟨y₀,inY₀,same⟩ := other y inY
  rw [← same]
  rcases side x inX with ⟨x₀,inX₀,same⟩ | apart
  · exact same ▸ u x₀ inX₀ y₀ inY₀
  · exact apart y₀ inY₀

theorem Uncrossed.matchOrder (u : Uncrossed book) (taker : Taker) (qty : Int) :
    Uncrossed (book.matchOrder taker qty).1 := by
  refine u.step (opposite taker.side) (fun x inX => .inl ?_) fun y inY => ⟨y,by simpa using inY,rfl⟩
  rw [matchOrder_levels] at inX
  simpa using (sweepLevels_prices taker _ _).subset (List.mem_map_of_mem PriceLevel.price inX)

theorem beyondLimit_iff {taker : Taker} (limit : taker.isMarket = false) (level : PriceLevel) :
    beyondLimit taker level = true ↔ better (opposite taker.side) taker.price level.price := by
  cases side : taker.side <;> simp [beyondLimit,limit,side,better,opposite]

/-- After the sweep of a limit order with quantity left, every opposite level lies beyond the
limit. -/
theorem Inv.beyond_matched (inv : Inv book) {taker : Taker} (limit : taker.isMarket = false)
    (qty : Int) (going : 0 < (book.matchOrder taker qty).2.1) :
    ∀ y ∈ (book.matchOrder taker qty).1.levels (opposite taker.side),
      better (opposite taker.side) taker.price y.price := by
  have sorted := (inv.matched taker qty).sorted (opposite taker.side)
  have head := sweepLevels_beyond taker _ _ (by simpa [OrderBook.matchOrder] using going)
  rw [matchOrder_levels] at sorted ⊢
  revert sorted head
  cases (sweepLevels taker (book.levels (opposite taker.side)) ⟨book,qty,[]⟩).1 with
  | nil => simp
  | cons z rest =>
    intro sorted head
    have first := (beyondLimit_iff limit z).mp (head z rfl)
    rintro y (_ | ⟨_,inRest⟩)
    · exact first
    · exact better_trans first (List.rel_of_pairwise_cons sorted inRest)

theorem Uncrossed.removeOrder (u : Uncrossed book) (inv : Inv book)
    (found : book.orderMap.lookup k = some i) :
    Uncrossed { book.removeOrderInternal i with orderMap := (book.removeOrderInternal i).orderMap.erase k } := by
  obtain ⟨A,x,B,position,member,price⟩ := inv.locate found
  rw [removeOrderInternal_eq inv.toWf position price]
  show Uncrossed (book.rebuild _ _ _ _)
  refine u.step (book.orderPool.getObject i).side (fun z inZ => .inl ?_)
    fun y inY => ⟨y,by simpa using inY,rfl⟩
  rw [rebuild_levels] at inZ
  rw [position]
  split_ifs at inZ
  · exact ⟨z,by simp only [List.mem_append,List.mem_cons] at inZ ⊢; exact inZ.imp_right .inr,rfl⟩
  · simp only [List.mem_append,List.mem_cons] at inZ
    rcases inZ with inA | rfl | inB
    · exact ⟨z,by simp [inA],rfl⟩
    · exact ⟨x,by simp,by simp⟩
    · exact ⟨z,by simp [inB],rfl⟩

theorem Uncrossed.cancel (u : Uncrossed book) (inv : Inv book) (orderId : Nat) :
    Uncrossed (book.cancel orderId).2 := by
  unfold OrderBook.cancel
  split
  · exact u
  · exact u.removeOrder inv ‹_›

theorem Uncrossed.addLimitInternal (u : Uncrossed book) (inv : Inv book) (orderId traderId : Nat)
    (side : Side) (price qty : Int) :
    Uncrossed (book.addLimitInternal orderId traderId side price qty).2.1 := by
  unfold OrderBook.addLimitInternal
  by_cases dup : orderId ∈ book.orderMap
  · rw [if_pos dup]; exact u
  rw [if_neg dup]
  have inv₁ := inv.matched ⟨orderId,traderId,side,price,false⟩ qty
  have u₁ := u.matchOrder ⟨orderId,traderId,side,price,false⟩ qty
  have apart := inv.beyond_matched
    (show (⟨orderId,traderId,side,price,false⟩ : Taker).isMarket = false from rfl) qty
  generalize book.matchOrder ⟨orderId,traderId,side,price,false⟩ qty = matched at inv₁ u₁ apart ⊢
  obtain ⟨M,remaining,trades⟩ := matched
  dsimp only at inv₁ u₁ apart ⊢
  by_cases spent : remaining ≤ 0
  · rw [if_pos spent]; exact u₁
  rw [if_neg spent]
  by_cases full : M.orderPool.freeHead = invalidPoolIndex
  · simp only [ObjectPool.allocate_full _ _ full,if_true]; exact u₁
  simp only [ObjectPool.allocate_free _ _ full,if_neg full]
  obtain ⟨A,y,B,found,position,price',shape⟩ := findOrCreateLevel_spec (p := price) (inv₁.sorted side)
  rw [found,position,getD_length_append,set_length_append]
  show Uncrossed (M.rebuild side _ _ _)
  have old : ∀ z, z ∈ A ∨ z ∈ B → z ∈ M.levels side := by
    rcases shape with old | ⟨-,old,-⟩ <;> rw [old] <;> intro z inside
    · exact List.mem_append.mpr (inside.imp_right (List.mem_cons_of_mem y))
    · exact List.mem_append.mpr inside
  refine u₁.step side (fun z inZ => ?_) fun z inZ => ⟨z,by simpa using inZ,rfl⟩
  simp only [rebuild_levels,List.mem_append,List.mem_cons] at inZ
  rcases inZ with inA | rfl | inB
  · exact .inl ⟨z,old z (.inl inA),rfl⟩
  · exact .inr (by simpa [price'] using apart (by omega))
  · exact .inl ⟨z,old z (.inr inB),rfl⟩

theorem Uncrossed.modify (u : Uncrossed book) (inv : Inv book) (orderId : Nat) (newQty newPrice : Int) :
    Uncrossed (book.modify orderId newQty newPrice).2.1 := by
  unfold OrderBook.modify
  split
  · exact u
  · rename_i i found
    dsimp only
    split_ifs with reprice shrink
    · exact (u.removeOrder inv found).addLimitInternal (inv.removeOrder found) _ _ _ _ _
    · obtain ⟨A,x,B,position,member,price⟩ := inv.locate found
      have sorted := inv.sorted (book.orderPool.getObject i).side
      rw [position] at sorted
      rw [position,← price,findLevel_position sorted]
      simp only [getD_length_append,set_length_append]
      show Uncrossed (book.setLevels (book.orderPool.getObject i).side (A ++ _ :: B))
      refine u.step (book.orderPool.getObject i).side (fun z inZ => .inl ?_)
        fun y inY => ⟨y,by simpa using inY,rfl⟩
      simp only [levels_setLevels,List.mem_append,List.mem_cons] at inZ
      rw [position]
      rcases inZ with inA | rfl | inB
      · exact ⟨z,by simp [inA],rfl⟩
      · exact ⟨x,by simp,rfl⟩
      · exact ⟨z,by simp [inB],rfl⟩
    · exact (u.removeOrder inv found).addLimitInternal (inv.removeOrder found) _ _ _ _ _

theorem Reachable.uncrossed (reach : Reachable book) : Uncrossed book := by
  induction reach with
  | new maxOrders => intro x inX; simp [OrderBook.new,levels] at inX
  | addLimit orderId traderId side price qty reach ih =>
    exact ih.addLimitInternal reach.inv orderId traderId side price qty
  | addMarket orderId traderId side qty _ ih => exact ih.matchOrder _ qty
  | cancel orderId reach ih => exact ih.cancel reach.inv orderId
  | modify orderId newQty newPrice reach ih => exact ih.modify reach.inv orderId newQty newPrice
  | clear _ => intro x inX; simp [OrderBook.clear,levels] at inX

theorem bestBid_mem {b : Int} (best : book.bestBid = some b) : ∃ x ∈ book.levels .buy, x.price = b := by
  simp only [bestBid,Option.map_eq_some'] at best
  obtain ⟨x,found,rfl⟩ := best
  exact ⟨x,List.mem_of_find?_eq_some found,rfl⟩

theorem bestAsk_mem {a : Int} (best : book.bestAsk = some a) : ∃ x ∈ book.levels .sell, x.price = a := by
  simp only [bestAsk,Option.map_eq_some'] at best
  obtain ⟨x,found,rfl⟩ := best
  exact ⟨x,List.mem_of_find?_eq_some found,rfl⟩

/-- In every reachable state each bid level is priced below each ask level, so the best bid
is below the best ask. `spread()` subtracts them in `int64_t`: it is at least one tick
whenever the difference fits, and wraps otherwise. -/
theorem reachable_uncrossed (reach : Reachable book) :
    Uncrossed book ∧ (∀ b a, book.bestBid = some b → book.bestAsk = some a → b < a) ∧
      ∀ d, book.spread = some d → ∃ b a, book.bestBid = some b ∧ book.bestAsk = some a ∧ b < a ∧
        d = wrap64 (a - b) ∧ (a - b < 2^63 → 1 ≤ d) := by
  have u := reach.uncrossed
  have below : ∀ b a, book.bestBid = some b → book.bestAsk = some a → b < a := by
    intro b a bid ask
    obtain ⟨x,inX,rfl⟩ := bestBid_mem bid
    obtain ⟨y,inY,rfl⟩ := bestAsk_mem ask
    exact u x inX y inY
  refine ⟨u,below,fun d spread => ?_⟩
  unfold OrderBook.spread at spread
  split at spread
  · rename_i b a bid ask
    cases spread
    have less := below b a bid ask
    exact ⟨b,a,bid,ask,less,rfl,fun fits => by rw [wrap64_of_mem (by omega) fits]; omega⟩
  · simp at spread

theorem uncrossed_after_two_sides :
    Uncrossed (((OrderBook.new 4).addLimit 1 0 .buy 100 10).2.1.addLimit 2 1 .sell 101 5).2.1 ∧
      (∀ b a, (((OrderBook.new 4).addLimit 1 0 .buy 100 10).2.1.addLimit 2 1 .sell 101 5).2.1.bestBid =
          some b → (((OrderBook.new 4).addLimit 1 0 .buy 100 10).2.1.addLimit 2 1 .sell 101 5).2.1.bestAsk =
          some a → b < a) ∧
      ∀ d, (((OrderBook.new 4).addLimit 1 0 .buy 100 10).2.1.addLimit 2 1 .sell 101 5).2.1.spread = some d →
        ∃ b a, (((OrderBook.new 4).addLimit 1 0 .buy 100 10).2.1.addLimit 2 1 .sell 101 5).2.1.bestBid = some b ∧
          (((OrderBook.new 4).addLimit 1 0 .buy 100 10).2.1.addLimit 2 1 .sell 101 5).2.1.bestAsk = some a ∧
          b < a ∧ d = wrap64 (a - b) ∧ (a - b < 2^63 → 1 ≤ d) :=
  reachable_uncrossed (.addLimit 2 1 .sell 101 5 (.addLimit 1 0 .buy 100 10 (.new 4)))

/-- A bid at -1 and an ask at `INT64_MAX` are uncrossed, but `ask - bid` overflows and
`spread()` returns `INT64_MIN`. -/
theorem spread_overflows :
    (((OrderBook.new 4).addLimit 1 0 .buy (-1) 10).2.1.addLimit 2 1 .sell 9223372036854775807 5).2.1.spread =
      some (-9223372036854775808) := by
  decide

end OrderBook

end ExchangeSim
