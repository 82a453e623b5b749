import ExchangeSim.Lob.Operations

/-! The states a book reaches from its constructor through its public calls. In all of them
the representation invariant holds and the pool holds exactly the indexed orders. -/
namespace ExchangeSim

namespace OrderBook

open PriceLevel

/-- The states reachable from `OrderBook(max_orders, ...)` by calls with any arguments. -/
inductive Reachable : OrderBook → Prop
  | new (maxOrders : UInt32) : Reachable (OrderBook.new maxOrders)
  | addLimit {book : OrderBook} (orderId traderId : Nat) (side : Side) (price qty : Int) :
      Reachable book → Reachable (book.addLimit orderId traderId side price qty).2.1
  | addMarket {book : OrderBook} (orderId traderId : Nat) (side : Side) (qty : Int) :
      Reachable book → Reachable (book.addMarket orderId traderId side qty).2.1
  | cancel {book : OrderBook} (orderId : Nat) : Reachable book → Reachable (book.cancel orderId).2
  | modify {book : OrderBook} (orderId : Nat) (newQty newPrice : Int) :
      Reachable book → Reachable (book.modify orderId newQty newPrice).2.1
  | clear {book : OrderBook} : Reachable book → Reachable book.clear

variable {book : OrderBook}

theorem Reachable.inv (reach : Reachable book) : Inv book := by
  induction reach with
  | new maxOrders => exact inv_new maxOrders
  | addLimit orderId traderId side price qty _ ih => exact ih.addLimitInternal orderId traderId side price qty
  | addMarket orderId traderId side qty _ ih => exact ih.addMarket orderId traderId side qty
  | cancel orderId _ ih => exact ih.cancel orderId
  | modify orderId newQty newPrice _ ih => exact ih.modify orderId newQty newPrice
  | clear _ ih => exact ih.clear

/-- A slot is live exactly when it is linked at some level. -/
theorem Wf.used_iff (wf : Wf book) (i : Nat) : book.orderPool.inUse i = true ↔ i ∈ book.linkedSlots :=
  ⟨wf.live i,fun linked => by
    obtain ⟨t,x,inSide,inChain⟩ := mem_linkedSlots.mp linked
    exact (wf.levels t x inSide).live i inChain⟩

/-- The pool's size counts the linked slots: they and the freelist make up its capacity. -/
theorem Wf.size_linked (wf : Wf book) : book.orderPool.size = book.linkedSlots.length := by
  obtain ⟨-,-,free,-,distinct,members,count⟩ := wf.pool
  have apart : ∀ i ∈ book.linkedSlots, i ∉ free := fun i linked inFree => by
    simpa [(wf.used_iff i).mpr linked] using ((members i).mp inFree).2
  have perm : (book.linkedSlots ++ free).Perm (List.range book.orderPool.capacity) := by
    refine (List.perm_ext_iff_of_nodup (List.nodup_append.mpr ⟨wf.distinct,distinct,apart⟩)
      (List.nodup_range _)).mpr fun i => ?_
    rw [List.mem_append,members,List.mem_range,← wf.used_iff]
    constructor
    · rintro (used | ⟨bound,_⟩)
      · exact wf.pool.lt_capacity used
      · exact bound
    · intro bound
      cases used : book.orderPool.inUse i
      · exact .inr ⟨bound,rfl⟩
      · exact .inl rfl
  have := perm.length_eq
  simp only [List.length_append,List.length_range] at this
  omega

/-- The index has one entry per linked slot. -/
theorem Wf.index_size (wf : Wf book) : book.orderMap.entries.length = book.linkedSlots.length := by
  have entry : ∀ {k j}, (⟨k,j⟩ : Σ _ : Nat, Nat) ∈ book.orderMap.entries →
      j ∈ book.linkedSlots ∧ (book.orderPool.getObject j).orderId = k :=
    fun inside => (wf.index _ _).mp (AList.mem_lookup_iff.mpr inside)
  have perm : (book.orderMap.entries.map Sigma.snd).Perm book.linkedSlots := by
    refine (List.perm_ext_iff_of_nodup ?_ wf.distinct).mpr fun i => ?_
    · refine List.Nodup.map_on (fun ⟨k,j⟩ inA ⟨k',j'⟩ inB same => ?_) book.orderMap.nodupKeys.nodup
      simp only at same
      subst same
      rw [← (entry inA).2,← (entry inB).2]
    · simp only [List.mem_map]
      constructor
      · rintro ⟨⟨k,j⟩,inside,rfl⟩
        exact (entry inside).1
      · intro linked
        exact ⟨⟨_,i⟩,AList.mem_lookup_iff.mp ((wf.index _ i).mpr ⟨linked,rfl⟩),rfl⟩
  simpa using perm.length_eq

/-- In every reachable state the representation invariant holds, and the pool holds as many
orders as the index. -/
theorem reachable_representation (reach : Reachable book) :
    Inv book ∧ book.orderPool.size = book.orderMap.entries.length := by
  have inv := reach.inv
  exact ⟨inv,inv.size_linked.trans inv.index_size.symm⟩

theorem representation_after_add :
    Inv ((OrderBook.new 4).addLimit 1 0 .buy 100 10).2.1 ∧
      ((OrderBook.new 4).addLimit 1 0 .buy 100 10).2.1.orderPool.size =
        ((OrderBook.new 4).addLimit 1 0 .buy 100 10).2.1.orderMap.entries.length :=
  reachable_representation (.addLimit 1 0 .buy 100 10 (.new 4))

/-- Two bids at one price whose quantities add up past `INT64_MAX`: the level's `int64_t`
`total_qty` wraps to `INT64_MIN` and is not the sum over its chain. -/
theorem total_qty_wraps :
    ∃ book, Reachable book ∧ ∃ level ∈ book.bids, level.totalQty = -9223372036854775808 ∧
      ((level.chain book.orderPool).map fun i => (book.orderPool.getObject i).qtyRemaining).sum = 9223372036854775808 :=
  ⟨_,.addLimit 2 1 .buy 100 1 (.addLimit 1 0 .buy 100 9223372036854775807 (.new 4)),by decide⟩

end OrderBook

end ExchangeSim
