import ExchangeSim.Lob.View

/-! `OrderBook` refines the abstract book of `Lob.Abstract`: on every well-formed book each
public call returns what the abstract call returns, reports the same trades, and leaves a
book whose abstraction is the abstract call's book. `add_market` checks no id, so an
id resting in the book can trade against itself. Over any sequence of calls from
`OrderBook(max_orders)` the outputs are those of the abstract book with `max_orders` slots. -/
namespace ExchangeSim

namespace OrderBook

open PriceLevel

variable {book : OrderBook} {s : Side} {A B : List PriceLevel} {x : PriceLevel} {i k : Nat}

/-- Ids are unique among linked orders. -/
theorem Wf.orderId_inj (wf : Wf book) {j : Nat} (linked : i ∈ book.linkedSlots) (linked' : j ∈ book.linkedSlots)
    (same : (book.orderPool.getObject j).orderId = (book.orderPool.getObject i).orderId) : j = i :=
  Option.some.inj (((wf.index _ j).mpr ⟨linked',same⟩).symm.trans ((wf.index _ i).mpr ⟨linked,rfl⟩))

theorem abstract_orders (book : OrderBook) :
    (abstract book).bids ++ (abstract book).asks = book.linkedSlots.map fun j => (book.orderPool.getObject j).resting := by
  simp [abstract,view,linkedSlots]

/-- No two resting orders share an id. -/
theorem Wf.abstract_ids (wf : Wf book) :
    (((abstract book).bids ++ (abstract book).asks).map Resting.orderId).Nodup := by
  rw [abstract_orders,List.map_map]
  exact wf.distinct.map_on fun i linked j linked' same => (wf.orderId_inj linked linked' same.symm).symm

/-- The abstract order of an id is the indexed one. -/
theorem Wf.find (wf : Wf book) (k : Nat) :
    (abstract book).find k = (book.orderMap.lookup k).map fun i => (book.orderPool.getObject i).resting := by
  rw [Book.find,abstract_orders,List.find?_map]
  cases found : book.orderMap.lookup k with
  | none =>
    refine Option.map_eq_none'.mpr (List.find?_eq_none.mpr fun j linked same => ?_)
    have := (wf.index k j).mpr ⟨linked,by simpa [Order.resting] using same⟩
    simp [found] at this
  | some i =>
    obtain ⟨linked,named⟩ := (wf.index k i).mp found
    cases first : book.linkedSlots.find? ((fun order : Resting => order.orderId == k) ∘ fun j =>
        (book.orderPool.getObject j).resting) with
    | none => exact absurd (List.find?_eq_none.mp first i linked) (by simp [Order.resting,named])
    | some j =>
      have same : (book.orderPool.getObject j).orderId = k := by simpa [Order.resting] using List.find?_some first
      rw [wf.orderId_inj linked (List.mem_of_find?_eq_some first) (same.trans named.symm)]

theorem Wf.mem_orderMap (wf : Wf book) (k : Nat) : k ∈ book.orderMap ↔ ((abstract book).find k).isSome := by
  rw [wf.find,Option.isSome_map',AList.lookup_isSome]

/-- `abstract` does not read the index. -/
@[simp] theorem abstract_orderMap (book : OrderBook) (orderMap : AList fun _ : Nat => Nat) :
    abstract { book with orderMap := orderMap } = abstract book := rfl

/-- The levels at `A ++ M ++ B` over a pool that agrees with the old one off the levels
replaced: only the middle of side `s` is read from the new pool. -/
theorem abstract_rebuild {pool : ObjectPool Order} (M : List PriceLevel) (orderMap : AList fun _ : Nat => Nat)
    (agrees : ∀ j ∈ book.others s A B, pool.getObject j = book.orderPool.getObject j)
    (capacity : pool.capacity = book.orderPool.capacity) :
    abstract (book.rebuild s (A ++ M ++ B) pool orderMap) =
      (abstract book).setSide s (view book.orderPool A ++ view pool M ++ view book.orderPool B) := by
  have frame : ∀ L : List PriceLevel, sideSlots book.orderPool L ⊆ book.others s A B →
      view pool L = view book.orderPool L := fun L sub => view_congr fun j member => agrees j (sub member)
  refine Book.ext_side s ?_ ?_ ?_
  · rw [abstract_side,rebuild_levels,rebuild_orderPool,view_append,view_append,
      frame A fun j member => by simp [others,member],frame B fun j member => by simp [others,member]]
    simp
  · rw [abstract_side,rebuild_levels_opposite,rebuild_orderPool,frame _ fun j member => by simp [others,member]]
    simp [abstract_side]
  · simp [abstract,capacity]

/-- Erasing a slot whose id is unique erases the first order of that id. -/
theorem map_erase_eq_eraseP {f : Nat → Resting} {S : List Nat} (named : (f i).orderId = k)
    (unique : ∀ j ∈ S, (f j).orderId = k → j = i) :
    (S.erase i).map f = (S.map f).eraseP fun order => order.orderId == k := by
  induction S with
  | nil => rfl
  | cons a S ih =>
    by_cases same : a = i
    · subst same
      simp [named]
    · have other : (f a).orderId ≠ k := fun named' => same (unique a (by simp) named')
      rw [List.erase_cons_tail (by simpa using same),List.map_cons,List.map_cons,
        List.eraseP_cons_of_neg (by simpa using other),ih fun j member => unique j (by simp [member])]

/-- `remove_order_internal` of the order indexed by `k`, seen abstractly: the side loses the
first order of id `k`, which is that order. -/
theorem Wf.abstract_removeOrder (wf : Wf book) (found : book.orderMap.lookup k = some i)
    (orderMap : AList fun _ : Nat => Nat) :
    abstract { book.removeOrderInternal i with orderMap := orderMap } =
      (abstract book).setSide (book.orderPool.getObject i).side
        (((abstract book).side (book.orderPool.getObject i).side).eraseP fun order => order.orderId == k) := by
  obtain ⟨A,x,B,position,member,price⟩ := wf.locate found
  have ok := wf.level_ok position
  have distinct := wf.split_nodup position
  have perm := linkedSlots_split position
  have queue := remove_queue ok.queue member
  have apart : ∀ j ∈ book.others _ A B, j ∉ x.chain book.orderPool := fun j inside mem =>
    List.disjoint_of_nodup_append distinct mem inside
  have shape : (if (x.remove book.orderPool i).1.empty then A ++ B else A ++ (x.remove book.orderPool i).1 :: B) =
      A ++ (if (x.remove book.orderPool i).1.empty then [] else [(x.remove book.orderPool i).1]) ++ B := by
    split_ifs <;> simp
  have middle : view ((x.remove book.orderPool i).2.deallocate i)
      (if (x.remove book.orderPool i).1.empty then [] else [(x.remove book.orderPool i).1]) =
      ((x.chain book.orderPool).erase i).map fun j => (book.orderPool.getObject j).resting := by
    split_ifs with emptied
    · have zero := queue.count
      simp only [PriceLevel.empty,beq_iff_eq] at emptied
      rw [emptied,eq_comm,List.length_eq_zero] at zero
      simp [view,sideSlots,zero]
    · rw [view_cons,chain_deallocate,queue.chain_eq]
      simp [view,sideSlots]
  have named := ((wf.index k i).mp found).2
  have erased : (sideSlots book.orderPool A ++ x.chain book.orderPool ++ sideSlots book.orderPool B).erase i =
      sideSlots book.orderPool A ++ (x.chain book.orderPool).erase i ++ sideSlots book.orderPool B := by
    rw [List.erase_append_left _ (List.mem_append_right _ member),List.erase_append_right]
    exact fun inA => apart i (by simp [others,inA]) member
  rw [abstract_orderMap,removeOrderInternal_eq wf position price,shape,
    abstract_rebuild _ _ (fun j inside => ?_) (by simp [remove_relinked.capacity]),middle,abstract_side,
    position,view_append,view_cons]
  · congr 1
    have unique : ∀ j ∈ sideSlots book.orderPool A ++ x.chain book.orderPool ++ sideSlots book.orderPool B,
        ((book.orderPool.getObject j).resting).orderId = k → j = i := fun j inside same =>
      wf.orderId_inj (perm.mem_iff.mpr (by simp [member])) (perm.mem_iff.mpr (by
        simp only [others,List.mem_append] at inside ⊢
        rcases inside with (inside | inside) | inside <;> simp [inside]))
        (same.trans named.symm)
    have := map_erase_eq_eraseP (f := fun j => (book.orderPool.getObject j).resting) named unique
    rw [erased] at this
    simpa [view] using this
  · rw [ObjectPool.getObject_deallocate,remove_outside ok.queue member (apart j inside)
      (wf.pool.ne_invalid (wf.others_live position (by simp [inside])))]

theorem Wf.cancel_abstract (wf : Wf book) (orderId : Nat) :
    ((book.cancel orderId).1,abstract (book.cancel orderId).2) = (abstract book).cancel orderId := by
  unfold OrderBook.cancel Book.cancel
  rw [wf.find]
  cases found : book.orderMap.lookup orderId with
  | none => rfl
  | some i =>
    simp only [Option.map_some']
    rw [wf.abstract_removeOrder found]
    rfl

theorem ahead_iff_better (s : Side) (p q : Int) : Book.ahead s p q = true ↔ better s p q := by
  cases s <;> simp [Book.ahead,better]

/-- Every order of a side's view has the price of its level. -/
theorem view_prices {pool : ObjectPool Order} {t : Side} {L : List PriceLevel}
    (ok : ∀ z ∈ L, LevelOK pool t z (z.chain pool)) : ∀ order ∈ view pool L, ∃ z ∈ L, order.price = z.price := by
  intro order member
  obtain ⟨j,inSlots,rfl⟩ := List.mem_map.mp member
  obtain ⟨z,inL,inChain⟩ := mem_sideSlots.mp inSlots
  exact ⟨z,inL,(ok z inL).price j inChain⟩

/-- Linking an order at the back of the level of its price, seen abstractly: it joins its
side behind every order of equal or better price. -/
theorem Wf.abstract_pushSlot (wf : Wf book) (position : book.levels s = A ++ x :: B)
    (available : book.orderPool.freeHead ≠ invalidPoolIndex) {order : Order} (price : order.price = x.price)
    (orderMap : AList fun _ : Nat => Nat) :
    abstract (book.rebuild s (A ++ (x.pushBack (book.orderPool.taken order) book.orderPool.freeHead).1 :: B)
      (x.pushBack (book.orderPool.taken order) book.orderPool.freeHead).2 orderMap) =
      (abstract book).setSide s (Book.insertBehind s order.resting ((abstract book).side s)) := by
  have ok := wf.level_ok position
  have distinct := wf.split_nodup position
  have unused := (wf.pool.freeHead_free available).2
  have apart : ∀ j ∈ x.chain book.orderPool ++ book.others s A B, j ≠ book.orderPool.freeHead :=
    fun j inside same => by simp [← same,wf.others_live position inside] at unused
  have queue : Queue (book.orderPool.taken order) x (x.chain book.orderPool) :=
    ok.queue.congr fun j inside => by simp [SameLinks,apart j (by simp [inside])]
  have pushed := pushBack_queue queue (fun inside => apart _ (by simp [inside]) rfl) available
  have relinked : Relinked (book.orderPool.taken order)
      (x.pushBack (book.orderPool.taken order) book.orderPool.freeHead).2 := pushBack_relinked
  have resting : ∀ j, ((x.pushBack (book.orderPool.taken order) book.orderPool.freeHead).2.getObject j).resting =
      ((book.orderPool.taken order).getObject j).resting := fun j => by
    rw [← Order.resting_payload,relinked.payload,Order.resting_payload]
  have middle : view (x.pushBack (book.orderPool.taken order) book.orderPool.freeHead).2
      [(x.pushBack (book.orderPool.taken order) book.orderPool.freeHead).1] =
      (x.chain book.orderPool).map (fun j => (book.orderPool.getObject j).resting) ++ [order.resting] := by
    rw [view_cons,pushed.chain_eq]
    simp only [List.map_append,List.map_cons,List.map_nil,resting,ObjectPool.getObject_taken,if_pos,
      view,sideSlots,List.flatMap_nil,List.append_nil]
    congr 1
    exact List.map_congr_left fun j inside => by rw [if_neg (apart j (by simp [inside]))]
  have sorted := wf.sorted s
  rw [position,List.pairwise_append] at sorted
  have sideOK := wf.levels s
  rw [position] at sideOK
  rw [show A ++ (x.pushBack (book.orderPool.taken order) book.orderPool.freeHead).1 :: B =
      A ++ [(x.pushBack (book.orderPool.taken order) book.orderPool.freeHead).1] ++ B by simp,
    abstract_rebuild _ _ (fun j inside => ?_) (by simp [relinked.capacity]),middle,abstract_side,position,
    view_append,view_cons,← List.append_assoc _ _ (view book.orderPool B),Book.insertBehind_split]
  · simp
  · intro other member
    rw [Bool.eq_false_iff,ne_eq,ahead_iff_better]
    rcases List.mem_append.mp member with inA | inLevel
    · obtain ⟨z,inZ,same⟩ := view_prices (fun z inZ => sideOK z (by simp [inZ])) other inA
      have ahead := sorted.2.2 z inZ x (List.mem_cons_self _ _)
      rw [same,Order.resting,price]
      exact fun behind => better_irrefl s _ (better_trans ahead behind)
    · obtain ⟨j,inChain,rfl⟩ := List.mem_map.mp inLevel
      rw [Order.resting,Order.resting,price,ok.price j inChain]
      exact better_irrefl s _
  · intro other member
    rw [ahead_iff_better]
    obtain ⟨z,inZ,same⟩ := view_prices (fun z inZ => sideOK z (by simp [inZ])) other member
    rw [same,Order.resting,price]
    exact List.rel_of_pairwise_cons sorted.2.1 inZ
  · have outside : j ∉ x.chain book.orderPool := fun inChain =>
      List.disjoint_of_nodup_append distinct inChain inside
    rw [pushBack_other queue outside (apart j (by simp [inside])),ObjectPool.getObject_taken,
      if_neg (apart j (by simp [inside]))]

/-- The pool holds one slot per resting order. -/
theorem Wf.size_abstract (wf : Wf book) : (abstract book).size = book.orderPool.size := by
  rw [Book.size,← List.length_append,abstract_orders,List.length_map,wf.size_linked]

/-- The pool is full exactly when the book holds as many orders as the pool has slots. -/
theorem Wf.full_iff (wf : Wf book) :
    book.orderPool.freeHead = invalidPoolIndex ↔ (abstract book).size = (abstract book).capacity := by
  rw [wf.size_abstract]
  obtain ⟨bounded,-,free,list,-,members,count⟩ := wf.pool
  cases free with
  | nil => exact iff_of_true list (by simpa using count)
  | cons f rest =>
    have below := ((members f).mp (List.mem_cons_self _ _)).1
    refine iff_of_false (fun full => ?_) fun same => ?_
    · rw [list.1] at full
      omega
    · simp only [List.length_cons,abstract] at count same
      omega

theorem abstract_setLevels (book : OrderBook) (s : Side) (levels : List PriceLevel) :
    abstract (book.setLevels s levels) = (abstract book).setSide s (view book.orderPool levels) :=
  Book.ext_side s (by simp [abstract_side]) (by simp [abstract_side]) (by cases s <;> rfl)

theorem Taker.incoming_limit (orderId traderId : Nat) (side : Side) (price : Int) :
    Taker.incoming ⟨orderId,traderId,side,price,false⟩ = ⟨orderId,traderId,side,some price⟩ := rfl

theorem Inv.addLimit_abstract (inv : Inv book) (orderId traderId : Nat) (side : Side) (price qty : Int) :
    ((book.addLimit orderId traderId side price qty).1,abstract (book.addLimit orderId traderId side price qty).2.1,
      (book.addLimit orderId traderId side price qty).2.2) = (abstract book).addLimit orderId traderId side price qty := by
  unfold OrderBook.addLimit OrderBook.addLimitInternal Book.addLimit
  by_cases dup : orderId ∈ book.orderMap
  · rw [if_pos dup,if_pos ((inv.mem_orderMap orderId).mp dup)]
  rw [if_neg dup,if_neg (show ¬((abstract book).find orderId).isSome = true by rwa [← inv.mem_orderMap])]
  have inv₁ := inv.matched ⟨orderId,traderId,side,price,false⟩ qty
  obtain ⟨shape,remaining,trades⟩ := matchOrder_abstract inv ⟨orderId,traderId,side,price,false⟩ qty
  dsimp only at shape remaining trades ⊢
  rw [Taker.incoming_limit] at shape remaining trades
  rw [← remaining,← trades,← shape]
  generalize book.matchOrder ⟨orderId,traderId,side,price,false⟩ qty = matched at inv₁ ⊢
  obtain ⟨M,remaining,trades⟩ := matched
  dsimp only at inv₁ ⊢
  by_cases spent : remaining ≤ 0
  · rw [if_pos spent,if_pos spent]
  rw [if_neg spent,if_neg spent]
  by_cases full : M.orderPool.freeHead = invalidPoolIndex
  · rw [ObjectPool.allocate_full _ _ full,if_pos rfl,if_pos (inv₁.full_iff.mp full)]
  rw [ObjectPool.allocate_free _ _ full,if_neg full,if_neg (mt inv₁.full_iff.mpr full)]
  obtain ⟨A,y,B,found,position,price',old⟩ := findOrCreateLevel_spec (p := price) (inv₁.sorted side)
  simp only [found,position,getD_length_append,set_length_append]
  have wf₁ : Wf (M.setLevels side (A ++ y :: B)) ∧ abstract (M.setLevels side (A ++ y :: B)) = abstract M := by
    rcases old with old | ⟨rfl,old,sorted⟩
    · rw [← old,setLevels_self]
      exact ⟨inv₁.toWf,rfl⟩
    · refine ⟨inv₁.insertEmpty old price sorted,?_⟩
      rw [abstract_setLevels,view_append,view_cons,chain_of_count_zero rfl,List.map_nil,List.nil_append,
        ← view_append,← old,
        ← abstract_side,Book.setSide_self]
  have pushed := wf₁.1.abstract_pushSlot (levels_setLevels _ _ _) (by simpa using full)
    (show (Order.create orderId traderId side price remaining).price = y.price from price'.symm)
    (M.orderMap.insert orderId M.orderPool.freeHead)
  simp only [rebuild_setLevels,setLevels_orderPool,wf₁.2] at pushed
  show (_,abstract (M.rebuild side _ _ _),trades) = _
  rw [pushed]
  rfl

theorem Inv.addMarket_abstract (inv : Inv book) (orderId traderId : Nat) (side : Side) (qty : Int) :
    ((book.addMarket orderId traderId side qty).1,abstract (book.addMarket orderId traderId side qty).2.1,
      (book.addMarket orderId traderId side qty).2.2) = (abstract book).addMarket orderId traderId side qty := by
  obtain ⟨shape,remaining,trades⟩ := matchOrder_abstract inv ⟨orderId,traderId,side,0,true⟩ qty
  unfold OrderBook.addMarket Book.addMarket
  dsimp only at shape remaining trades ⊢
  rw [remaining,trades,shape]
  rfl

@[simp] theorem chain_reduceQty (level : PriceLevel) (pool : ObjectPool Order) (d : Int) :
    (level.reduceQty d).chain pool = level.chain pool := rfl

/-- The in-place path of `modify`, seen abstractly: the order of the id takes the new
quantity where it stands. -/
theorem Wf.abstract_setQty (wf : Wf book) (found : book.orderMap.lookup k = some i) (d q : Int)
    (position : book.levels (book.orderPool.getObject i).side = A ++ x :: B) :
    abstract (book.rebuild (book.orderPool.getObject i).side
        (A ++ x.reduceQty d :: B)
        (book.orderPool.modifyObject i fun o => { o with qtyRemaining := q }) book.orderMap) =
      (abstract book).setSide (book.orderPool.getObject i).side
        (((abstract book).side (book.orderPool.getObject i).side).map fun order =>
          if order.orderId = k then { order with qty := q } else order) := by
  obtain ⟨linked,named⟩ := (wf.index k i).mp found
  have slots : sideSlots (book.orderPool.modifyObject i fun o => { o with qtyRemaining := q })
      (A ++ x.reduceQty d :: B) = sideSlots book.orderPool (A ++ x :: B) := by
    have links : sideSlots (book.orderPool.modifyObject i fun o => { o with qtyRemaining := q })
        (A ++ x.reduceQty d :: B) =
        sideSlots book.orderPool (A ++ x.reduceQty d :: B) :=
      sideSlots_congr fun j _ => by by_cases same : j = i <;> simp [same]
    simp [links,chain_reduceQty]
  have apart : ∀ j ∈ sideSlots book.orderPool (book.levels (opposite (book.orderPool.getObject i).side)), j ≠ i :=
    fun j member same => by
      have distinct := (linkedSlots_perm book (book.orderPool.getObject i).side).nodup_iff.mp wf.distinct
      obtain ⟨t,y,inSide,inChain⟩ := mem_linkedSlots.mp linked
      have ok := (wf.levels t y inSide).side i inChain
      subst ok
      exact List.disjoint_of_nodup_append distinct (mem_sideSlots.mpr ⟨y,inSide,inChain⟩) (same ▸ member)
  refine Book.ext_side (book.orderPool.getObject i).side ?_ ?_ (by simp [abstract])
  · simp only [abstract_side,rebuild_levels,rebuild_orderPool,Book.side_setSide,view,slots,position,List.map_map]
    refine List.map_congr_left fun j member => ?_
    have linked' : j ∈ book.linkedSlots :=
      (linkedSlots_perm book _).mem_iff.mpr (List.mem_append_left _ (position ▸ member))
    by_cases same : j = i
    · subst same
      simp [Order.resting,named]
    · have other : (book.orderPool.getObject j).orderId ≠ k := fun named' =>
        same (wf.orderId_inj linked linked' (named'.trans named.symm))
      simp [Order.resting,same,other]
  · rw [abstract_side,Book.side_setSide_opposite,abstract_side,rebuild_levels_opposite,rebuild_orderPool]
    exact view_congr fun j member => by simp [apart j member]

theorem Inv.modify_abstract (inv : Inv book) (orderId : Nat) (newQty newPrice : Int) :
    ((book.modify orderId newQty newPrice).1,abstract (book.modify orderId newQty newPrice).2.1,
      (book.modify orderId newQty newPrice).2.2) = (abstract book).modify orderId newQty newPrice := by
  unfold OrderBook.modify Book.modify
  rw [inv.find]
  cases found : book.orderMap.lookup orderId with
  | none => rfl
  | some i =>
    simp only [Option.map_some',Order.resting]
    have readd : ∀ price,
        let book' := { book.removeOrderInternal i with
          orderMap := (book.removeOrderInternal i).orderMap.erase orderId }
        ((book'.addLimitInternal orderId (book.orderPool.getObject i).traderId
            (book.orderPool.getObject i).side price newQty).1,
          abstract (book'.addLimitInternal orderId (book.orderPool.getObject i).traderId
            (book.orderPool.getObject i).side price newQty).2.1,
          (book'.addLimitInternal orderId (book.orderPool.getObject i).traderId
            (book.orderPool.getObject i).side price newQty).2.2) =
        ((abstract book).cancel orderId).2.addLimit orderId (book.orderPool.getObject i).traderId
          (book.orderPool.getObject i).side price newQty := fun price => by
      have readded := (inv.cancel orderId).addLimit_abstract orderId (book.orderPool.getObject i).traderId
        (book.orderPool.getObject i).side price newQty
      rw [← congrArg Prod.snd (inv.cancel_abstract orderId)]
      simp only [OrderBook.cancel,found] at readded ⊢
      exact readded
    by_cases reprice : newPrice ≠ 0 ∧ newPrice ≠ (book.orderPool.getObject i).price
    · rw [if_pos reprice,if_pos reprice]
      exact readd newPrice
    rw [if_neg reprice,if_neg reprice]
    by_cases shrink : newQty < (book.orderPool.getObject i).qtyRemaining
    · rw [if_pos shrink,if_pos shrink]
      obtain ⟨A,x,B,position,member,price⟩ := inv.locate found
      have sorted := inv.sorted (book.orderPool.getObject i).side
      rw [position] at sorted
      simp only [position,← price,findLevel_position sorted,getD_length_append,set_length_append]
      show (_,abstract (book.rebuild _ _ _ book.orderMap),_) = _
      rw [inv.abstract_setQty found _ newQty position]
    · rw [if_neg shrink,if_neg shrink]
      exact readd _

theorem abstract_clear (book : OrderBook) : abstract book.clear = (abstract book).clear := by
  simp [abstract,OrderBook.clear,Book.clear,view,sideSlots,ObjectPool.clear]

theorem ahead_false_of_better {s : Side} {p q : Int} (first : better s p q) : Book.ahead s q p = false := by
  cases s <;> simp [Book.ahead,better] at * <;> omega

/-- The abstraction lists each side best first: the levels are sorted and a level's orders
have its price. -/
theorem Wf.abstract_sorted (wf : Wf book) : (abstract book).Sorted := by
  intro s
  have same : ∀ p : Int, Book.ahead s p p = false := fun p => by cases s <;> simp [Book.ahead]
  rw [abstract_side,view,Book.SideSorted,List.pairwise_map,sideSlots,List.pairwise_flatMap]
  refine ⟨fun level member => ?_,(wf.sorted s).imp_of_mem fun inA inB ahead j inJ k inK => ?_⟩
  · have ok := wf.levels s level member
    refine ok.queue.distinct.imp_of_mem fun inJ inK _ => ?_
    show Book.ahead s (book.orderPool.getObject _).price (book.orderPool.getObject _).price = false
    rw [ok.price _ inJ,ok.price _ inK,same]
  · show Book.ahead s (book.orderPool.getObject _).price (book.orderPool.getObject _).price = false
    rw [(wf.levels s _ inA).price j inJ,(wf.levels s _ inB).price k inK]
    exact ahead_false_of_better ahead

/-- What a call returns to its caller, if anything, and the trades it passed to the trade
callback, in order. -/
def perform (book : OrderBook) : Call → (Option OrderResponse × List Trade) × OrderBook
  | .addLimit orderId traderId side price qty =>
    let r := book.addLimit orderId traderId side price qty
    ((some r.1,r.2.2),r.2.1)
  | .addMarket orderId traderId side qty =>
    let r := book.addMarket orderId traderId side qty
    ((some r.1,r.2.2),r.2.1)
  | .cancel orderId =>
    let r := book.cancel orderId
    ((some r.1,[]),r.2)
  | .modify orderId newQty newPrice =>
    let r := book.modify orderId newQty newPrice
    ((some r.1,r.2.2),r.2.1)
  | .clear => ((none,[]),book.clear)

/-- The outputs of a sequence of calls and the book they leave. -/
def run (book : OrderBook) : List Call → List (Option OrderResponse × List Trade) × OrderBook
  | [] => ([],book)
  | call :: calls =>
    let rest := (book.perform call).2.run calls
    ((book.perform call).1 :: rest.1,rest.2)

theorem Reachable.perform (reach : Reachable book) : ∀ call, Reachable (book.perform call).2
  | .addLimit orderId traderId side price qty => .addLimit orderId traderId side price qty reach
  | .addMarket orderId traderId side qty => .addMarket orderId traderId side qty reach
  | .cancel orderId => .cancel orderId reach
  | .modify orderId newQty newPrice => .modify orderId newQty newPrice reach
  | .clear => .clear reach

/-- One call of a reachable book is the abstract call. -/
theorem Reachable.perform_abstract (reach : Reachable book) :
    ∀ call, ((book.perform call).1,abstract (book.perform call).2) = (abstract book).perform call
  | .addLimit orderId traderId side price qty => by
    simp only [OrderBook.perform,Book.perform,← reach.inv.addLimit_abstract orderId traderId side price qty]
  | .addMarket orderId traderId side qty => by
    simp only [OrderBook.perform,Book.perform,← reach.inv.addMarket_abstract orderId traderId side qty]
  | .cancel orderId => by
    simp only [OrderBook.perform,Book.perform,← reach.inv.cancel_abstract orderId]
  | .modify orderId newQty newPrice => by
    simp only [OrderBook.perform,Book.perform,← reach.inv.modify_abstract orderId newQty newPrice]
  | .clear => by simp only [OrderBook.perform,Book.perform,abstract_clear]

theorem Reachable.run_abstract : ∀ {book : OrderBook}, Reachable book →
    ∀ calls, ((book.run calls).1,abstract (book.run calls).2) = (abstract book).run calls
  | _, _, [] => rfl
  | book, reach, call :: calls => by
    have outputs : (book.perform call).1 = ((abstract book).perform call).1 :=
      congrArg Prod.fst (reach.perform_abstract call)
    have next : abstract (book.perform call).2 = ((abstract book).perform call).2 :=
      congrArg Prod.snd (reach.perform_abstract call)
    simp only [OrderBook.run,Book.run,← next,← (reach.perform call).run_abstract calls,outputs]

theorem abstract_new (maxOrders : UInt32) : abstract (OrderBook.new maxOrders) = Book.empty maxOrders.toNat := rfl

/-- `add_market` walks the book whatever ids rest in it: a market order reusing the id of a
resting order fills against that order. -/
theorem market_order_reuses_resting_id :
    ((OrderBook.new 4).addLimit 1 0 .buy 100 10).2.1.hasOrder 1 = true ∧
      (((OrderBook.new 4).addLimit 1 0 .buy 100 10).2.1.addMarket 1 1 .sell 5).1.result = .fullyFilled ∧
      (((OrderBook.new 4).addLimit 1 0 .buy 100 10).2.1.addMarket 1 1 .sell 5).2.2 = [⟨1,1,0,1,100,5,.sell⟩] := by
  decide

/-- Every sequence of calls from `OrderBook(max_orders)` returns the abstract book's outputs
and trades, and leaves a book whose abstraction is the abstract book's, which holds each
side best first. -/
theorem orderBook_refines (maxOrders : UInt32) (calls : List Call) :
    (((OrderBook.new maxOrders).run calls).1,abstract ((OrderBook.new maxOrders).run calls).2) =
        (Book.empty maxOrders.toNat).run calls ∧
      ((Book.empty maxOrders.toNat).run calls).2.Sorted :=
  ⟨abstract_new maxOrders ▸ (Reachable.new maxOrders).run_abstract calls,(Book.sorted_empty _).run calls⟩

/-- Price-time priority of a limit order on a reachable book: the opposite side is held best
price first and earliest first within a price, the orders traded against are its first
orders in that order, and each trade is within the limit, at its maker's price and for at
most the maker's quantity. -/
theorem reachable_limit_priority (reach : Reachable book) (orderId traderId : Nat) (side : Side)
    (price qty : Int) :
    Book.SideSorted (opposite side) ((abstract book).side (opposite side)) ∧
      (book.addLimit orderId traderId side price qty).2.2.map Trade.makerOrderId <+:
        ((abstract book).side (opposite side)).map Resting.orderId ∧
      ∀ trade ∈ (book.addLimit orderId traderId side price qty).2.2,
        (side = .buy → trade.price ≤ price) ∧ (side = .sell → price ≤ trade.price) ∧
        ∃ maker ∈ (abstract book).side (opposite side), maker.orderId = trade.makerOrderId ∧
          maker.price = trade.price ∧ trade.qty ≤ maker.qty := by
  rw [congrArg (fun r => r.2.2) (reach.inv.addLimit_abstract orderId traderId side price qty)]
  refine ⟨reach.inv.abstract_sorted _,?_⟩
  rcases Book.addLimit_trades (abstract book) orderId traderId side price qty with none | walked
  · rw [none]
    exact ⟨ List.nil_prefix,by simp⟩
  · rw [walked]
    obtain ⟨front,each⟩ := @Book.walk_makers ⟨orderId,traderId,side,some price⟩ qty
      ((abstract book).side (opposite side))
    refine ⟨front,fun trade member => ?_⟩
    obtain ⟨crossing,maker⟩ := each trade member
    refine ⟨fun buy => ?_,fun sell => ?_,maker⟩ <;> subst_vars <;> simpa [Book.crosses] using crossing

theorem limit_priority_after_add :
    Book.SideSorted (opposite .sell) ((abstract ((OrderBook.new 4).addLimit 1 0 .buy 100 10).2.1).side (opposite .sell)) ∧
      (((OrderBook.new 4).addLimit 1 0 .buy 100 10).2.1.addLimit 2 1 .sell 99 5).2.2.map Trade.makerOrderId <+:
        ((abstract ((OrderBook.new 4).addLimit 1 0 .buy 100 10).2.1).side (opposite .sell)).map Resting.orderId ∧
      ∀ trade ∈ (((OrderBook.new 4).addLimit 1 0 .buy 100 10).2.1.addLimit 2 1 .sell 99 5).2.2,
        (Side.sell = .buy → trade.price ≤ 99) ∧ (Side.sell = .sell → 99 ≤ trade.price) ∧
        ∃ maker ∈ (abstract ((OrderBook.new 4).addLimit 1 0 .buy 100 10).2.1).side (opposite .sell),
          maker.orderId = trade.makerOrderId ∧ maker.price = trade.price ∧ trade.qty ≤ maker.qty :=
  reachable_limit_priority (.addLimit 1 0 .buy 100 10 (.new 4)) 2 1 .sell 99 5

/-- Price-time priority of a market order on a reachable book: the orders traded against are
the first orders of the opposite side, which is held best first, and each trade is at its
maker's price and for at most the maker's quantity. -/
theorem reachable_market_priority (reach : Reachable book) (orderId traderId : Nat) (side : Side) (qty : Int) :
    Book.SideSorted (opposite side) ((abstract book).side (opposite side)) ∧
      (book.addMarket orderId traderId side qty).2.2.map Trade.makerOrderId <+:
        ((abstract book).side (opposite side)).map Resting.orderId ∧
      ∀ trade ∈ (book.addMarket orderId traderId side qty).2.2,
        ∃ maker ∈ (abstract book).side (opposite side), maker.orderId = trade.makerOrderId ∧
          maker.price = trade.price ∧ trade.qty ≤ maker.qty := by
  rw [congrArg (fun r => r.2.2) (reach.inv.addMarket_abstract orderId traderId side qty)]
  obtain ⟨front,each⟩ := @Book.walk_makers ⟨orderId,traderId,side,none⟩ qty ((abstract book).side (opposite side))
  exact ⟨reach.inv.abstract_sorted _,front,fun trade member => (each trade member).2⟩

theorem market_priority_after_add :
    Book.SideSorted (opposite .sell) ((abstract ((OrderBook.new 4).addLimit 1 0 .buy 100 10).2.1).side (opposite .sell)) ∧
      (((OrderBook.new 4).addLimit 1 0 .buy 100 10).2.1.addMarket 2 1 .sell 5).2.2.map Trade.makerOrderId <+:
        ((abstract ((OrderBook.new 4).addLimit 1 0 .buy 100 10).2.1).side (opposite .sell)).map Resting.orderId ∧
      ∀ trade ∈ (((OrderBook.new 4).addLimit 1 0 .buy 100 10).2.1.addMarket 2 1 .sell 5).2.2,
        ∃ maker ∈ (abstract ((OrderBook.new 4).addLimit 1 0 .buy 100 10).2.1).side (opposite .sell),
          maker.orderId = trade.makerOrderId ∧ maker.price = trade.price ∧ trade.qty ≤ maker.qty :=
  reachable_market_priority (.addLimit 1 0 .buy 100 10 (.new 4)) 2 1 .sell 5

/-- A side's first level holds the side's first order. -/
theorem Inv.first_price (inv : Inv book) (s : Side) :
    ((abstract book).side s).head?.map Resting.price = ((book.levels s).find? fun level => !level.empty).map
      PriceLevel.price := by
  rw [abstract_side]
  cases levels : book.levels s with
  | nil => rfl
  | cons level rest =>
    have nonempty := inv.nonempty s level (by simp [levels])
    have front := (inv.levels s level (by simp [levels])).price level.frontIdx
      (by rw [chain_front nonempty]; exact List.mem_cons_self _ _)
    rw [view_front nonempty,List.find?_cons_of_pos _ (by simpa using PriceLevel.not_empty.mpr nonempty)]
    simp [front]

/-- The queries of a reachable book read its abstraction: `has_order` is the search by id,
`order_count` the number of resting orders, `best_bid` and `best_ask` the prices of the first
order of each side; and no two resting orders share an id. -/
theorem reachable_queries (reach : Reachable book) :
    (∀ orderId, book.hasOrder orderId = ((abstract book).find orderId).isSome) ∧
      book.orderCount = (abstract book).size ∧
      book.bestBid = (abstract book).bids.head?.map Resting.price ∧
      book.bestAsk = (abstract book).asks.head?.map Resting.price ∧
      (((abstract book).bids ++ (abstract book).asks).map Resting.orderId).Nodup := by
  have inv := reach.inv
  refine ⟨fun orderId => ?_,inv.size_abstract.symm,(inv.first_price .buy).symm,(inv.first_price .sell).symm,
    inv.abstract_ids⟩
  rw [OrderBook.hasOrder,Bool.eq_iff_iff,decide_eq_true_iff]
  exact inv.mem_orderMap orderId

theorem queries_after_add :
    (∀ orderId, ((OrderBook.new 4).addLimit 1 0 .buy 100 10).2.1.hasOrder orderId =
        ((abstract ((OrderBook.new 4).addLimit 1 0 .buy 100 10).2.1).find orderId).isSome) ∧
      ((OrderBook.new 4).addLimit 1 0 .buy 100 10).2.1.orderCount =
        (abstract ((OrderBook.new 4).addLimit 1 0 .buy 100 10).2.1).size ∧
      ((OrderBook.new 4).addLimit 1 0 .buy 100 10).2.1.bestBid =
        (abstract ((OrderBook.new 4).addLimit 1 0 .buy 100 10).2.1).bids.head?.map Resting.price ∧
      ((OrderBook.new 4).addLimit 1 0 .buy 100 10).2.1.bestAsk =
        (abstract ((OrderBook.new 4).addLimit 1 0 .buy 100 10).2.1).asks.head?.map Resting.price ∧
      (((abstract ((OrderBook.new 4).addLimit 1 0 .buy 100 10).2.1).bids ++
        (abstract ((OrderBook.new 4).addLimit 1 0 .buy 100 10).2.1).asks).map Resting.orderId).Nodup :=
  reachable_queries (.addLimit 1 0 .buy 100 10 (.new 4))

end OrderBook

end ExchangeSim
