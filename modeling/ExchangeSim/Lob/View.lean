import ExchangeSim.Lob.Reachable
import ExchangeSim.Lob.Abstract

/-! The abstraction of a concrete book: each side read level by level and each level in
queue order (`view`). `match_order` is the abstract walk over that list: one fill is one
step of the walk (`fillFront_predict`), the inner loop walks one level and the outer loop
the side (`sweepLevels_predict`), and no slot of the taker's own side is touched. -/
namespace ExchangeSim

/-- What the abstract book keeps of an order. -/
def Order.resting (order : Order) : Resting :=
  ⟨order.orderId,order.traderId,order.side,order.price,order.qtyRemaining⟩

theorem Order.resting_payload (order : Order) : order.payload.resting = order.resting := rfl

@[simp] theorem Order.resting_price (order : Order) : order.resting.price = order.price := rfl

@[simp] theorem Order.resting_qty (order : Order) : order.resting.qty = order.qtyRemaining := rfl

/-- A quantity change keeps a queue's links. -/
theorem PriceLevel.Queue.setQty {pool : ObjectPool Order} {level : PriceLevel} {L : List Nat}
    (queue : PriceLevel.Queue pool level L) (m : Nat) (d q : Int) :
    PriceLevel.Queue (pool.modifyObject m fun o => { o with qtyRemaining := q }) (level.reduceQty d) L :=
  ⟨queue.linked.congr fun j _ => by by_cases same : j = m <;> simp [same,PriceLevel.SameLinks],
    queue.head,queue.tail,queue.count,queue.distinct,queue.valid⟩

namespace OrderBook

open PriceLevel

/-- The resting orders of a side, level by level and each level in queue order. -/
def view (pool : ObjectPool Order) (levels : List PriceLevel) : List Resting :=
  (sideSlots pool levels).map fun i => (pool.getObject i).resting

/-- The abstract book a concrete one represents. -/
def abstract (book : OrderBook) : Book :=
  ⟨view book.orderPool book.bids,view book.orderPool book.asks,book.orderPool.capacity⟩

@[simp] theorem levels_opposite_setLevels (book : OrderBook) (s : Side) (levels : List PriceLevel) :
    (book.setLevels (opposite s) levels).levels s = book.levels s := by cases s <;> rfl

theorem abstract_side (book : OrderBook) (s : Side) : (abstract book).side s = view book.orderPool (book.levels s) := by
  cases s <;> rfl

/-- The incoming order `match_order` is told of. -/
def Taker.incoming (taker : Taker) : Incoming :=
  ⟨taker.orderId,taker.traderId,taker.side,if taker.isMarket then none else some taker.price⟩

theorem crosses_incoming (taker : Taker) (level : PriceLevel) :
    Book.crosses taker.incoming level.price = !beyondLimit taker level := by
  obtain ⟨orderId,traderId,side,price,market⟩ := taker
  have differ : (Side.sell == Side.buy) = false := rfl
  have differ' : (Side.buy == Side.sell) = false := rfl
  cases market <;> cases side <;> simp [Book.crosses,Taker.incoming,beyondLimit,differ,differ'] <;>
    simp only [← decide_not,Int.not_lt]

variable {pool pool' : ObjectPool Order}

theorem sideSlots_congr : ∀ {levels : List PriceLevel},
    (∀ j ∈ sideSlots pool levels, (pool'.getObject j).nextIdx = (pool.getObject j).nextIdx) →
      sideSlots pool' levels = sideSlots pool levels
  | [], _ => rfl
  | level :: levels, same => by
    simp only [sideSlots_cons,List.mem_append] at same ⊢
    rw [chain,chainFrom_congr fun j member => same j (.inl member),
      sideSlots_congr fun j member => same j (.inr member)]
    rfl

/-- A side's view reads only the slots linked on it. -/
theorem view_congr {levels : List PriceLevel}
    (same : ∀ j ∈ sideSlots pool levels, pool'.getObject j = pool.getObject j) :
    view pool' levels = view pool levels := by
  rw [view,view,sideSlots_congr fun j member => by rw [same j member]]
  exact List.map_congr_left fun j member => by rw [same j member]

theorem view_append (pool : ObjectPool Order) (L M : List PriceLevel) :
    view pool (L ++ M) = view pool L ++ view pool M := by
  simp [view]

theorem view_cons (pool : ObjectPool Order) (level : PriceLevel) (L : List PriceLevel) :
    view pool (level :: L) = (level.chain pool).map (fun j => (pool.getObject j).resting) ++ view pool L := by
  simp [view]

variable {level : PriceLevel} {rest : List PriceLevel} {m : Nat} {ms : List Nat}

/-- A non-empty level's queue starts at its front. -/
theorem chain_front (nonempty : 0 < level.orderCount) :
    level.chain pool = level.frontIdx :: (level.chain pool).tail := by
  obtain ⟨n,count⟩ := Nat.exists_eq_add_of_lt nonempty
  rw [chain,count,Nat.zero_add,chainFrom]
  rfl

/-- The orders after the front of a level and on the levels behind it. -/
def behind (pool : ObjectPool Order) (ms : List Nat) (rest : List PriceLevel) : List Resting :=
  (ms ++ sideSlots pool rest).map fun j => (pool.getObject j).resting

/-- A fill that leaves the front order quantity changes only that order. -/
theorem view_setQty (chain : level.chain pool = m :: ms) (distinct : (m :: ms ++ sideSlots pool rest).Nodup)
    (d q : Int) :
    view (pool.modifyObject m fun o => { o with qtyRemaining := q }) (level.reduceQty d :: rest) =
      { (pool.getObject m).resting with qty := q } :: behind pool ms rest := by
  have restSlots : sideSlots (pool.modifyObject m fun o => { o with qtyRemaining := q }) rest =
      sideSlots pool rest := sideSlots_congr fun j _ => by by_cases same : j = m <;> simp [same]
  have slots : sideSlots (pool.modifyObject m fun o => { o with qtyRemaining := q }) (level.reduceQty d :: rest) =
      m :: (ms ++ sideSlots pool rest) := by
    rw [sideSlots_cons,chain_setQty,chain,restSlots]
    rfl
  have apart : m ∉ ms ++ sideSlots pool rest := (List.nodup_cons.mp distinct).1
  rw [view,slots,List.map_cons,behind]
  congr 1
  · simp [Order.resting]
  · exact List.map_congr_left fun j member => by
      simp [show j ≠ m from fun same => apart (same ▸ member)]

@[simp] theorem chain_deallocate (level : PriceLevel) (pool : ObjectPool Order) (i : Nat) :
    level.chain (pool.deallocate i) = level.chain pool :=
  chainFrom_congr fun j _ => by rw [ObjectPool.getObject_deallocate]

/-- Unlinking a slot leaves every order's abstract fields. -/
@[simp] theorem resting_remove (level : PriceLevel) (pool : ObjectPool Order) (i j : Nat) :
    ((level.remove pool i).2.getObject j).resting = (pool.getObject j).resting := by
  rw [← Order.resting_payload,remove_relinked.payload,Order.resting_payload]

/-- A fill that empties the front order unlinks and frees it and changes no other order. -/
theorem view_removeFront {o : Side} (ok : LevelOK pool o level (level.chain pool))
    (chain : level.chain pool = m :: ms) (distinct : (m :: ms ++ sideSlots pool rest).Nodup)
    (valid : ∀ j ∈ sideSlots pool rest, j ≠ invalidPoolIndex) (d q : Int) :
    view (((level.reduceQty d).remove (pool.modifyObject m fun o => { o with qtyRemaining := q }) m).2.deallocate m)
      (((level.reduceQty d).remove (pool.modifyObject m fun o => { o with qtyRemaining := q }) m).1 :: rest) =
      behind pool ms rest := by
  set pool' := pool.modifyObject m fun o => { o with qtyRemaining := q }
  have other : ∀ j, j ≠ m → pool'.getObject j = pool.getObject j := fun j apart => by simp [pool',apart]
  have queue : Queue pool' (level.reduceQty d) (m :: ms) := (chain ▸ ok.queue).setQty m d q
  have removed := remove_queue queue (List.mem_cons_self m ms)
  rw [List.erase_cons_head] at removed
  have apart : m ∉ ms ++ sideSlots pool rest := (List.nodup_cons.mp distinct).1
  have outside : ∀ j ∈ sideSlots pool rest, j ∉ m :: ms := fun j member inside =>
    (List.nodup_append.mp distinct).2.2 inside member
  have restSame : ∀ j ∈ sideSlots pool rest,
      (((level.reduceQty d).remove pool' m).2.deallocate m).getObject j = pool.getObject j := fun j member => by
    rw [ObjectPool.getObject_deallocate,remove_outside queue (List.mem_cons_self m ms) (outside j member)
      (valid j member),other j fun same => outside j member (same ▸ List.mem_cons_self m ms)]
  have slots : sideSlots (((level.reduceQty d).remove pool' m).2.deallocate m)
      (((level.reduceQty d).remove pool' m).1 :: rest) = ms ++ sideSlots pool rest := by
    rw [sideSlots_cons,sideSlots_congr fun j member => by rw [restSame j member]]
    rw [chain_deallocate,removed.chain_eq]
  rw [view,slots,behind]
  exact List.map_congr_left fun j member => by
    rw [ObjectPool.getObject_deallocate,resting_remove,other j fun same => apart (same ▸ member)]

/-- A non-empty level's view starts with its front order. -/
theorem view_front (nonempty : 0 < level.orderCount) (rest : List PriceLevel) :
    view pool (level :: rest) = (pool.getObject level.frontIdx).resting :: behind pool (level.chain pool).tail rest := by
  rw [view,sideSlots_cons,chain_front nonempty]
  rfl

/-- The outcome the abstract walk predicts from a point of the sweep: the quantity left,
every trade, and the orders left on the levels still to sweep. -/
def predict (taker : Taker) (sweep : Sweep) (levels : List PriceLevel) : Int × List Trade × List Resting :=
  let walked := Book.walk taker.incoming sweep.remaining (view sweep.book.orderPool levels)
  (walked.1,sweep.trades ++ walked.2.1,walked.2.2)

variable {book : OrderBook} {s : Side} {A : List PriceLevel}

theorem Wf.level_distinct (wf : Wf book) (position : book.levels s = A ++ level :: rest) :
    (level.chain book.orderPool ++ sideSlots book.orderPool rest).Nodup :=
  (wf.split_nodup position).sublist
    (((List.sublist_append_right _ _).trans (List.sublist_append_left _ _)).append_left _)

theorem Wf.rest_valid (wf : Wf book) (position : book.levels s = A ++ level :: rest) :
    ∀ j ∈ sideSlots book.orderPool rest, j ≠ invalidPoolIndex := fun j member same => by
  obtain ⟨y,inRest,inChain⟩ := mem_sideSlots.mp member
  exact (wf.levels s y (by simp [position,inRest])).queue.valid (same ▸ inChain)

variable {taker : Taker} {o : Side} {K : List PriceLevel} {sweep : Sweep}

/-- One fill is one step of the walk. -/
theorem fillFront_predict (wf : Wf (sweep.book.setLevels o (K ++ level :: rest)))
    (nonempty : 0 < level.orderCount) (going : 0 < sweep.remaining) (crossing : beyondLimit taker level = false) :
    predict taker (fillFront taker level sweep).2 ((fillFront taker level sweep).1 :: rest) =
      predict taker sweep (level :: rest) := by
  have position := levels_setLevels sweep.book o (K ++ level :: rest)
  have ok := wf.level_ok position
  have distinct := wf.level_distinct position
  have valid := wf.rest_valid position
  simp only [setLevels_orderPool] at ok distinct valid
  have chain : level.chain sweep.book.orderPool = level.frontIdx :: _ := chain_front nonempty
  rw [chain] at distinct
  have price := ok.price level.frontIdx (by rw [chain]; exact List.mem_cons_self _ _)
  have crosses : Book.crosses taker.incoming (sweep.book.orderPool.getObject level.frontIdx).resting.price = true := by
    rw [Order.resting_price,price,crosses_incoming,crossing]; rfl
  rw [predict,predict,view_front nonempty,Book.walk_fill going crosses,Order.resting_qty]
  unfold fillFront
  dsimp only
  by_cases gone : wrap64 ((sweep.book.orderPool.getObject level.frontIdx).qtyRemaining -
      min sweep.remaining (sweep.book.orderPool.getObject level.frontIdx).qtyRemaining) ≤ 0
  · rw [if_pos gone,if_pos gone,view_removeFront ok chain distinct valid]
    simp [Order.resting,Taker.incoming]
  · rw [if_neg gone,if_neg gone,view_setQty chain distinct]
    have spent : wrap64 (sweep.remaining -
        min sweep.remaining (sweep.book.orderPool.getObject level.frontIdx).qtyRemaining) = 0 := by
      unfold wrap64 at gone ⊢; omega
    simp only [spent,Book.walk_stop (le_refl 0)]
    simp [Order.resting,Taker.incoming,spent]

theorem beyondLimit_congr {level level' : PriceLevel} (price : level'.price = level.price) :
    beyondLimit taker level' = beyondLimit taker level := by
  simp only [beyondLimit,price]

/-- The inner loop is the walk over the level's queue. -/
theorem fillLevel_predict : ∀ (n : Nat) (level : PriceLevel) (sweep : Sweep),
    beyondLimit taker level = false → Wf (sweep.book.setLevels o (K ++ level :: rest)) →
      predict taker (fillLevel taker n level sweep).2 ((fillLevel taker n level sweep).1 :: rest) =
        predict taker sweep (level :: rest)
  | 0, _, _, _, _ => rfl
  | n + 1, level, sweep, crossing, wf => by
    simp only [fillLevel]
    split_ifs with going
    · have nonempty := PriceLevel.not_empty.mp (by simpa using going.2)
      rw [fillLevel_predict n _ _ ((beyondLimit_congr (fillFront_price taker level sweep)).trans crossing)
        (fillFront_wf wf nonempty),fillFront_predict wf nonempty going.1 crossing]
    · rfl

theorem predict_spent (spent : sweep.remaining ≤ 0) (levels : List PriceLevel) :
    predict taker sweep levels = (sweep.remaining,sweep.trades,view sweep.book.orderPool levels) := by
  simp [predict,Book.walk_stop spent]

/-- An emptied level holds no order of the view. -/
theorem predict_empty (empty : level.empty = true) (rest : List PriceLevel) :
    predict taker sweep (level :: rest) = predict taker sweep rest := by
  have zero : level.orderCount = 0 := by simpa [PriceLevel.empty] using empty
  simp [predict,view,chain,zero,chainFrom]

/-- The outer loop is the walk over the opposite side. -/
theorem sweepLevels_predict : ∀ (L K : List PriceLevel) (sweep : Sweep),
    Inv (sweep.book.setLevels o (K ++ L)) →
      predict taker sweep L = ((sweepLevels taker L sweep).2.remaining,(sweepLevels taker L sweep).2.trades,
        view (sweepLevels taker L sweep).2.book.orderPool (sweepLevels taker L sweep).1)
  | [], _, sweep, _ => by simp only [predict,view,sideSlots,List.flatMap_nil,List.map_nil]; simp [Book.walk,sweepLevels]
  | x :: L, K, sweep, inv => by
    simp only [sweepLevels]
    split_ifs with spent beyond emptied
    · exact predict_spent spent _
    · have nonempty := inv.nonempty o x (by simp)
      have position := levels_setLevels sweep.book o (K ++ x :: L)
      have ok := inv.level_ok position
      simp only [setLevels_orderPool] at ok
      have price := ok.price x.frontIdx (by rw [chain_front nonempty]; exact List.mem_cons_self _ _)
      have stop : Book.crosses taker.incoming (sweep.book.orderPool.getObject x.frontIdx).resting.price = false := by
        show Book.crosses taker.incoming (sweep.book.orderPool.getObject x.frontIdx).price = false
        rw [price,crosses_incoming,beyond]; rfl
      rw [predict,view_front nonempty,Book.walk,if_pos (.inr stop),List.append_nil]
    · have filled := fillLevel_predict x.orderCount x sweep (by simpa using beyond) inv.toWf
      rw [← filled,predict_empty emptied]
      exact sweepLevels_predict L K _ (inv.fillLevel_emptied emptied)
    · have filled := fillLevel_predict x.orderCount x sweep (by simpa using beyond) inv.toWf
      have spent' := (fillLevel_enough taker x.orderCount x sweep (le_refl _)).resolve_left emptied
      rw [← filled,sweepLevels_spent taker L spent',predict_spent spent']

@[simp] theorem fillFront_capacity (taker : Taker) (level : PriceLevel) (sweep : Sweep) :
    (fillFront taker level sweep).2.book.orderPool.capacity = sweep.book.orderPool.capacity := by
  simp only [fillFront]
  split_ifs <;> simp [remove_relinked.capacity]

/-- A fill touches no slot off the front level's queue. -/
theorem fillFront_outside (wf : Wf (sweep.book.setLevels o (K ++ level :: rest)))
    (nonempty : 0 < level.orderCount) {j : Nat} (outside : j ∉ level.chain sweep.book.orderPool)
    (valid : j ≠ invalidPoolIndex) :
    (fillFront taker level sweep).2.book.orderPool.getObject j = sweep.book.orderPool.getObject j := by
  have queue := (wf.level_ok (levels_setLevels sweep.book o (K ++ level :: rest))).queue
  simp only [setLevels_orderPool] at queue
  have member := queue.front_mem nonempty
  have other : j ≠ level.frontIdx := fun same => outside (same ▸ member)
  simp only [fillFront]
  split_ifs
  · rw [ObjectPool.getObject_deallocate,remove_outside (queue.setQty _ _ _) member outside valid,
      ObjectPool.getObject_modifyObject,if_neg other]
  · simp [other]

/-- A fill leaves the taker's own side as it was. -/
theorem fillFront_view_own (wf : Wf (sweep.book.setLevels o (K ++ level :: rest)))
    (nonempty : 0 < level.orderCount) :
    view (fillFront taker level sweep).2.book.orderPool (sweep.book.levels (opposite o)) =
      view sweep.book.orderPool (sweep.book.levels (opposite o)) := by
  have position := levels_setLevels sweep.book o (K ++ level :: rest)
  have distinct := wf.split_nodup position
  simp only [others,setLevels_orderPool,levels_setLevels_opposite] at distinct
  refine view_congr fun j member => fillFront_outside wf nonempty
    (fun inChain => List.disjoint_of_nodup_append distinct inChain (by simp [member])) fun same => ?_
  obtain ⟨y,inSide,inChain⟩ := mem_sideSlots.mp member
  exact (wf.levels (opposite o) y (by simpa using inSide)).queue.valid (by simpa [same] using inChain)

/-- `match_order` is the abstract walk over the opposite side; the taker's side and the
pool's capacity stay. -/
theorem matchOrder_abstract (inv : Inv book) (taker : Taker) (qty : Int) :
    abstract (book.matchOrder taker qty).1 = (abstract book).setSide (opposite taker.side)
        (Book.walk taker.incoming qty ((abstract book).side (opposite taker.side))).2.2 ∧
      (book.matchOrder taker qty).2.1 = (Book.walk taker.incoming qty ((abstract book).side (opposite taker.side))).1 ∧
      (book.matchOrder taker qty).2.2 = (Book.walk taker.incoming qty ((abstract book).side (opposite taker.side))).2.1 := by
  have predicted : predict taker ⟨book,qty,[]⟩ (book.levels (opposite taker.side)) = _ :=
    sweepLevels_predict (o := opposite taker.side) _ [] _ (by simpa using inv)
  have own := (matchOrder_induct taker (fun sweep => view sweep.book.orderPool (sweep.book.levels taker.side) =
      view book.orderPool (book.levels taker.side) ∧ sweep.book.orderPool.capacity = book.orderPool.capacity)
    (fun _ _ _ _ wf nonempty held => by
      have same : view (fillFront taker _ _).2.book.orderPool _ = _ := fillFront_view_own wf nonempty
      simp only [opposite_opposite] at same
      simpa [same] using held) inv qty ⟨rfl,rfl⟩).2
  simp only [predict,List.nil_append,Prod.mk.injEq] at predicted
  rw [abstract_side]
  refine ⟨Book.ext_side (opposite taker.side) ?_ ?_ ?_,?_,?_⟩
  · simp [abstract_side,OrderBook.matchOrder,predicted.2.2]
  · simp only [sweepLevels_levels] at own
    simp [abstract_side,OrderBook.matchOrder,own.1]
  · simp [abstract,OrderBook.matchOrder,own.2]
  · simp [OrderBook.matchOrder,predicted.1]
  · simp [OrderBook.matchOrder,predicted.2.1]

end OrderBook

end ExchangeSim
