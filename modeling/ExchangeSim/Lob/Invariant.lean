import ExchangeSim.Lob.OrderBook

/-! The representation invariant of `OrderBook`. `Wf` holds between any two statements of
an operation that leave the book consistent, with possibly an emptied level not yet erased;
`Inv` adds that no level is empty and holds between calls. Each operation is assembled
from four moves on one level: changing a linked order's quantity, unlinking and freeing an
order, erasing an empty level and linking a fresh order. -/
namespace ExchangeSim

namespace PriceLevel

/-- The slots read from `start` through `nextIdx`, `n` of them. -/
def chainFrom (pool : ObjectPool Order) : Nat → Nat → List Nat
  | 0, _ => []
  | n + 1, i => i :: chainFrom pool n (pool.getObject i).nextIdx

/-- The queue a level's `headIdx` and `orderCount` describe. -/
def chain (level : PriceLevel) (pool : ObjectPool Order) : List Nat :=
  chainFrom pool level.orderCount level.headIdx

variable {pool pool' : ObjectPool Order} {level : PriceLevel} {L : List Nat}

theorem chainFrom_of_linked {prev next : Nat} :
    ∀ {L : List Nat}, Linked pool prev L next → chainFrom pool L.length (L.head?.getD next) = L
  | [], _ => rfl
  | i :: rest, ⟨_,forward,linked⟩ => by
    simp only [List.length_cons,chainFrom,List.head?_cons,Option.getD_some,forward]
    rw [chainFrom_of_linked linked]

theorem Queue.chain_eq (queue : Queue pool level L) : level.chain pool = L := by
  rw [chain,queue.count,queue.head]
  exact chainFrom_of_linked queue.linked

theorem chainFrom_congr :
    ∀ {n i : Nat}, (∀ j ∈ chainFrom pool n i, (pool'.getObject j).nextIdx = (pool.getObject j).nextIdx) →
      chainFrom pool' n i = chainFrom pool n i
  | 0, _, _ => rfl
  | n + 1, i, same => by
    simp only [chainFrom] at same ⊢
    rw [same i (by simp),chainFrom_congr fun j member => same j (by simp [member])]

theorem Queue.congr (queue : Queue pool level L) (same : ∀ j ∈ L, SameLinks pool pool' j) :
    Queue pool' level L :=
  ⟨queue.linked.congr same,queue.head,queue.tail,queue.count,queue.distinct,queue.valid⟩

/-- The neighbours `remove` relinks lie on the queue, so slots off it are left alone. -/
theorem remove_storage_outside (queue : Queue pool level L) {i j : Nat} (member : i ∈ L)
    (outside : j ∉ L) (other : j ≠ i) : (level.remove pool i).2.storage j = pool.storage j := by
  obtain ⟨A,B,rfl⟩ := List.append_of_mem member
  have linked := queue.linked
  rw [linked_append] at linked
  simp only [List.head?_cons,Option.getD_some,Linked] at linked
  refine remove_storage_other ?_ ?_ other
  · rw [linked.2.1]
    rcases List.eq_nil_or_concat A with rfl | ⟨A₀,a,rfl⟩
    · simp
    · simp only [List.concat_eq_append,List.getLast?_concat,Option.getD_some]
      exact fun _ same => outside (by simp [same])
  · rw [linked.2.2.1]
    cases B with
    | nil => simp
    | cons b B => exact fun _ same => outside (by simp [same])

theorem remove_outside (queue : Queue pool level L) {i j : Nat} (member : i ∈ L) (outside : j ∉ L)
    (_ : j ≠ invalidPoolIndex) : (level.remove pool i).2.getObject j = pool.getObject j :=
  congrArg Entry.storage (remove_storage_outside queue member outside fun same => outside (same ▸ member))

end PriceLevel

namespace OrderBook

open PriceLevel

section Sides

variable (book : OrderBook) (s : Side) (levels : List PriceLevel)

@[simp] theorem levels_setLevels : (book.setLevels s levels).levels s = levels := by cases s <;> rfl

@[simp] theorem levels_setLevels_opposite :
    (book.setLevels s levels).levels (opposite s) = book.levels (opposite s) := by cases s <;> rfl

@[simp] theorem setLevels_orderPool : (book.setLevels s levels).orderPool = book.orderPool := by
  cases s <;> rfl

@[simp] theorem setLevels_orderMap : (book.setLevels s levels).orderMap = book.orderMap := by
  cases s <;> rfl

@[simp] theorem setLevels_totalTrades : (book.setLevels s levels).totalTrades = book.totalTrades := by
  cases s <;> rfl

@[simp] theorem setLevels_totalVolume :
    (book.setLevels s levels).totalVolume = book.totalVolume := by cases s <;> rfl

@[simp] theorem setLevels_setLevels (other : List PriceLevel) :
    (book.setLevels s levels).setLevels s other = book.setLevels s other := by cases s <;> rfl

@[simp] theorem setLevels_self : book.setLevels s (book.levels s) = book := by cases s <;> rfl

@[simp] theorem opposite_opposite : opposite (opposite s) = s := by cases s <;> rfl

theorem levels_cases (t : Side) : t = s ∨ t = opposite s := by cases s <;> cases t <;> simp [opposite]

end Sides

/-- Best first: bids by falling price, asks by rising price. -/
def better : Side → Int → Int → Prop
  | .buy, p, q => q < p
  | .sell, p, q => p < q

/-- A level of side `side` whose queue is `L`: live orders of its price and side, whose
quantities add up to `totalQty` in `int64_t`. -/
structure LevelOK (pool : ObjectPool Order) (side : Side) (level : PriceLevel) (L : List Nat) :
    Prop where
  queue : Queue pool level L
  live : ∀ i ∈ L, pool.inUse i = true
  price : ∀ i ∈ L, (pool.getObject i).price = level.price
  side : ∀ i ∈ L, (pool.getObject i).side = side
  total : level.totalQty = wrap64 (L.map fun i => (pool.getObject i).qtyRemaining).sum

/-- The slots linked on one side, level by level. -/
def sideSlots (pool : ObjectPool Order) (levels : List PriceLevel) : List Nat :=
  levels.flatMap fun level => level.chain pool

/-- The slots linked at some level, bids first. -/
def linkedSlots (book : OrderBook) : List Nat :=
  sideSlots book.orderPool book.bids ++ sideSlots book.orderPool book.asks

/-- Everything the representation keeps consistent; a level may be empty. -/
structure Wf (book : OrderBook) : Prop where
  pool : book.orderPool.Valid
  sorted : ∀ side, (book.levels side).Pairwise fun a b => better side a.price b.price
  levels : ∀ side, ∀ level ∈ book.levels side,
    LevelOK book.orderPool side level (level.chain book.orderPool)
  distinct : book.linkedSlots.Nodup
  live : ∀ i, book.orderPool.inUse i = true → i ∈ book.linkedSlots
  index : ∀ k i, book.orderMap.lookup k = some i ↔
    i ∈ book.linkedSlots ∧ (book.orderPool.getObject i).orderId = k

/-- The representation invariant: `Wf`, and every level holds an order. -/
structure Inv (book : OrderBook) extends Wf book : Prop where
  nonempty : ∀ side, ∀ level ∈ book.levels side, 0 < level.orderCount

theorem mem_sideSlots {pool : ObjectPool Order} {levels : List PriceLevel} {i : Nat} :
    i ∈ sideSlots pool levels ↔ ∃ level ∈ levels, i ∈ level.chain pool := by
  simp [sideSlots]

theorem mem_linkedSlots {book : OrderBook} {i : Nat} :
    i ∈ book.linkedSlots ↔ ∃ t, ∃ x ∈ book.levels t, i ∈ x.chain book.orderPool := by
  constructor
  · rw [linkedSlots,List.mem_append,mem_sideSlots,mem_sideSlots]
    rintro (⟨x,inSide,inChain⟩ | ⟨x,inSide,inChain⟩)
    · exact ⟨.buy,x,inSide,inChain⟩
    · exact ⟨.sell,x,inSide,inChain⟩
  · rintro ⟨t,x,inSide,inChain⟩
    cases t
    · exact List.mem_append_left _ (mem_sideSlots.mpr ⟨x,inSide,inChain⟩)
    · exact List.mem_append_right _ (mem_sideSlots.mpr ⟨x,inSide,inChain⟩)

@[simp] theorem sideSlots_cons (pool : ObjectPool Order) (level : PriceLevel)
    (levels : List PriceLevel) :
    sideSlots pool (level :: levels) = level.chain pool ++ sideSlots pool levels := rfl

@[simp] theorem sideSlots_append (pool : ObjectPool Order) (A B : List PriceLevel) :
    sideSlots pool (A ++ B) = sideSlots pool A ++ sideSlots pool B := by
  simp [sideSlots]

/-- `pool'` agrees with `pool` on slot `j`. -/
def Agrees (pool pool' : ObjectPool Order) (j : Nat) : Prop :=
  pool'.getObject j = pool.getObject j ∧ pool'.inUse j = pool.inUse j

section Frame

variable {pool pool' : ObjectPool Order} {side : Side} {level : PriceLevel} {L : List Nat}

theorem LevelOK.frame (ok : LevelOK pool side level L) (same : ∀ j ∈ L, Agrees pool pool' j) :
    LevelOK pool' side level L where
  queue := ok.queue.congr fun j member => by simp [SameLinks,(same j member).1]
  live j member := (same j member).2.trans (ok.live j member)
  price j member := by rw [(same j member).1]; exact ok.price j member
  side j member := by rw [(same j member).1]; exact ok.side j member
  total := by
    rw [ok.total]
    congr 2
    exact List.map_congr_left fun j member => by rw [(same j member).1]

theorem frame_side {levels : List PriceLevel}
    (ok : ∀ level ∈ levels, LevelOK pool side level (level.chain pool))
    (same : ∀ j ∈ sideSlots pool levels, Agrees pool pool' j) :
    sideSlots pool' levels = sideSlots pool levels ∧
      ∀ level ∈ levels, LevelOK pool' side level (level.chain pool') := by
  induction levels with
  | nil => exact ⟨rfl,by simp⟩
  | cons level rest ih =>
    simp only [sideSlots_cons,List.mem_append] at same
    have moved := (ok level (by simp)).frame fun j member => same j (.inl member)
    have chain := moved.queue.chain_eq
    obtain ⟨slots,others⟩ := ih (fun x member => ok x (by simp [member]))
      fun j member => same j (.inr member)
    refine ⟨by simp [chain,slots],?_⟩
    rintro x (_ | ⟨_,member⟩)
    · rwa [chain]
    · exact others x member

end Frame

theorem sum_update {f g : Nat → Int} {i : Nat} :
    ∀ {L : List Nat}, i ∈ L → L.Nodup → (∀ j ∈ L, j ≠ i → g j = f j) →
      (L.map g).sum = (L.map f).sum - f i + g i
  | [], member, _, _ => by simp at member
  | j :: rest, member, distinct, same => by
    obtain ⟨fresh,distinct⟩ := List.nodup_cons.mp distinct
    by_cases here : j = i
    · subst here
      have rest_same : (rest.map g).sum = (rest.map f).sum :=
        congrArg List.sum (List.map_congr_left fun k inside =>
          same k (by simp [inside]) (fun e => fresh (e ▸ inside)))
      simp [rest_same]; omega
    · have inside : i ∈ rest := by simpa [Ne.symm here] using member
      have head := same j (by simp) here
      have tail := sum_update inside distinct fun k inside' => same k (by simp [inside'])
      simp only [List.map_cons,List.sum_cons,head,tail]; omega

/-- A level's quantity after one of its orders is set to `q`. -/
theorem sum_setQty {pool : ObjectPool Order} {i : Nat} {L : List Nat} (member : i ∈ L)
    (distinct : L.Nodup) (q : Int) :
    (L.map fun j => ((pool.modifyObject i fun o => { o with qtyRemaining := q }).getObject j).qtyRemaining).sum =
      (L.map fun j => (pool.getObject j).qtyRemaining).sum - (pool.getObject i).qtyRemaining + q := by
  rw [sum_update (f := fun j => (pool.getObject j).qtyRemaining) member distinct
    fun j _ other => by simp [other]]
  simp

theorem sum_erase {f : Nat → Int} {i : Nat} {L : List Nat} (member : i ∈ L) :
    ((L.erase i).map f).sum = (L.map f).sum - f i := by
  have := ((List.perm_cons_erase member).map f).sum_eq
  simp only [List.map_cons,List.sum_cons] at this
  omega

theorem linkedSlots_perm (book : OrderBook) (s : Side) :
    book.linkedSlots.Perm (sideSlots book.orderPool (book.levels s) ++
      sideSlots book.orderPool (book.levels (opposite s))) := by
  cases s
  · rfl
  · exact List.perm_append_comm

/-- `book` with side `s` holding `levels` over `pool` and `orderMap`. -/
def rebuild (book : OrderBook) (s : Side) (levels : List PriceLevel) (pool : ObjectPool Order)
    (orderMap : AList fun _ : Nat => Nat) : OrderBook :=
  { book.setLevels s levels with orderPool := pool, orderMap := orderMap }

section Rebuild

variable (book : OrderBook) (s : Side) (levels : List PriceLevel) (pool : ObjectPool Order)
  (orderMap : AList fun _ : Nat => Nat)

@[simp] theorem rebuild_orderPool : (book.rebuild s levels pool orderMap).orderPool = pool := rfl

@[simp] theorem rebuild_orderMap : (book.rebuild s levels pool orderMap).orderMap = orderMap := rfl

@[simp] theorem rebuild_totalTrades :
    (book.rebuild s levels pool orderMap).totalTrades = book.totalTrades := by cases s <;> rfl

@[simp] theorem rebuild_totalVolume :
    (book.rebuild s levels pool orderMap).totalVolume = book.totalVolume := by cases s <;> rfl

@[simp] theorem rebuild_levels : (book.rebuild s levels pool orderMap).levels s = levels := by
  cases s <;> rfl

@[simp] theorem rebuild_levels_opposite :
    (book.rebuild s levels pool orderMap).levels (opposite s) = book.levels (opposite s) := by
  cases s <;> rfl

@[simp] theorem setLevels_rebuild (other : List PriceLevel) :
    (book.rebuild s levels pool orderMap).setLevels s other = book.rebuild s other pool orderMap := by
  cases s <;> rfl

@[simp] theorem rebuild_setLevels (other : List PriceLevel) :
    (book.setLevels s other).rebuild s levels pool orderMap = book.rebuild s levels pool orderMap := by
  cases s <;> rfl

theorem linkedSlots_rebuild :
    (book.rebuild s levels pool orderMap).linkedSlots.Perm
      (sideSlots pool levels ++ sideSlots pool (book.levels (opposite s))) := by
  simpa using linkedSlots_perm (book.rebuild s levels pool orderMap) s

end Rebuild

/-- The slots linked outside the level at `A ++ level :: B` on side `s`. -/
def others (book : OrderBook) (s : Side) (A B : List PriceLevel) : List Nat :=
  sideSlots book.orderPool A ++ sideSlots book.orderPool B ++
    sideSlots book.orderPool (book.levels (opposite s))

section Moves

variable {book : OrderBook} {s : Side} {A B : List PriceLevel} {level : PriceLevel}

theorem linkedSlots_split (position : book.levels s = A ++ level :: B) :
    book.linkedSlots.Perm (level.chain book.orderPool ++ book.others s A B) := by
  refine (linkedSlots_perm book s).trans ?_
  rw [position,others]
  simp only [sideSlots_append,sideSlots_cons,List.append_assoc]
  exact List.perm_append_comm_assoc _ _ _

theorem Wf.sideOK (wf : Wf book) (t : Side) :
    ∀ x ∈ book.levels t, LevelOK book.orderPool t x (x.chain book.orderPool) := wf.levels t

/-- One level of side `s` replaced by `level'` over a pool that agrees off its queue: the
book stays well formed when the new queue `L'` and the rest satisfy the global clauses. -/
theorem Wf.move (wf : Wf book) (position : book.levels s = A ++ level :: B)
    {pool' : ObjectPool Order} {level' : PriceLevel} {L' : List Nat}
    {orderMap' : AList fun _ : Nat => Nat} (valid : pool'.Valid)
    (agrees : ∀ j ∈ book.others s A B, Agrees book.orderPool pool' j)
    (price : level'.price = level.price) (ok : LevelOK pool' s level' L')
    (distinct : (L' ++ book.others s A B).Nodup)
    (live : ∀ i, pool'.inUse i = true → i ∈ L' ++ book.others s A B)
    (index : ∀ k i, orderMap'.lookup k = some i ↔
      i ∈ L' ++ book.others s A B ∧ (pool'.getObject i).orderId = k) :
    Wf (book.rebuild s (A ++ level' :: B) pool' orderMap') := by
  have sideOK : ∀ x ∈ A ++ level :: B, LevelOK book.orderPool s x (x.chain book.orderPool) :=
    position ▸ wf.levels s
  have inA : ∀ x ∈ A, LevelOK book.orderPool s x (x.chain book.orderPool) :=
    fun x member => sideOK x (by simp [member])
  have inB : ∀ x ∈ B, LevelOK book.orderPool s x (x.chain book.orderPool) :=
    fun x member => sideOK x (by simp [member])
  obtain ⟨slotsA,okA⟩ := frame_side inA fun j member => agrees j (by simp [others,member])
  obtain ⟨slotsB,okB⟩ := frame_side inB fun j member => agrees j (by simp [others,member])
  obtain ⟨slotsO,okO⟩ := frame_side (wf.levels (opposite s))
    fun j member => agrees j (by simp [others,member])
  have chain := ok.queue.chain_eq
  have slots : (book.rebuild s (A ++ level' :: B) pool' orderMap').linkedSlots.Perm
      (L' ++ book.others s A B) := by
    refine (linkedSlots_rebuild _ _ _ _ _).trans ?_
    simp only [sideSlots_append,sideSlots_cons,chain,slotsA,slotsB,slotsO,others,
      List.append_assoc]
    exact List.perm_append_comm_assoc _ _ _
  refine ⟨by simpa using valid,fun t => ?_,fun t => ?_,slots.nodup_iff.mpr distinct,
    fun i used => slots.mem_iff.mpr (live i used),fun k i => ?_⟩
  · rcases levels_cases s t with rfl | rfl
    · have sorted := wf.sorted t
      rw [position] at sorted
      simp only [rebuild_levels]
      rw [← List.pairwise_map (R := better t)] at sorted ⊢
      simpa [price] using sorted
    · simpa using wf.sorted (opposite s)
  · rcases levels_cases s t with rfl | rfl
    · simp only [rebuild_levels,rebuild_orderPool,List.mem_append,List.mem_cons]
      rintro x (inA | rfl | inB)
      · exact okA x inA
      · rw [chain]; exact ok
      · exact okB x inB
    · simpa using okO
  · simpa using (index k i).trans (and_congr_left' slots.mem_iff.symm)

/-- Side `s` rearranged without moving an order: the book stays well formed. -/
theorem Wf.setSide (wf : Wf book) {levels : List PriceLevel}
    (sorted : levels.Pairwise fun a b => better s a.price b.price)
    (ok : ∀ x ∈ levels, LevelOK book.orderPool s x (x.chain book.orderPool))
    (slots : sideSlots book.orderPool levels = sideSlots book.orderPool (book.levels s)) :
    Wf (book.setLevels s levels) := by
  have perm : (book.setLevels s levels).linkedSlots.Perm book.linkedSlots := by
    refine (linkedSlots_perm _ s).trans ?_
    simpa [slots] using (linkedSlots_perm book s).symm
  refine ⟨by simpa using wf.pool,fun t => ?_,fun t => ?_,perm.nodup_iff.mpr wf.distinct,
    fun i used => perm.mem_iff.mpr (wf.live i (by simpa using used)),fun k i => ?_⟩
  · rcases levels_cases s t with rfl | rfl
    · simpa using sorted
    · simpa using wf.sorted (opposite s)
  · rcases levels_cases s t with rfl | rfl
    · simpa using ok
    · simpa using wf.levels (opposite s)
  · simpa using (wf.index k i).trans (and_congr_left' perm.mem_iff.symm)

theorem chain_of_count_zero {pool : ObjectPool Order} {x : PriceLevel} (empty : x.orderCount = 0) :
    x.chain pool = [] := by
  simp [PriceLevel.chain,empty,chainFrom]

/-- `erase` of an emptied level. -/
theorem Wf.eraseEmpty (wf : Wf book) (position : book.levels s = A ++ level :: B)
    (empty : level.orderCount = 0) : Wf (book.setLevels s (A ++ B)) := by
  have sorted := wf.sorted s
  have ok := wf.levels s
  rw [position] at sorted ok
  have sub : (A ++ B).Sublist (A ++ level :: B) := (List.sublist_cons_self level B).append_left A
  refine wf.setSide (sorted.sublist sub) (fun x member => ok x (sub.subset member)) ?_
  simp [position,chain_of_count_zero empty]

theorem levelOK_new (pool : ObjectPool Order) (s : Side) (p : Int) :
    LevelOK pool s (PriceLevel.new p) [] where
  queue := ⟨trivial,rfl,rfl,rfl,List.nodup_nil,by simp⟩
  live := by simp
  price := by simp
  side := by simp
  total := rfl

/-- `insert` of a fresh level where it keeps the side sorted. -/
theorem Wf.insertEmpty (wf : Wf book) (position : book.levels s = A ++ B) (p : Int)
    (sorted : (A ++ PriceLevel.new p :: B).Pairwise fun a b => better s a.price b.price) :
    Wf (book.setLevels s (A ++ PriceLevel.new p :: B)) := by
  have ok := wf.levels s
  rw [position] at ok
  have chain : (PriceLevel.new p).chain book.orderPool = [] := (levelOK_new _ s p).queue.chain_eq
  refine wf.setSide sorted (fun x member => ?_) (by simp [position,chain])
  simp only [List.mem_append,List.mem_cons] at member
  rcases member with inA | rfl | inB
  · exact ok x (by simp [inA])
  · rw [chain]; exact levelOK_new _ s p
  · exact ok x (by simp [inB])

theorem Wf.others_live (wf : Wf book) (position : book.levels s = A ++ level :: B) {j : Nat}
    (member : j ∈ level.chain book.orderPool ++ book.others s A B) :
    book.orderPool.inUse j = true := by
  obtain ⟨t,x,inSide,inChain⟩ := mem_linkedSlots.mp ((linkedSlots_split position).mem_iff.mpr member)
  exact (wf.levels t x inSide).live j inChain

theorem Wf.split_nodup (wf : Wf book) (position : book.levels s = A ++ level :: B) :
    (level.chain book.orderPool ++ book.others s A B).Nodup :=
  (linkedSlots_split position).nodup_iff.mp wf.distinct

theorem Wf.level_ok (wf : Wf book) (position : book.levels s = A ++ level :: B) :
    LevelOK book.orderPool s level (level.chain book.orderPool) :=
  wf.levels s level (by simp [position])

/-- Setting a linked order's quantity to `q` and lowering its level's `totalQty` by `d`, where
`q` is the order's quantity less `d` in `int64_t`. -/
theorem Wf.setQty (wf : Wf book) (position : book.levels s = A ++ level :: B) {i : Nat}
    (member : i ∈ level.chain book.orderPool) (d q : Int)
    (lowered : wrap64 ((book.orderPool.getObject i).qtyRemaining - d) = wrap64 q) :
    Wf (book.rebuild s
      (A ++ level.reduceQty d :: B)
      (book.orderPool.modifyObject i fun o => { o with qtyRemaining := q }) book.orderMap) := by
  have ok := wf.level_ok position
  have distinct := wf.split_nodup position
  have perm := linkedSlots_split position
  have apart : ∀ j ∈ book.others s A B, j ≠ i := fun j inside same =>
    List.disjoint_of_nodup_append distinct member (same ▸ inside)
  have queue : Queue (book.orderPool.modifyObject i fun o => { o with qtyRemaining := q }) level
      (level.chain book.orderPool) :=
    ok.queue.congr fun j _ => by by_cases same : j = i <;> simp [SameLinks,same]
  refine wf.move position (wf.pool.modifyObject i _) (fun j inside => ?_) rfl ⟨?_,?_,?_,?_,?_⟩
    distinct (fun j used => ?_) (fun k j => ?_)
  · simp [Agrees,apart j inside]
  · exact ⟨queue.linked,queue.head,queue.tail,queue.count,queue.distinct,queue.valid⟩
  · intro j inside; simpa using ok.live j inside
  · intro j inside; by_cases same : j = i <;> simp [same,ok.price j inside,PriceLevel.reduceQty]
    exact same ▸ ok.price i member
  · intro j inside; by_cases same : j = i <;> simp [same,ok.side j inside]
    exact same ▸ ok.side i member
  · show wrap64 (level.totalQty - d) = _
    rw [sum_setQty member ok.queue.distinct,ok.total,wrap64_wrap64_sub]
    unfold wrap64 at lowered ⊢
    omega
  · exact perm.mem_iff.mp (wf.live j (by simpa using used))
  · by_cases same : j = i
    · subst same; simpa using (wf.index k j).trans (and_congr_left' perm.mem_iff)
    · simpa [same] using (wf.index k j).trans (and_congr_left' perm.mem_iff)

/-- Unlinking a linked order, freeing its slot and dropping its id from the index. -/
theorem Wf.removeSlot (wf : Wf book) (position : book.levels s = A ++ level :: B) {i : Nat}
    (member : i ∈ level.chain book.orderPool) :
    Wf (book.rebuild s (A ++ (level.remove book.orderPool i).1 :: B)
      ((level.remove book.orderPool i).2.deallocate i)
      (book.orderMap.erase (book.orderPool.getObject i).orderId)) := by
  have ok := wf.level_ok position
  have distinct := wf.split_nodup position
  have perm := linkedSlots_split position
  have relinked : Relinked book.orderPool (level.remove book.orderPool i).2 := remove_relinked
  have apart : ∀ j ∈ book.others s A B, j ∉ level.chain book.orderPool := fun j inside mem =>
    List.disjoint_of_nodup_append distinct mem inside
  have unique : ∀ j ∈ level.chain book.orderPool ++ book.others s A B,
      (book.orderPool.getObject j).orderId = (book.orderPool.getObject i).orderId → j = i :=
    fun j inside same => Option.some.inj <|
      ((wf.index _ j).mpr ⟨perm.mem_iff.mpr inside,same⟩).symm.trans
        ((wf.index _ i).mpr ⟨perm.mem_iff.mpr (by simp [member]),rfl⟩)
  have erased : ∀ {j}, j ≠ i → (j ∈ (level.chain book.orderPool).erase i ++ book.others s A B ↔
      j ∈ level.chain book.orderPool ++ book.others s A B) := fun other => by
    simp [List.mem_erase_of_ne other]
  refine wf.move position ((relinked.valid wf.pool).deallocate (by
      rw [relinked.inUse]; exact ok.live i member)) (fun j inside => ?_) rfl ⟨?_,?_,?_,?_,?_⟩
    (distinct.sublist ((List.erase_sublist i _).append_right _)) (fun j used => ?_) (fun k j => ?_)
  · have other : j ≠ i := fun same => apart j inside (same ▸ member)
    simp only [Agrees,ObjectPool.getObject_deallocate,ObjectPool.inUse_deallocate,other,if_false,relinked.inUse]
    exact ⟨remove_outside ok.queue member (apart j inside)
      (wf.pool.ne_invalid (wf.others_live position (by simp [inside]))),trivial⟩
  · exact (remove_queue ok.queue member).congr fun j _ => by simp [SameLinks]
  · intro j inside
    obtain ⟨other,inside⟩ := ok.queue.distinct.mem_erase_iff.mp inside
    simpa [other,relinked.inUse] using ok.live j inside
  · intro j inside
    simpa [relinked.price] using ok.price j (List.mem_of_mem_erase inside)
  · intro j inside
    simpa [relinked.side] using ok.side j (List.mem_of_mem_erase inside)
  · simp only [remove_totalQty,ObjectPool.getObject_deallocate,relinked.qtyRemaining,sum_erase member,ok.total,
      wrap64_wrap64_sub]
  · simp only [ObjectPool.inUse_deallocate,relinked.inUse] at used
    split_ifs at used with other
    exact (erased other).mpr (perm.mem_iff.mp (wf.live j used))
  · simp only [ObjectPool.getObject_deallocate,relinked.orderId]
    by_cases same : k = (book.orderPool.getObject i).orderId
    · subst same
      rw [AList.lookup_erase]
      refine iff_of_false (by simp) fun ⟨inside,sameId⟩ => ?_
      have := unique j ((List.Sublist.append_right (List.erase_sublist i _) _).subset inside) sameId
      subst this
      rcases List.mem_append.mp inside with inside | inside
      · exact ok.queue.distinct.not_mem_erase inside
      · exact apart j inside member
    · rw [AList.lookup_erase_ne same,wf.index,perm.mem_iff]
      constructor
      · rintro ⟨inside,rfl⟩
        exact ⟨(erased fun other => same (other ▸ rfl)).mpr inside,rfl⟩
      · rintro ⟨inside,rfl⟩
        exact ⟨(erased fun other => same (other ▸ rfl)).mp inside,rfl⟩

/-- Linking `order` from the pool's free head at the back of a level of its side and price,
and indexing it by its id. -/
theorem Wf.pushSlot (wf : Wf book) (position : book.levels s = A ++ level :: B)
    (available : book.orderPool.freeHead ≠ invalidPoolIndex) {order : Order}
    (side : order.side = s) (price : order.price = level.price)
    (fresh : order.orderId ∉ book.orderMap) :
    Wf (book.rebuild s
      (A ++ (level.pushBack (book.orderPool.taken order) book.orderPool.freeHead).1 :: B)
      (level.pushBack (book.orderPool.taken order) book.orderPool.freeHead).2
      (book.orderMap.insert order.orderId book.orderPool.freeHead)) := by
  have ok := wf.level_ok position
  have distinct := wf.split_nodup position
  have perm := linkedSlots_split position
  have unused := (wf.pool.freeHead_free available).2
  have apart : ∀ j ∈ level.chain book.orderPool ++ book.others s A B, j ≠ book.orderPool.freeHead :=
    fun j inside same => by simp [← same,wf.others_live position inside] at unused
  have queue : Queue (book.orderPool.taken order) level (level.chain book.orderPool) :=
    ok.queue.congr fun j inside => by simp [SameLinks,apart j (by simp [inside])]
  have relinked : Relinked (book.orderPool.taken order)
      (level.pushBack (book.orderPool.taken order) book.orderPool.freeHead).2 := pushBack_relinked
  have outside : book.orderPool.freeHead ∉ level.chain book.orderPool ++ book.others s A B :=
    fun inside => apart _ inside rfl
  refine wf.move position (relinked.valid (wf.pool.taken available order)) (fun j inside => ?_) rfl
    ⟨pushBack_queue queue (fun inside => outside (by simp [inside])) available,?_,?_,?_,?_⟩ ?_
    (fun j used => ?_) (fun k j => ?_)
  · have other := apart j (by simp [inside])
    refine ⟨?_,by simp [relinked.inUse,other]⟩
    rw [pushBack_other queue (List.disjoint_of_nodup_append distinct · inside |> fun h => h) other]
    simp [other]
  · intro j inside
    rcases List.mem_append.mp inside with inside | same
    · simp [relinked.inUse,apart j (by simp [inside]),ok.live j inside]
    · simp [relinked.inUse,List.eq_of_mem_singleton same]
  · intro j inside
    rcases List.mem_append.mp inside with inside | same
    · simp [relinked.price,apart j (by simp [inside]),ok.price j inside]
    · simp [relinked.price,List.eq_of_mem_singleton same,price]
  · intro j inside
    rcases List.mem_append.mp inside with inside | same
    · simp [relinked.side,apart j (by simp [inside]),ok.side j inside]
    · simp [relinked.side,List.eq_of_mem_singleton same,side]
  · have rest : ((level.chain book.orderPool).map fun j =>
        ((level.pushBack (book.orderPool.taken order) book.orderPool.freeHead).2.getObject j).qtyRemaining) =
        (level.chain book.orderPool).map fun j => (book.orderPool.getObject j).qtyRemaining :=
      List.map_congr_left fun j inside => by simp [relinked.qtyRemaining,apart j (by simp [inside])]
    rw [pushBack_totalQty,List.map_append,List.sum_append,rest,ok.total,wrap64_wrap64_add]
    simp [relinked.qtyRemaining]
  · rw [List.append_assoc,List.singleton_append,List.nodup_middle,List.nodup_cons]
    exact ⟨outside,distinct⟩
  · by_cases same : j = book.orderPool.freeHead
    · simp [same]
    · have := perm.mem_iff.mp (wf.live j (by simpa [relinked.inUse,same] using used))
      simp only [List.mem_append] at this ⊢
      exact this.imp_left .inl
  · have orderId : ∀ j, ((level.pushBack (book.orderPool.taken order) book.orderPool.freeHead).2.getObject j).orderId =
        if j = book.orderPool.freeHead then order.orderId else (book.orderPool.getObject j).orderId :=
      fun j => by rw [relinked.orderId]; split_ifs <;> simp [*]
    by_cases same : k = order.orderId
    · subst same
      rw [AList.lookup_insert,orderId]
      constructor
      · rintro ⟨⟩; simp
      · rintro ⟨inside,found⟩
        by_cases here : j = book.orderPool.freeHead
        · rw [here]
        · simp only [here,if_false] at found
          have inside : j ∈ level.chain book.orderPool ++ book.others s A B := by
            simpa [here] using inside
          exact absurd (AList.lookup_isSome.mp (by
            rw [(wf.index _ j).mpr ⟨perm.mem_iff.mpr inside,found⟩]; rfl)) fresh
    · rw [AList.lookup_insert_ne same,wf.index,perm.mem_iff,orderId]
      by_cases here : j = book.orderPool.freeHead
      · simp only [here,if_true]
        exact iff_of_false (fun ⟨inside,_⟩ => outside inside) fun ⟨_,found⟩ => same found.symm
      · simp [here]

end Moves

end OrderBook

namespace PriceLevel

/-- `push_back` and `remove` on a level whose queue is `L` and whose `total_qty` adds up the
quantities on it in `int64_t`. Appending a fresh slot gives the queue `L ++ [i]`; removing a
slot of `L` gives `L` without it, in order, and leaves the slot unlinked. The total moves by the
slot's quantity in `int64_t` and still adds up the queue, the count follows, only links change,
and no slot off `L` and `i` is written. -/
theorem queue_discipline {pool : ObjectPool Order} {level : PriceLevel} {L : List Nat}
    (queue : Queue pool level L)
    (total : level.totalQty = wrap64 (L.map fun j => (pool.getObject j).qtyRemaining).sum) (i : Nat) :
    (i ∉ L → i ≠ invalidPoolIndex →
      Queue (level.pushBack pool i).2 (level.pushBack pool i).1 (L ++ [i]) ∧
      (level.pushBack pool i).1.chain (level.pushBack pool i).2 = L ++ [i] ∧
      (level.pushBack pool i).1.totalQty = wrap64 (level.totalQty + (pool.getObject i).qtyRemaining) ∧
      (level.pushBack pool i).1.totalQty =
        wrap64 ((L ++ [i]).map fun j => ((level.pushBack pool i).2.getObject j).qtyRemaining).sum ∧
      (level.pushBack pool i).1.orderCount = level.orderCount + 1 ∧
      Relinked pool (level.pushBack pool i).2 ∧
      ∀ j, j ∉ L → j ≠ i → (level.pushBack pool i).2.storage j = pool.storage j) ∧
    (i ∈ L →
      Queue (level.remove pool i).2 (level.remove pool i).1 (L.erase i) ∧
      (level.remove pool i).1.chain (level.remove pool i).2 = L.erase i ∧
      (level.remove pool i).1.totalQty = wrap64 (level.totalQty - (pool.getObject i).qtyRemaining) ∧
      (level.remove pool i).1.totalQty =
        wrap64 ((L.erase i).map fun j => ((level.remove pool i).2.getObject j).qtyRemaining).sum ∧
      (level.remove pool i).1.orderCount + 1 = level.orderCount ∧
      ((level.remove pool i).2.getObject i).prevIdx = invalidPoolIndex ∧
      ((level.remove pool i).2.getObject i).nextIdx = invalidPoolIndex ∧
      Relinked pool (level.remove pool i).2 ∧
      ∀ j, j ∉ L → j ≠ i → (level.remove pool i).2.storage j = pool.storage j) := by
  constructor
  · intro fresh slot
    have pushed := pushBack_queue queue fresh slot
    have relinked : Relinked pool (level.pushBack pool i).2 := pushBack_relinked
    refine ⟨pushed,pushed.chain_eq,rfl,?_,rfl,relinked,fun j => pushBack_storage_other queue⟩
    simp [relinked.qtyRemaining,total,wrap64_wrap64_add]
  · intro member
    have removed := remove_queue queue member
    have relinked : Relinked pool (level.remove pool i).2 := remove_relinked
    have nonempty := List.length_pos_of_mem member
    refine ⟨removed,removed.chain_eq,rfl,?_,?_,remove_unlinked.1,remove_unlinked.2,relinked,
      fun j => remove_storage_outside queue member⟩
    · simp [relinked.qtyRemaining,total,OrderBook.sum_erase member,wrap64_wrap64_sub]
    · simp only [remove_orderCount,queue.count]
      omega

/-- Three orders pushed, the middle one removed and pushed again. -/
theorem queue_discipline_mid_chain :
    let pool : ObjectPool Order := (((ObjectPool.new 4).taken ⟨1,0,.buy,100,5,5,invalidPoolIndex,invalidPoolIndex⟩).taken
      ⟨2,0,.buy,100,7,7,invalidPoolIndex,invalidPoolIndex⟩).taken ⟨3,0,.buy,100,9,9,invalidPoolIndex,invalidPoolIndex⟩
    let first := (PriceLevel.new 100).pushBack pool 0
    let second := first.1.pushBack first.2 1
    let third := second.1.pushBack second.2 2
    let removed := third.1.remove third.2 1
    let again := removed.1.pushBack removed.2 1
    removed.1.chain removed.2 = [0,2] ∧ removed.1.totalQty = 14 ∧ again.1.chain again.2 = [0,2,1] ∧
      again.1.totalQty = 21 := by
  intro pool first second third removed again
  have empty : Queue pool (PriceLevel.new 100) [] := ⟨trivial,rfl,rfl,rfl,List.nodup_nil,List.not_mem_nil _⟩
  have pushed₁ := (queue_discipline empty rfl 0).1 (by decide) (by decide)
  have pushed₂ := (queue_discipline pushed₁.1 pushed₁.2.2.2.1 1).1 (by decide) (by decide)
  have pushed₃ := (queue_discipline pushed₂.1 pushed₂.2.2.2.1 2).1 (by decide) (by decide)
  have dropped := (queue_discipline pushed₃.1 pushed₃.2.2.2.1 1).2 (by decide)
  have readded := (queue_discipline dropped.1 dropped.2.2.2.1 1).1 (by decide) (by decide)
  exact ⟨dropped.2.1,by rw [dropped.2.2.1]; decide,readded.2.1,by rw [readded.2.2.1]; decide⟩

/-- An order of quantity 1 pushed behind one of `INT64_MAX`: the `int64_t` total wraps to
`INT64_MIN` where the sum is `2^63`. -/
theorem push_back_total_wraps :
    let pool : ObjectPool Order := ((ObjectPool.new 4).taken
      ⟨1,0,.buy,100,9223372036854775807,9223372036854775807,invalidPoolIndex,invalidPoolIndex⟩).taken
        ⟨2,0,.buy,100,1,1,invalidPoolIndex,invalidPoolIndex⟩
    let first := (PriceLevel.new 100).pushBack pool 0
    let second := first.1.pushBack first.2 1
    second.1.totalQty = -9223372036854775808 ∧
      first.1.totalQty + (first.2.getObject 1).qtyRemaining = 9223372036854775808 := by
  decide

end PriceLevel

end ExchangeSim
