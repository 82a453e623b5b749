import ExchangeSim.Lob.Search

/-! `match_order` keeps the book well formed. The inner loop only fills the front order of
one level, so each of its iterations is a quantity change followed, for a filled maker, by
an unlink; the outer loop only erases emptied levels. Each fill either empties its maker or
the taker, so the level's order count is enough fuel (`fillLevel_enough`). While the sweep
runs the book's own opposite vector is stale: the sweep's view of the book is
`sweep.book.setLevels side (K ++ levels)`, `K` being the levels already passed. -/
namespace ExchangeSim

open PriceLevel

theorem PriceLevel.not_empty {level : PriceLevel} : level.empty = false ↔ 0 < level.orderCount := by
  simp [PriceLevel.empty,Nat.pos_iff_ne_zero]

theorem PriceLevel.Queue.front_mem {pool : ObjectPool Order} {level : PriceLevel} {L : List Nat}
    (queue : Queue pool level L) (nonempty : 0 < level.orderCount) : level.frontIdx ∈ L := by
  cases L with
  | nil => simp [queue.count] at nonempty
  | cons a L => simp [frontIdx,queue.head]

theorem PriceLevel.chain_setQty {pool : ObjectPool Order} (level : PriceLevel) (d : Int) (i : Nat)
    (q : Int) : (level.reduceQty d).chain (pool.modifyObject i fun o => { o with qtyRemaining := q }) =
      level.chain pool :=
  chainFrom_congr fun j _ => by by_cases same : j = i <;> simp [same]

namespace OrderBook

variable {book book' : OrderBook}

/-- `Wf` reads only the pool, the index and the two level vectors. -/
theorem Wf.congr (wf : Wf book) (same : book'.orderPool = book.orderPool ∧
    book'.orderMap = book.orderMap ∧ book'.bids = book.bids ∧ book'.asks = book.asks) :
    Wf book' := by
  obtain ⟨pool,map,bids,asks⟩ := same
  have slots : book'.linkedSlots = book.linkedSlots := by simp only [linkedSlots,pool,bids,asks]
  have levels : ∀ t, book'.levels t = book.levels t := by
    intro t; cases t
    · exact bids
    · exact asks
  refine ⟨pool ▸ wf.pool,fun t => levels t ▸ wf.sorted t,fun t => ?_,slots ▸ wf.distinct,
    fun i => ?_,fun k i => ?_⟩
  · rw [levels t,pool]; exact wf.levels t
  · rw [pool,slots]; exact wf.live i
  · rw [map,pool,slots]; exact wf.index k i

variable {taker : Taker} {o : Side} {K rest : List PriceLevel} {level : PriceLevel} {sweep : Sweep}

/-- What one fill can do to the front order: empty it or empty the taker. -/
theorem fillFront_progress (taker : Taker) (level : PriceLevel) (sweep : Sweep) :
    (fillFront taker level sweep).1.orderCount = level.orderCount - 1 ∨
      (fillFront taker level sweep).2.remaining = 0 := by
  simp only [fillFront]
  split_ifs with gone
  · exact .inl rfl
  · right
    simp only
    unfold wrap64 at gone ⊢
    omega

@[simp] theorem fillFront_price (taker : Taker) (level : PriceLevel) (sweep : Sweep) :
    (fillFront taker level sweep).1.price = level.price := by
  simp only [fillFront]
  split_ifs <;> rfl

@[simp] theorem fillFront_levels (taker : Taker) (level : PriceLevel) (sweep : Sweep) (t : Side) :
    (fillFront taker level sweep).2.book.levels t = sweep.book.levels t := by
  simp only [fillFront]
  split_ifs <;> cases t <;> rfl

@[simp] theorem fillLevel_levels (taker : Taker) (t : Side) :
    ∀ (n : Nat) (level : PriceLevel) (sweep : Sweep),
      (fillLevel taker n level sweep).2.book.levels t = sweep.book.levels t
  | 0, _, _ => rfl
  | n + 1, level, sweep => by
    simp only [fillLevel]
    split_ifs
    · rw [fillLevel_levels taker t n,fillFront_levels]
    · rfl

@[simp] theorem sweepLevels_levels (taker : Taker) (t : Side) :
    ∀ (L : List PriceLevel) (sweep : Sweep),
      (sweepLevels taker L sweep).2.book.levels t = sweep.book.levels t
  | [], _ => rfl
  | x :: L, sweep => by
    simp only [sweepLevels]
    split_ifs
    · rfl
    · rfl
    · rw [sweepLevels_levels taker t L,fillLevel_levels]
    · rw [sweepLevels_levels taker t L,fillLevel_levels]

@[simp] theorem matchOrder_levels (book : OrderBook) (taker : Taker) (qty : Int) :
    (book.matchOrder taker qty).1.levels (opposite taker.side) =
      (sweepLevels taker (book.levels (opposite taker.side)) ⟨book,qty,[]⟩).1 := by
  simp [OrderBook.matchOrder]

@[simp] theorem matchOrder_levels_taker (book : OrderBook) (taker : Taker) (qty : Int) :
    (book.matchOrder taker qty).1.levels taker.side = book.levels taker.side := by
  have := levels_setLevels_opposite
    (sweepLevels taker (book.levels (opposite taker.side)) ⟨book,qty,[]⟩).2.book (opposite taker.side)
    (sweepLevels taker (book.levels (opposite taker.side)) ⟨book,qty,[]⟩).1
  simp only [opposite_opposite,sweepLevels_levels] at this
  exact this

theorem fillFront_orderMap {taker : Taker} {level : PriceLevel} {sweep : Sweep} {k : Nat}
    (member : k ∈ (fillFront taker level sweep).2.book.orderMap) : k ∈ sweep.book.orderMap := by
  revert member
  simp only [fillFront]
  split_ifs
  · simp [AList.mem_erase]
  · exact id

theorem fillFront_trades (taker : Taker) (level : PriceLevel) (sweep : Sweep) :
    (fillFront taker level sweep).2.trades.length = sweep.trades.length + 1 := by
  simp only [fillFront]
  split_ifs <;> simp

/-- One fill keeps the sweep's view well formed; the level may be left empty. -/
theorem fillFront_wf (wf : Wf (sweep.book.setLevels o (K ++ level :: rest)))
    (nonempty : 0 < level.orderCount) :
    Wf ((fillFront taker level sweep).2.book.setLevels o (K ++ (fillFront taker level sweep).1 :: rest)) := by
  have position := levels_setLevels sweep.book o (K ++ level :: rest)
  have member := (wf.level_ok position).queue.front_mem nonempty
  simp only [setLevels_orderPool] at member
  have wf₁ := wf.setQty position (by simpa using member)
    (min sweep.remaining (sweep.book.orderPool.getObject level.frontIdx).qtyRemaining)
    (wrap64 ((sweep.book.orderPool.getObject level.frontIdx).qtyRemaining -
      min sweep.remaining (sweep.book.orderPool.getObject level.frontIdx).qtyRemaining)) (by rw [wrap64_wrap64,setLevels_orderPool])
  simp only [setLevels_orderPool,setLevels_orderMap] at wf₁
  simp only [fillFront]
  split_ifs
  · have wf₂ := wf₁.removeSlot (rebuild_levels _ _ _ _ _) (by simpa [chain_setQty] using member)
    exact wf₂.congr (by cases o <;> exact ⟨by simp,by simp,rfl,rfl⟩)
  · exact wf₁.congr (by cases o <;> exact ⟨rfl,rfl,rfl,rfl⟩)

theorem fillLevel_spent (taker : Taker) (n : Nat) (level : PriceLevel) {sweep : Sweep}
    (spent : sweep.remaining ≤ 0) : fillLevel taker n level sweep = (level,sweep) := by
  cases n with
  | zero => rfl
  | succ n => simp [fillLevel,Int.not_lt.mpr spent]

/-- The level's order count is enough fuel: the inner loop ends with the level or the taker
emptied. -/
theorem fillLevel_enough (taker : Taker) :
    ∀ (n : Nat) (level : PriceLevel) (sweep : Sweep), level.orderCount ≤ n →
      (fillLevel taker n level sweep).1.empty = true ∨ (fillLevel taker n level sweep).2.remaining ≤ 0
  | 0, level, sweep, bound => .inl (by simpa [PriceLevel.empty] using bound)
  | n + 1, level, sweep, bound => by
    simp only [fillLevel]
    split_ifs with going
    · rcases fillFront_progress taker level sweep with fewer | spent
      · exact fillLevel_enough taker n _ _ (by omega)
      · right
        rw [fillLevel_spent taker n _ (le_of_eq spent)]
        exact le_of_eq spent
    · simp only [not_and_or,Bool.not_eq_true',Bool.not_eq_false,not_lt] at going
      rcases going with spent | empty
      · exact .inr spent
      · exact .inl empty

section Induction

variable (taker : Taker) (o : Side) (P : Sweep → Prop)
  (step : ∀ (K rest : List PriceLevel) (level : PriceLevel) (sweep : Sweep),
    Wf (sweep.book.setLevels o (K ++ level :: rest)) → 0 < level.orderCount → P sweep →
      P (fillFront taker level sweep).2)
include step

/-- The inner loop keeps the view well formed and keeps any property each fill keeps. -/
theorem fillLevel_induct : ∀ (n : Nat) (level : PriceLevel) (sweep : Sweep),
    Wf (sweep.book.setLevels o (K ++ level :: rest)) → P sweep →
      Wf ((fillLevel taker n level sweep).2.book.setLevels o
        (K ++ (fillLevel taker n level sweep).1 :: rest)) ∧ P (fillLevel taker n level sweep).2
  | 0, _, _, wf, holds => ⟨wf,holds⟩
  | n + 1, level, sweep, wf, holds => by
    simp only [fillLevel]
    split_ifs with going
    · have nonempty := PriceLevel.not_empty.mp (by simpa using going.2)
      exact fillLevel_induct n _ _ (fillFront_wf wf nonempty) (step K rest level sweep wf nonempty holds)
    · exact ⟨wf,holds⟩

end Induction

/-- After the inner loop empties a level, the view without it keeps `Inv`. -/
theorem Inv.fillLevel_emptied {taker : Taker} {o : Side} {x : PriceLevel} {L K : List PriceLevel} {sweep : Sweep}
    (inv : Inv (sweep.book.setLevels o (K ++ x :: L)))
    (emptied : (fillLevel taker x.orderCount x sweep).1.empty = true) :
    Inv ((fillLevel taker x.orderCount x sweep).2.book.setLevels o (K ++ L)) := by
  have wf := (fillLevel_induct taker o (fun _ => True) (fun _ _ _ _ _ _ _ => trivial) x.orderCount x sweep
    inv.toWf trivial).1
  have wf' := wf.eraseEmpty (levels_setLevels _ _ _) (by simpa [PriceLevel.empty] using emptied)
  simp only [setLevels_setLevels] at wf'
  refine ⟨wf',fun t => ?_⟩
  rcases levels_cases o t with rfl | rfl
  · simp only [levels_setLevels]
    exact fun y member => inv.nonempty t y (by
      simp only [levels_setLevels,List.mem_append,List.mem_cons] at member ⊢
      exact member.imp_right .inr)
  · simpa using inv.nonempty (opposite o)

/-- After the inner loop leaves a level non-empty, the view keeps `Inv`. -/
theorem Inv.fillLevel_kept {taker : Taker} {o : Side} {x : PriceLevel} {L K : List PriceLevel} {sweep : Sweep}
    (inv : Inv (sweep.book.setLevels o (K ++ x :: L)))
    (kept : (fillLevel taker x.orderCount x sweep).1.empty = false) :
    Inv ((fillLevel taker x.orderCount x sweep).2.book.setLevels o
      (K ++ [(fillLevel taker x.orderCount x sweep).1] ++ L)) := by
  have wf := (fillLevel_induct taker o (fun _ => True) (fun _ _ _ _ _ _ _ => trivial) x.orderCount x sweep
    inv.toWf trivial).1
  have split : K ++ (fillLevel taker x.orderCount x sweep).1 :: L =
      K ++ [(fillLevel taker x.orderCount x sweep).1] ++ L := by simp
  rw [split] at wf
  refine ⟨wf,fun t => ?_⟩
  rcases levels_cases o t with rfl | rfl
  · simp only [levels_setLevels,← split,List.mem_append,List.mem_cons]
    rintro y (inK | rfl | inL)
    · exact inv.nonempty t y (by simp [inK])
    · exact PriceLevel.not_empty.mp kept
    · exact inv.nonempty t y (by simp [inL])
  · simpa using inv.nonempty (opposite o)

section Outer

variable (taker : Taker) (o : Side) (P : Sweep → Prop)
  (step : ∀ (K rest : List PriceLevel) (level : PriceLevel) (sweep : Sweep),
    Wf (sweep.book.setLevels o (K ++ level :: rest)) → 0 < level.orderCount → P sweep →
      P (fillFront taker level sweep).2)
include step

/-- The outer loop keeps the representation invariant of the view and any property each
fill keeps. -/
theorem sweepLevels_induct : ∀ (L K : List PriceLevel) (sweep : Sweep),
    Inv (sweep.book.setLevels o (K ++ L)) → P sweep →
      Inv ((sweepLevels taker L sweep).2.book.setLevels o (K ++ (sweepLevels taker L sweep).1)) ∧
        P (sweepLevels taker L sweep).2
  | [], _, _, inv, holds => ⟨inv,holds⟩
  | x :: L, K, sweep, inv, holds => by
    have holds' := (fillLevel_induct taker o P step x.orderCount x sweep inv.toWf holds).2
    simp only [sweepLevels]
    split_ifs with spent beyond emptied
    · exact ⟨inv,holds⟩
    · exact ⟨inv,holds⟩
    · exact sweepLevels_induct L K _ (inv.fillLevel_emptied emptied) holds'
    · have kept := Bool.eq_false_iff.mpr emptied
      have := sweepLevels_induct L _ _ (inv.fillLevel_kept kept) holds'
      simpa using this

end Outer

/-- `match_order` keeps the representation invariant and any property each fill keeps. -/
theorem matchOrder_induct (taker : Taker) (P : Sweep → Prop)
    (step : ∀ (K rest : List PriceLevel) (level : PriceLevel) (sweep : Sweep),
      Wf (sweep.book.setLevels (opposite taker.side) (K ++ level :: rest)) → 0 < level.orderCount →
        P sweep → P (fillFront taker level sweep).2)
    (inv : Inv book) (qty : Int) (holds : P ⟨book,qty,[]⟩) :
    Inv (book.matchOrder taker qty).1 ∧
      P (sweepLevels taker (book.levels (opposite taker.side)) ⟨book,qty,[]⟩).2 := by
  have start : Inv ((⟨book,qty,[]⟩ : Sweep).book.setLevels (opposite taker.side)
      ([] ++ book.levels (opposite taker.side))) := by simpa using inv
  exact sweepLevels_induct taker _ P step _ [] _ start holds

theorem fillFront_freeHead (wf : Wf (sweep.book.setLevels o (K ++ level :: rest)))
    (nonempty : 0 < level.orderCount)
    (free : 0 < (fillFront taker level sweep).2.remaining ∨
      sweep.book.orderPool.freeHead ≠ invalidPoolIndex) :
    (fillFront taker level sweep).2.book.orderPool.freeHead ≠ invalidPoolIndex := by
  have member := (wf.level_ok (levels_setLevels _ _ _)).queue.front_mem nonempty
  have live := wf.pool.ne_invalid ((wf.level_ok (levels_setLevels _ _ _)).live _ member)
  simp only [setLevels_orderPool] at live
  revert free
  simp only [fillFront]
  split_ifs with gone
  · simpa using fun _ => live
  · rintro (pos | free)
    · simp only at pos gone
      unfold wrap64 at pos gone
      omega
    · simpa using free

theorem fillLevel_trades_mono (taker : Taker) :
    ∀ (n : Nat) (level : PriceLevel) (sweep : Sweep),
      sweep.trades.length ≤ (fillLevel taker n level sweep).2.trades.length
  | 0, _, _ => le_refl _
  | n + 1, level, sweep => by
    simp only [fillLevel]
    split_ifs
    · calc sweep.trades.length ≤ (fillFront taker level sweep).2.trades.length := by
            rw [fillFront_trades]; omega
        _ ≤ _ := fillLevel_trades_mono taker n _ _
    · exact le_refl _

theorem sweepLevels_spent (taker : Taker) (L : List PriceLevel) {sweep : Sweep}
    (spent : sweep.remaining ≤ 0) : sweepLevels taker L sweep = (L,sweep) := by
  cases L with
  | nil => rfl
  | cons x L => simp [sweepLevels,spent]

theorem sweepLevels_trades_mono (taker : Taker) :
    ∀ (L : List PriceLevel) (sweep : Sweep),
      sweep.trades.length ≤ (sweepLevels taker L sweep).2.trades.length
  | [], _ => le_refl _
  | x :: L, sweep => by
    simp only [sweepLevels]
    split_ifs
    · exact le_refl _
    · exact le_refl _
    · exact (fillLevel_trades_mono taker _ x sweep).trans (sweepLevels_trades_mono taker L _)
    · exact (fillLevel_trades_mono taker _ x sweep).trans (sweepLevels_trades_mono taker L _)

/-- A sweep that reaches a crossing level with quantity left trades. -/
theorem sweepLevels_trades (taker : Taker) {x : PriceLevel} {L : List PriceLevel} {sweep : Sweep}
    (going : 0 < sweep.remaining) (crossing : beyondLimit taker x = false)
    (nonempty : 0 < x.orderCount) :
    sweep.trades.length < (sweepLevels taker (x :: L) sweep).2.trades.length := by
  obtain ⟨n,count⟩ : ∃ n, x.orderCount = n + 1 := ⟨x.orderCount - 1,by omega⟩
  have first : sweep.trades.length < (fillLevel taker x.orderCount x sweep).2.trades.length := by
    rw [count,fillLevel,if_pos ⟨going,by simp [PriceLevel.empty,count]⟩]
    calc sweep.trades.length < (fillFront taker x sweep).2.trades.length := by
          rw [fillFront_trades]; omega
      _ ≤ _ := fillLevel_trades_mono taker n _ _
  simp only [sweepLevels,if_neg (Int.not_le.mpr going),crossing,Bool.false_eq_true,if_false]
  split_ifs
  · exact first.trans_le (sweepLevels_trades_mono taker L _)
  · exact first.trans_le (sweepLevels_trades_mono taker L _)

/-- Without a trade the sweep leaves its levels and its state as they were. -/
theorem sweepLevels_no_trade (taker : Taker) {L : List PriceLevel} {sweep : Sweep}
    (nonempty : ∀ x ∈ L, 0 < x.orderCount)
    (none : (sweepLevels taker L sweep).2.trades.length = sweep.trades.length) :
    sweepLevels taker L sweep = (L,sweep) := by
  cases L with
  | nil => rfl
  | cons x L =>
    by_cases going : 0 < sweep.remaining
    · by_cases crossing : beyondLimit taker x = false
      · exact absurd none (sweepLevels_trades taker going crossing (nonempty x (by simp))).ne'
      · simp [sweepLevels,Int.not_le.mpr going,crossing]
    · exact sweepLevels_spent taker _ (Int.not_lt.mp going)

theorem fillLevel_price (taker : Taker) :
    ∀ (n : Nat) (level : PriceLevel) (sweep : Sweep), (fillLevel taker n level sweep).1.price = level.price
  | 0, _, _ => rfl
  | n + 1, level, sweep => by
    simp only [fillLevel]
    split_ifs
    · rw [fillLevel_price taker n,fillFront_price]
    · rfl

/-- The sweep only erases levels or changes their quantities, never their prices. -/
theorem sweepLevels_prices (taker : Taker) :
    ∀ (L : List PriceLevel) (sweep : Sweep),
      ((sweepLevels taker L sweep).1.map PriceLevel.price).Sublist (L.map PriceLevel.price)
  | [], _ => List.Sublist.refl _
  | x :: L, sweep => by
    simp only [sweepLevels]
    split_ifs
    · exact List.Sublist.refl _
    · exact List.Sublist.refl _
    · exact (sweepLevels_prices taker L _).cons _
    · simpa [fillLevel_price] using (sweepLevels_prices taker L _).cons₂ x.price

/-- A sweep left with quantity stopped at a level beyond the limit, or ran out of levels. -/
theorem sweepLevels_beyond (taker : Taker) :
    ∀ (L : List PriceLevel) (sweep : Sweep), 0 < (sweepLevels taker L sweep).2.remaining →
      ∀ x ∈ (sweepLevels taker L sweep).1.head?, beyondLimit taker x = true
  | [], _, _ => by simp [sweepLevels]
  | x :: L, sweep, going => by
    simp only [sweepLevels] at going ⊢
    split_ifs at going ⊢ with spent beyond emptied
    · simp at going; omega
    · simpa using beyond
    · exact sweepLevels_beyond taker L _ going
    · rcases fillLevel_enough taker x.orderCount x sweep (le_refl _) with empty | spent
      · simp_all
      · rw [sweepLevels_spent taker L spent] at going
        simp at going; omega

end OrderBook

end ExchangeSim
