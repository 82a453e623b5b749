import Mathlib.Data.BitVec
import Mathlib.Data.List.Range
import Mathlib.Algebra.Order.Ring.Nat
import ExchangeSim.Types
import ExchangeSim.Concurrency.SpscSemaphoreQueue

/-! `Trader` (`trader.hpp`): the loop of `run` and `generate_order`, with the random draws as
inputs. A draw of `unit_dist` enters only through its comparisons with the configured
probabilities, so a `Draw` holds the outcomes of those comparisons; `idx_dist` picks some index
of `sent_order_ids_`, and the quantity and the price are some values of their distributions.
A stop request ends the list of draws. Pinning, the rate limit's sleeps and `running_` change
no modelled state. `main` gives trader `i` the ids that follow those of trader `i - 1`. -/
namespace ExchangeSim

def OrderEvent.isNew (event : OrderEvent) : Bool := event.type == .newLimit || event.type == .newMarket

/-- The outcomes of the random draws of one `generate_order` call: `r < prob_cancel`,
`r < prob_cancel + prob_modify`, the value of `idx_dist(rng_)` (any number, reduced into
`[0, size - 1]`), `unit_dist(rng_) < prob_buy` and `unit_dist(rng_) < prob_limit`, and the
quantity and price drawn. -/
structure Draw where
  belowCancel : Bool
  belowModify : Bool
  index : Nat
  buy : Bool
  limit : Bool
  qty : Int
  price : Int
  deriving DecidableEq, Repr

structure Trader where
  traderId : Nat
  ordersToGenerate : Nat
  ordersSent : Nat
  sentOrderIds : List Nat
  nextOrderId : BitVec 64

namespace Trader

def new (traderId ordersToGenerate startingOrderId : Nat) : Trader :=
  ⟨traderId,ordersToGenerate,0,[],BitVec.ofNat 64 startingOrderId⟩

def pick (trader : Trader) (index : Nat) : Nat := trader.sentOrderIds.getD (index % trader.sentOrderIds.length) 0

/-- `generate_order`: a cancel or a modify of an id sent before when the draw says so and
there is one, else a new order with the id `next_order_id_.fetch_add(1)` returns. -/
def generateOrder (trader : Trader) (draw : Draw) : OrderEvent × Trader :=
  if draw.belowCancel && !trader.sentOrderIds.isEmpty then (OrderEvent.cancel (trader.pick draw.index),trader)
  else if draw.belowModify && !trader.sentOrderIds.isEmpty then
    (OrderEvent.modify (trader.pick draw.index) draw.qty draw.price,trader)
  else
    (if draw.limit then
      OrderEvent.newLimit trader.nextOrderId.toNat trader.traderId (if draw.buy then .buy else .sell) draw.price draw.qty
    else OrderEvent.newMarket trader.nextOrderId.toNat trader.traderId (if draw.buy then .buy else .sell) draw.qty,
      { trader with nextOrderId := trader.nextOrderId + 1 })

def record (trader : Trader) (event : OrderEvent) : Trader :=
  { trader with
    sentOrderIds := if event.isNew then trader.sentOrderIds ++ [event.orderId] else trader.sentOrderIds
    ordersSent := trader.ordersSent + 1 }

/-- The loop of `run` over the draws until `orders_sent_` reaches `orders_to_generate`: the
events pushed, in order, and the trader after them. -/
def run (trader : Trader) : List Draw → List OrderEvent × Trader
  | [] => ([],trader)
  | draw :: draws =>
    if trader.ordersSent < trader.ordersToGenerate then
      ((trader.generateOrder draw).1 :: (run ((trader.generateOrder draw).2.record (trader.generateOrder draw).1) draws).1,
        (run ((trader.generateOrder draw).2.record (trader.generateOrder draw).1) draws).2)
    else ([],trader)

end Trader

def newIds (events : List OrderEvent) : List Nat := (events.filter OrderEvent.isNew).map OrderEvent.orderId

def NamesEarlier (events : List OrderEvent) : Prop :=
  ∀ (j : Nat) (event : OrderEvent), events[j]? = some event → event.isNew = false →
    ∃ i < j, ∃ earlier : OrderEvent, events[i]? = some earlier ∧ earlier.isNew = true ∧ earlier.orderId = event.orderId

theorem mem_newIds {events : List OrderEvent} {id : Nat} :
    id ∈ newIds events ↔ ∃ (i : Nat) (earlier : OrderEvent), events[i]? = some earlier ∧ earlier.isNew = true ∧ earlier.orderId = id := by
  simp only [newIds,List.mem_map,List.mem_filter]
  simp only [List.mem_iff_getElem?]
  constructor
  · rintro ⟨earlier,⟨⟨i,found⟩,fresh⟩,named⟩
    exact ⟨i,earlier,found,fresh,named⟩
  · rintro ⟨i,earlier,found,fresh,named⟩
    exact ⟨earlier,⟨⟨i,found⟩,fresh⟩,named⟩

theorem newIds_concat (events : List OrderEvent) (event : OrderEvent) :
    newIds (events ++ [event]) = if event.isNew then newIds events ++ [event.orderId] else newIds events := by
  by_cases fresh : event.isNew <;> simp [newIds,fresh]

theorem NamesEarlier.concat {events : List OrderEvent} (earlier : NamesEarlier events) {event : OrderEvent}
    (named : event.isNew = false → event.orderId ∈ newIds events) : NamesEarlier (events ++ [event]) := by
  intro j e found old
  rcases SpscSemaphoreQueue.getElem?_concat_cases found with ⟨before,found⟩ | ⟨rfl,rfl⟩
  · obtain ⟨i,less,e',found',fresh,same⟩ := earlier j e found old
    exact ⟨i,less,e',by rw [List.getElem?_append_left (less.trans before)]; exact found',fresh,same⟩
  · obtain ⟨i,e',found',fresh,same⟩ := mem_newIds.mp (named old)
    have within := (List.getElem?_eq_some_iff.mp found').1
    exact ⟨i,within,e',by rw [List.getElem?_append_left within]; exact found',fresh,same⟩

namespace Trader

variable {start : Nat} {trader : Trader} {emitted : List OrderEvent}

structure Issued (start : Nat) (trader : Trader) (emitted : List OrderEvent) : Prop where
  sent : trader.sentOrderIds = newIds emitted
  consecutive : trader.sentOrderIds = (List.range trader.sentOrderIds.length).map fun i => (start + i) % 2^64
  next : trader.nextOrderId = BitVec.ofNat 64 (start + trader.sentOrderIds.length)
  count : trader.ordersSent = emitted.length
  earlier : NamesEarlier emitted

theorem pick_mem (nonempty : trader.sentOrderIds.isEmpty = false) (index : Nat) : trader.pick index ∈ trader.sentOrderIds := by
  have positive : 0 < trader.sentOrderIds.length := by
    cases h : trader.sentOrderIds with
    | nil => rw [h] at nonempty; cases nonempty
    | cons _ _ => simp
  rw [pick,List.getD_eq_getElem?_getD,List.getElem?_eq_getElem (Nat.mod_lt _ positive),Option.getD_some]
  exact List.getElem_mem _

theorem generateOrder_cases (trader : Trader) (draw : Draw) :
    ((trader.generateOrder draw).1.isNew = false ∧ (trader.generateOrder draw).1.orderId ∈ trader.sentOrderIds ∧
      (trader.generateOrder draw).2 = trader) ∨
    ((trader.generateOrder draw).1.isNew = true ∧ (trader.generateOrder draw).1.orderId = trader.nextOrderId.toNat ∧
      (trader.generateOrder draw).2 = { trader with nextOrderId := trader.nextOrderId + 1 }) := by
  unfold generateOrder
  by_cases cancel : (draw.belowCancel && !trader.sentOrderIds.isEmpty) = true
  · rw [if_pos cancel]
    exact .inl ⟨rfl,pick_mem (by simp_all) _,rfl⟩
  · rw [if_neg cancel]
    by_cases modify : (draw.belowModify && !trader.sentOrderIds.isEmpty) = true
    · rw [if_pos modify]
      exact .inl ⟨rfl,pick_mem (by simp_all) _,rfl⟩
    · rw [if_neg modify]
      refine .inr ⟨?_,?_,rfl⟩ <;> cases draw.limit <;> rfl

theorem Issued.record (issued : Issued start trader emitted) (draw : Draw) :
    Issued start ((trader.generateOrder draw).2.record (trader.generateOrder draw).1)
      (emitted ++ [(trader.generateOrder draw).1]) := by
  obtain ⟨sent,consecutive,next,count,earlier⟩ := issued
  rcases generateOrder_cases trader draw with ⟨old,named,same⟩ | ⟨fresh,named,advanced⟩
  · rw [same]
    refine ⟨?_,?_,?_,?_,earlier.concat fun _ => sent ▸ named⟩
    all_goals simp only [Trader.record,old,if_false,Bool.false_eq_true,List.length_append,List.length_singleton]
    · rw [newIds_concat,old,if_neg Bool.false_ne_true,sent]
    · exact consecutive
    · exact next
    · rw [count]
  · rw [advanced]
    refine ⟨?_,?_,?_,?_,earlier.concat fun stale => by rw [fresh] at stale; cases stale⟩
    all_goals simp only [Trader.record,fresh,if_true,List.length_append,List.length_singleton]
    · rw [newIds_concat,fresh,if_pos rfl,sent]
    · rw [List.range_succ,List.map_append,← consecutive,named,next,BitVec.toNat_ofNat]
      rfl
    · rw [next]
      exact BitVec.ofNat_add_ofNat _ 1
    · rw [count]

@[simp]
theorem record_ordersSent (trader : Trader) (event : OrderEvent) : (trader.record event).ordersSent = trader.ordersSent + 1 :=
  rfl

@[simp]
theorem record_ordersToGenerate (trader : Trader) (event : OrderEvent) :
    (trader.record event).ordersToGenerate = trader.ordersToGenerate :=
  rfl

theorem generateOrder_counts (trader : Trader) (draw : Draw) :
    (trader.generateOrder draw).2.ordersSent = trader.ordersSent ∧
      (trader.generateOrder draw).2.ordersToGenerate = trader.ordersToGenerate := by
  rcases generateOrder_cases trader draw with ⟨_,_,same⟩ | ⟨_,_,advanced⟩
  · rw [same]; exact ⟨rfl,rfl⟩
  · rw [advanced]; exact ⟨rfl,rfl⟩

theorem Issued.run (issued : Issued start trader emitted) (draws : List Draw) :
    Issued start (trader.run draws).2 (emitted ++ (trader.run draws).1) ∧
      (trader.run draws).1.length = min draws.length (trader.ordersToGenerate - trader.ordersSent) := by
  induction draws generalizing trader emitted with
  | nil => exact ⟨by simpa only [Trader.run,List.append_nil] using issued,by simp [Trader.run]⟩
  | cons draw draws ih =>
    rw [Trader.run]
    by_cases room : trader.ordersSent < trader.ordersToGenerate
    · rw [if_pos room]
      obtain ⟨issued',length⟩ := ih (issued.record draw)
      have counts := generateOrder_counts trader draw
      refine ⟨by simpa only [List.append_assoc,List.singleton_append] using issued',?_⟩
      rw [List.length_cons,List.length_cons,length,record_ordersSent,record_ordersToGenerate,counts.1,counts.2]
      omega
    · rw [if_neg room]
      exact ⟨by simpa only [List.append_nil] using issued,by simp; omega⟩

theorem issued_new (traderId ordersToGenerate start : Nat) : Issued start (new traderId ordersToGenerate start) [] :=
  ⟨rfl,rfl,rfl,rfl,fun _ _ found => by cases found⟩

/-- Whatever the draws, `run` pushes one event per draw until `orders_to_generate` are sent;
its new orders carry the ids from `starting_order_id` on, one after another (modulo 2^64); and
every cancel and modify it pushes names a new order it pushed before. -/
theorem run_orders (traderId ordersToGenerate start : Nat) (draws : List Draw) :
    ((new traderId ordersToGenerate start).run draws).1.length = min draws.length ordersToGenerate ∧
      newIds ((new traderId ordersToGenerate start).run draws).1 =
        (List.range (newIds ((new traderId ordersToGenerate start).run draws).1).length).map
          (fun i => (start + i) % 2^64) ∧
      NamesEarlier ((new traderId ordersToGenerate start).run draws).1 := by
  obtain ⟨issued,length⟩ := (issued_new traderId ordersToGenerate start).run draws
  rw [List.nil_append] at issued
  refine ⟨length,?_,issued.earlier⟩
  rw [← issued.sent]
  exact issued.consecutive

end Trader

/-- What `main` gives each of `traders` traders to send: an equal share of `orders`, and the
remainder to trader 0. With no trader `config.orders / config.traders` divides by zero, which
is undefined: `none`. -/
def allotments (orders traders : Nat) : Option (List Nat) :=
  if traders = 0 then none
  else some ((List.range traders).map fun i => orders / traders + if i = 0 then orders % traders else 0)

/-- The traders `main` creates from trader `index` on, for these allotments: each starts at
`next_order_id`, which then moves past its allotment (`next_order_id` is a `uint64_t`, the
trader id a `uint32_t`). -/
def spawnFrom (index next : Nat) : List Nat → List Trader
  | [] => []
  | n :: ns => Trader.new (index % 2^32) n next :: spawnFrom (index + 1) ((next + n) % 2^64) ns

def spawn (orders traders : Nat) : Option (List Trader) := (allotments orders traders).map (spawnFrom 0 1)

def spawnedIds (traders : List Trader) (draws : List (List Draw)) : List Nat :=
  (List.zipWith (fun trader ds => newIds (trader.run ds).1) traders draws).flatten

theorem allotments_sum (orders : Nat) {traders : Nat} (positive : 0 < traders) :
    ∃ shares, allotments orders traders = some shares ∧ shares.length = traders ∧ shares.sum = orders := by
  obtain ⟨t,rfl⟩ := Nat.exists_eq_add_of_lt positive
  refine ⟨_,if_neg (Nat.succ_ne_zero _),by simp,?_⟩
  rw [Nat.zero_add,List.range_succ_eq_map,List.map_cons,List.sum_cons,List.map_map]
  have rest : (List.map ((fun i => orders / (t + 1) + if i = 0 then orders % (t + 1) else 0) ∘ Nat.succ) (List.range t)) =
      List.replicate t (orders / (t + 1)) :=
    List.eq_replicate_iff.mpr ⟨by simp,by simp⟩
  have split := Nat.div_add_mod orders (t + 1)
  rw [Nat.succ_mul] at split
  rw [rest,List.sum_replicate,Nat.nsmul_eq_mul,if_pos rfl]
  omega

theorem spawnFrom_ordersToGenerate : ∀ (ns : List Nat) (index next : Nat),
    (spawnFrom index next ns).map Trader.ordersToGenerate = ns
  | [], _, _ => rfl
  | n :: ns, index, _ => congrArg (n :: ·) (spawnFrom_ordersToGenerate ns (index + 1) _)

theorem newIds_run_block {next n : Nat} (fits : next + n ≤ 2^64) (index : Nat) (draws : List Draw) :
    (newIds ((Trader.new index n next).run draws).1).Pairwise (· < ·) ∧
      ∀ id ∈ newIds ((Trader.new index n next).run draws).1, next ≤ id ∧ id < next + n := by
  obtain ⟨length,consecutive,_⟩ := Trader.run_orders index n next draws
  have bound : (newIds ((Trader.new index n next).run draws).1).length ≤ n := by
    calc _ ≤ ((Trader.new index n next).run draws).1.length := by
          rw [newIds,List.length_map]; exact List.length_filter_le _ _
      _ ≤ n := by rw [length]; exact Nat.min_le_right _ _
  rw [consecutive]
  refine ⟨?_,?_⟩
  · refine List.pairwise_map.mpr (List.Pairwise.imp_of_mem ?_ (List.pairwise_lt_range _))
    intro i j hi hj less
    rw [List.mem_range] at hi hj
    rw [Nat.mod_eq_of_lt (by omega),Nat.mod_eq_of_lt (by omega)]
    omega
  · intro id member
    obtain ⟨i,hi,rfl⟩ := List.mem_map.mp member
    rw [List.mem_range] at hi
    rw [Nat.mod_eq_of_lt (by omega)]
    omega

theorem spawnedIds_spawnFrom :
    ∀ (ns : List Nat) (index next : Nat) (draws : List (List Draw)), next + ns.sum ≤ 2^64 →
      (spawnedIds (spawnFrom index next ns) draws).Pairwise (· < ·) ∧
        ∀ id ∈ spawnedIds (spawnFrom index next ns) draws, next ≤ id ∧ id < next + ns.sum
  | [], _, _, _, _ => ⟨List.Pairwise.nil,fun _ member => by cases member⟩
  | _ :: _, _, _, [], _ => ⟨List.Pairwise.nil,fun _ member => by cases member⟩
  | n :: ns, index, next, ds :: draws, fits => by
    rw [List.sum_cons] at fits
    have block := newIds_run_block (show next + n ≤ 2^64 by omega) (index % 2^32) ds
    have later := spawnedIds_spawnFrom ns (index + 1) ((next + n) % 2^64) draws (by omega)
    have wrap : (next + n) % 2^64 = next + n ∨ ns.sum = 0 := by omega
    have rest : spawnedIds (spawnFrom index next (n :: ns)) (ds :: draws) =
        newIds ((Trader.new (index % 2^32) n next).run ds).1 ++ spawnedIds (spawnFrom (index + 1) ((next + n) % 2^64) ns) draws :=
      rfl
    rw [rest,List.pairwise_append,List.sum_cons]
    refine ⟨⟨block.1,later.1,fun a inBlock b inLater => ?_⟩,fun id member => ?_⟩
    · have := (block.2 a inBlock).2
      have := later.2 b inLater
      omega
    · rcases List.mem_append.mp member with inBlock | inLater
      · have := block.2 id inBlock
        omega
      · have := later.2 id inLater
        omega

/-- With at least one trader, `main` creates one trader per share, the shares add up to
exactly `config.orders`, and whatever each trader draws, the new orders of all the traders
carry distinct ids: trader by trader they increase, and they lie in `[1, config.orders]`, so none
is 0. -/
theorem spawn_ids_fresh (orders traders : Nat) (fits : orders < 2^64) (positive : 0 < traders)
    (draws : List (List Draw)) :
    ∃ shares spawned, allotments orders traders = some shares ∧ spawn orders traders = some spawned ∧
      shares.length = traders ∧ shares.sum = orders ∧ spawned.map Trader.ordersToGenerate = shares ∧
      (spawnedIds spawned draws).Pairwise (· < ·) ∧ ∀ id ∈ spawnedIds spawned draws, 0 < id ∧ id ≤ orders := by
  obtain ⟨shares,allotted,count,total⟩ := allotments_sum orders positive
  obtain ⟨increasing,within⟩ := spawnedIds_spawnFrom shares 0 1 draws (by omega)
  refine ⟨shares,spawnFrom 0 1 shares,allotted,by rw [spawn,allotted]; rfl,count,total,
    spawnFrom_ordersToGenerate shares 0 1,increasing,fun id member => ?_⟩
  have := within id member
  omega

theorem spawn_ids_fresh_sample :
    5 < 2^64 ∧ 0 < 2 ∧
    ∃ shares spawned, allotments 5 2 = some shares ∧ spawn 5 2 = some spawned ∧
      shares.length = 2 ∧ shares.sum = 5 ∧ spawned.map Trader.ordersToGenerate = shares ∧
      (spawnedIds spawned [[⟨false,false,0,true,true,10,100⟩,⟨true,false,0,true,true,10,100⟩,⟨false,false,0,false,false,7,0⟩],
        [⟨false,false,0,true,true,10,100⟩,⟨false,false,0,false,true,3,99⟩]]).Pairwise (· < ·) ∧
      ∀ id ∈ spawnedIds spawned [[⟨false,false,0,true,true,10,100⟩,⟨true,false,0,true,true,10,100⟩,⟨false,false,0,false,false,7,0⟩],
        [⟨false,false,0,true,true,10,100⟩,⟨false,false,0,false,true,3,99⟩]], 0 < id ∧ id ≤ 5 :=
  ⟨by decide,by decide,spawn_ids_fresh 5 2 (by decide) (by decide) _⟩

end ExchangeSim
