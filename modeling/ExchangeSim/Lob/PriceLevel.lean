import ExchangeSim.Memory.ObjectPool
import Mathlib.Data.List.Basic

/-! `PriceLevel` (`price_level.hpp`): the FIFO of one price, an intrusive doubly linked list
of pool slots. `Queue pool level L` says the list read from `head_idx` is `L`; `pushBack`
appends to it and `remove` deletes one slot from it, relinking only its neighbours. -/
namespace ExchangeSim

structure PriceLevel where
  price : Int
  totalQty : Int
  orderCount : Nat
  headIdx : Nat
  tailIdx : Nat
  deriving DecidableEq, Repr, Inhabited

/-- An order with its links erased: what relinking leaves alone. -/
def Order.payload (order : Order) : Order :=
  { order with nextIdx := invalidPoolIndex, prevIdx := invalidPoolIndex }

namespace PriceLevel

/-- `PriceLevel{p}`. -/
def new (price : Int) : PriceLevel := ⟨price,0,0,invalidPoolIndex,invalidPoolIndex⟩

def empty (level : PriceLevel) : Bool := level.orderCount == 0

def frontIdx (level : PriceLevel) : Nat := level.headIdx

def reduceQty (level : PriceLevel) (filledQty : Int) : PriceLevel :=
  { level with totalQty := wrap64 (level.totalQty - filledQty) }

def pushBack (level : PriceLevel) (pool : ObjectPool Order) (orderIdx : Nat) :
    PriceLevel × ObjectPool Order :=
  let order := pool.getObject orderIdx
  let pool := pool.modifyObject orderIdx fun o =>
    { o with prevIdx := level.tailIdx, nextIdx := invalidPoolIndex }
  let pool := if level.tailIdx ≠ invalidPoolIndex then
      pool.modifyObject level.tailIdx fun o => { o with nextIdx := orderIdx }
    else pool
  let headIdx := if level.tailIdx ≠ invalidPoolIndex then level.headIdx else orderIdx
  let level := { level with
    headIdx := headIdx
    tailIdx := orderIdx
    totalQty := wrap64 (level.totalQty + order.qtyRemaining)
    orderCount := level.orderCount + 1 }
  (level,pool)

/-- `remove`. The source reads `order` through a reference after relinking its neighbours;
those writes never change a field of `order` read later (a write to `order` itself stores
the value it holds), so `order` is read once. -/
def remove (level : PriceLevel) (pool : ObjectPool Order) (orderIdx : Nat) :
    PriceLevel × ObjectPool Order :=
  let order := pool.getObject orderIdx
  let pool := if order.prevIdx ≠ invalidPoolIndex then
      pool.modifyObject order.prevIdx fun o => { o with nextIdx := order.nextIdx }
    else pool
  let headIdx := if order.prevIdx ≠ invalidPoolIndex then level.headIdx else order.nextIdx
  let pool := if order.nextIdx ≠ invalidPoolIndex then
      pool.modifyObject order.nextIdx fun o => { o with prevIdx := order.prevIdx }
    else pool
  let tailIdx := if order.nextIdx ≠ invalidPoolIndex then level.tailIdx else order.prevIdx
  let level := { level with
    headIdx := headIdx
    tailIdx := tailIdx
    totalQty := wrap64 (level.totalQty - order.qtyRemaining)
    orderCount := level.orderCount - 1 }
  (level,pool.modifyObject orderIdx fun o =>
    { o with prevIdx := invalidPoolIndex, nextIdx := invalidPoolIndex })

/-- `Linked pool prev L next`: the slots of `L` are chained in order, the first one's
`prevIdx` is `prev` and the last one's `nextIdx` is `next`. -/
def Linked (pool : ObjectPool Order) : Nat → List Nat → Nat → Prop
  | _, [], _ => True
  | prev, i :: rest, next => (pool.getObject i).prevIdx = prev ∧
      (pool.getObject i).nextIdx = rest.head?.getD next ∧ Linked pool i rest next

/-- The queue of `level` is `L`: distinct slots read from `headIdx`, ending at `tailIdx`. -/
structure Queue (pool : ObjectPool Order) (level : PriceLevel) (L : List Nat) : Prop where
  linked : Linked pool invalidPoolIndex L invalidPoolIndex
  head : level.headIdx = L.head?.getD invalidPoolIndex
  tail : level.tailIdx = L.getLast?.getD invalidPoolIndex
  count : level.orderCount = L.length
  distinct : L.Nodup
  valid : invalidPoolIndex ∉ L

section Linked

variable {pool pool' : ObjectPool Order} {prev next : Nat}

/-- Two pools give the slot the same links. -/
def SameLinks (pool pool' : ObjectPool Order) (j : Nat) : Prop :=
  (pool'.getObject j).prevIdx = (pool.getObject j).prevIdx ∧
    (pool'.getObject j).nextIdx = (pool.getObject j).nextIdx

theorem Linked.congr {L : List Nat} (same : ∀ j ∈ L, SameLinks pool pool' j) :
    Linked pool prev L next → Linked pool' prev L next := by
  induction L generalizing prev with
  | nil => exact id
  | cons i rest ih =>
    rintro ⟨back,forward,tail⟩
    obtain ⟨sameBack,sameForward⟩ := same i (by simp)
    exact ⟨sameBack.trans back,sameForward.trans forward,
      ih (fun j member => same j (by simp [member])) tail⟩

theorem getD_head?_append (A B : List Nat) (n : Nat) :
    (A ++ B).head?.getD n = A.head?.getD (B.head?.getD n) := by
  cases A <;> simp

theorem getD_getLast?_cons (a : Nat) (A : List Nat) (p : Nat) :
    (a :: A).getLast?.getD p = A.getLast?.getD a := by
  cases A <;> simp [List.getLast?_cons]

theorem linked_append (A B : List Nat) :
    Linked pool prev (A ++ B) next ↔
      Linked pool prev A (B.head?.getD next) ∧ Linked pool (A.getLast?.getD prev) B next := by
  induction A generalizing prev with
  | nil => simp [Linked]
  | cons a A ih =>
    simp only [List.cons_append,Linked,List.append_eq,ih,getD_head?_append,getD_getLast?_cons,
      and_assoc]

theorem linked_concat (A : List Nat) (a : Nat) :
    Linked pool prev (A ++ [a]) next ↔ Linked pool prev A a ∧
      (pool.getObject a).prevIdx = A.getLast?.getD prev ∧ (pool.getObject a).nextIdx = next := by
  simp [linked_append,Linked]

/-- Retargeting the last slot's `nextIdx` keeps the chain. -/
theorem Linked.retarget_next {A : List Nat} {a target : Nat}
    (linked : Linked pool prev (A ++ [a]) next) (same : ∀ j ∈ A, SameLinks pool pool' j)
    (back : (pool'.getObject a).prevIdx = (pool.getObject a).prevIdx)
    (forward : (pool'.getObject a).nextIdx = target) : Linked pool' prev (A ++ [a]) target := by
  rw [linked_concat] at linked ⊢
  exact ⟨linked.1.congr same,back.trans linked.2.1,forward⟩

/-- Retargeting the first slot's `prevIdx` keeps the chain. -/
theorem Linked.retarget_prev {B : List Nat} {b target : Nat}
    (linked : Linked pool prev (b :: B) next) (same : ∀ j ∈ B, SameLinks pool pool' j)
    (back : (pool'.getObject b).prevIdx = target)
    (forward : (pool'.getObject b).nextIdx = (pool.getObject b).nextIdx) :
    Linked pool' target (b :: B) next :=
  ⟨back,forward.trans linked.2.1,linked.2.2.congr same⟩

end Linked

/-- `pool'` is `pool` with some links rewritten. -/
structure Relinked (pool pool' : ObjectPool Order) : Prop where
  freeHead : pool'.freeHead = pool.freeHead
  capacity : pool'.capacity = pool.capacity
  size : pool'.size = pool.size
  inUse : ∀ j, pool'.inUse j = pool.inUse j
  nextFree : ∀ j, pool'.nextFree j = pool.nextFree j
  payload : ∀ j, (pool'.getObject j).payload = (pool.getObject j).payload

namespace Relinked

variable {pool pool' pool'' : ObjectPool Order}

theorem refl (pool : ObjectPool Order) : Relinked pool pool :=
  ⟨rfl,rfl,rfl,fun _ => rfl,fun _ => rfl,fun _ => rfl⟩

theorem trans (first : Relinked pool pool') (second : Relinked pool' pool'') :
    Relinked pool pool'' :=
  ⟨second.freeHead.trans first.freeHead,second.capacity.trans first.capacity,
    second.size.trans first.size,fun j => (second.inUse j).trans (first.inUse j),
    fun j => (second.nextFree j).trans (first.nextFree j),
    fun j => (second.payload j).trans (first.payload j)⟩

theorem modifyObject (pool : ObjectPool Order) (i : Nat) {f : Order → Order}
    (links : ∀ o, (f o).payload = o.payload) : Relinked pool (pool.modifyObject i f) := by
  refine ⟨rfl,rfl,rfl,by simp,by simp,fun j => ?_⟩
  by_cases same : j = i
  · subst same; simp [links]
  · simp [same]

theorem valid (relinked : Relinked pool pool') (valid : pool.Valid) : pool'.Valid := by
  obtain ⟨bounded,outside,free,list,distinct,members,count⟩ := valid
  refine ⟨relinked.capacity ▸ bounded,fun j over => ?_,free,?_,distinct,fun j => ?_,?_⟩
  · rw [relinked.inUse]; exact outside j (relinked.capacity ▸ over)
  · rw [relinked.freeHead]; exact list.congr fun j _ => relinked.nextFree j
  · rw [relinked.inUse,relinked.capacity]; exact members j
  · rw [relinked.size,relinked.capacity]; exact count

theorem price (relinked : Relinked pool pool') (j : Nat) :
    (pool'.getObject j).price = (pool.getObject j).price :=
  by have same := congrArg Order.price (relinked.payload j); exact same

theorem side (relinked : Relinked pool pool') (j : Nat) :
    (pool'.getObject j).side = (pool.getObject j).side :=
  by have same := congrArg Order.side (relinked.payload j); exact same

theorem qtyRemaining (relinked : Relinked pool pool') (j : Nat) :
    (pool'.getObject j).qtyRemaining = (pool.getObject j).qtyRemaining :=
  by have same := congrArg Order.qtyRemaining (relinked.payload j); exact same

theorem orderId (relinked : Relinked pool pool') (j : Nat) :
    (pool'.getObject j).orderId = (pool.getObject j).orderId :=
  by have same := congrArg Order.orderId (relinked.payload j); exact same

end Relinked

section PushBack

variable {pool : ObjectPool Order} {level : PriceLevel} {L : List Nat} {i : Nat}

@[simp] theorem pushBack_price : (level.pushBack pool i).1.price = level.price := rfl

@[simp] theorem pushBack_totalQty :
    (level.pushBack pool i).1.totalQty = wrap64 (level.totalQty + (pool.getObject i).qtyRemaining) := rfl

@[simp] theorem pushBack_orderCount :
    (level.pushBack pool i).1.orderCount = level.orderCount + 1 := rfl

theorem pushBack_relinked : Relinked pool (level.pushBack pool i).2 := by
  have first := Relinked.modifyObject pool i
    (f := fun o => { o with prevIdx := level.tailIdx, nextIdx := invalidPoolIndex }) (fun _ => rfl)
  simp only [pushBack]
  split
  · exact first.trans (Relinked.modifyObject _ _ fun _ => rfl)
  · exact first

theorem Queue.tail_mem (queue : Queue pool level L) (linked : level.tailIdx ≠ invalidPoolIndex) :
    level.tailIdx ∈ L := by
  rw [queue.tail] at linked ⊢
  cases last : L.getLast? with
  | none => simp [last] at linked
  | some t => simpa [last] using List.mem_of_getLast?_eq_some last

/-- `push_back` writes to the new slot and to the old tail only. -/
theorem pushBack_storage_other (queue : Queue pool level L) {j : Nat} (outside : j ∉ L) (other : j ≠ i) :
    (level.pushBack pool i).2.storage j = pool.storage j := by
  have notTail : level.tailIdx ≠ invalidPoolIndex → j ≠ level.tailIdx :=
    fun linked same => outside (same ▸ queue.tail_mem linked)
  simp only [pushBack]
  split
  · rename_i linked
    rw [ObjectPool.storage_modifyObject_of_ne _ _ _ _ (notTail linked),
      ObjectPool.storage_modifyObject_of_ne _ _ _ _ other]
  · exact ObjectPool.storage_modifyObject_of_ne _ _ _ _ other

theorem pushBack_other (queue : Queue pool level L) {j : Nat} (outside : j ∉ L) (other : j ≠ i) :
    (level.pushBack pool i).2.getObject j = pool.getObject j :=
  congrArg Entry.storage (pushBack_storage_other queue outside other)

theorem pushBack_queue (queue : Queue pool level L) (fresh : i ∉ L) (valid : i ≠ invalidPoolIndex) :
    Queue (level.pushBack pool i).2 (level.pushBack pool i).1 (L ++ [i]) := by
  rcases List.eq_nil_or_concat L with empty | ⟨L₀,t,rfl⟩
  · subst empty
    have tail : level.tailIdx = invalidPoolIndex := by simpa using queue.tail
    refine ⟨?_,?_,?_,?_,by simp,by simp [Ne.symm valid]⟩ <;>
      simp [pushBack,tail,Linked,queue.count]
  · simp only [List.concat_eq_append] at queue fresh ⊢
    have tail : level.tailIdx = t := by simpa using queue.tail
    have member : t ∈ L₀ ++ [t] := by simp
    have linked : t ≠ invalidPoolIndex := fun same => queue.valid (same ▸ member)
    have other : t ≠ i := fun same => fresh (same ▸ member)
    have before : ∀ j ∈ L₀, j ≠ t := fun j inside same =>
      (List.nodup_append.mp queue.distinct).2.2 inside (by simp [same])
    have pool' : (level.pushBack pool i).2 = ((pool.modifyObject i fun o =>
        { o with prevIdx := t, nextIdx := invalidPoolIndex }).modifyObject t
          fun o => { o with nextIdx := i }) := by
      simp [pushBack,tail,linked]
    refine ⟨?_,?_,?_,?_,?_,?_⟩
    · rw [pool',linked_concat]
      refine ⟨queue.linked.retarget_next (fun j inside => ?_) ?_ ?_,?_,?_⟩
      · have : j ≠ i := fun same => fresh (same ▸ by simp [inside])
        simp [SameLinks,before j inside,this]
      · simp [other]
      · simp
      · simp [Ne.symm other]
      · simp [Ne.symm other]
    · simp [pushBack,tail,linked,queue.head]
    · simp [pushBack]
    · simp [pushBack,queue.count]
    · exact List.nodup_append.mpr ⟨queue.distinct,by simp,by simpa using fresh⟩
    · simpa [Ne.symm valid] using queue.valid

end PushBack

section Remove

variable {pool : ObjectPool Order} {level : PriceLevel} {L : List Nat} {i : Nat}

@[simp] theorem remove_price : (level.remove pool i).1.price = level.price := rfl

@[simp] theorem remove_totalQty :
    (level.remove pool i).1.totalQty = wrap64 (level.totalQty - (pool.getObject i).qtyRemaining) := rfl

@[simp] theorem remove_orderCount :
    (level.remove pool i).1.orderCount = level.orderCount - 1 := rfl

theorem relinked_if (pool : ObjectPool Order) (c : Prop) [Decidable c] (j : Nat)
    {f : Order → Order} (links : ∀ o, (f o).payload = o.payload) :
    Relinked pool (if c then pool.modifyObject j f else pool) := by
  split
  · exact Relinked.modifyObject pool j links
  · exact Relinked.refl pool

theorem remove_relinked : Relinked pool (level.remove pool i).2 := by
  simp only [remove]
  refine ((relinked_if _ _ _ ?_).trans (relinked_if _ _ _ ?_)).trans
    (Relinked.modifyObject _ _ ?_) <;> intro o <;> rfl

/-- `remove` writes only to the slot and its two neighbours. -/
theorem remove_other {j : Nat} (notPrev : j ≠ (pool.getObject i).prevIdx)
    (notNext : j ≠ (pool.getObject i).nextIdx) (other : j ≠ i) :
    (level.remove pool i).2.getObject j = pool.getObject j := by
  simp only [remove]
  split_ifs <;> simp [notPrev,notNext,other]

/-- `remove` writes to the slot and to its linked neighbours only. -/
theorem remove_storage_other {j : Nat}
    (notPrev : (pool.getObject i).prevIdx ≠ invalidPoolIndex → j ≠ (pool.getObject i).prevIdx)
    (notNext : (pool.getObject i).nextIdx ≠ invalidPoolIndex → j ≠ (pool.getObject i).nextIdx)
    (other : j ≠ i) : (level.remove pool i).2.storage j = pool.storage j := by
  have keep := @ObjectPool.storage_modifyObject_of_ne Order
  simp only [remove]
  split_ifs with next prev prev
  · rw [keep _ _ _ _ other,keep _ _ _ _ (notNext next),keep _ _ _ _ (notPrev prev)]
  · rw [keep _ _ _ _ other,keep _ _ _ _ (notNext next)]
  · rw [keep _ _ _ _ other,keep _ _ _ _ (notPrev prev)]
  · rw [keep _ _ _ _ other]

theorem remove_prev (linked : (pool.getObject i).prevIdx ≠ invalidPoolIndex)
    (notI : (pool.getObject i).prevIdx ≠ i)
    (notNext : (pool.getObject i).prevIdx ≠ (pool.getObject i).nextIdx) :
    (level.remove pool i).2.getObject (pool.getObject i).prevIdx =
      { pool.getObject (pool.getObject i).prevIdx with nextIdx := (pool.getObject i).nextIdx } := by
  simp only [remove]
  split_ifs <;> simp [linked,notI,notNext]

theorem remove_next (linked : (pool.getObject i).nextIdx ≠ invalidPoolIndex)
    (notI : (pool.getObject i).nextIdx ≠ i)
    (notPrev : (pool.getObject i).nextIdx ≠ (pool.getObject i).prevIdx) :
    (level.remove pool i).2.getObject (pool.getObject i).nextIdx =
      { pool.getObject (pool.getObject i).nextIdx with prevIdx := (pool.getObject i).prevIdx } := by
  simp only [remove]
  split_ifs <;> simp [linked,notI,notPrev]

theorem remove_unlinked :
    ((level.remove pool i).2.getObject i).prevIdx = invalidPoolIndex ∧
      ((level.remove pool i).2.getObject i).nextIdx = invalidPoolIndex := by
  simp [remove]

theorem remove_queue (queue : Queue pool level L) (member : i ∈ L) :
    Queue (level.remove pool i).2 (level.remove pool i).1 (L.erase i) := by
  obtain ⟨A,B,rfl⟩ := List.append_of_mem member
  obtain ⟨nodupA,nodupB,disjoint⟩ := List.nodup_append.mp queue.distinct
  have notA : i ∉ A := fun inside => disjoint inside (by simp)
  have apart : ∀ j ∈ A, j ∉ B := fun j inside outside => disjoint inside (by simp [outside])
  have validA : invalidPoolIndex ∉ A := fun inside => queue.valid (by simp [inside])
  have validB : invalidPoolIndex ∉ B := fun inside => queue.valid (by simp [inside])
  have erase : (A ++ i :: B).erase i = A ++ B := by
    rw [List.erase_append_right _ notA,List.erase_cons_head]
  have linked := queue.linked
  rw [linked_append] at linked
  simp only [List.head?_cons,Option.getD_some,Linked] at linked
  obtain ⟨linkedA,back,forward,linkedB⟩ := linked
  have prevA : ∀ j ∈ A, j ≠ (pool.getObject i).nextIdx := by
    intro j inside same
    rw [forward] at same
    cases B with
    | nil => exact validA (by simpa [same] using inside)
    | cons b B => exact apart j inside (by simp_all)
  have nextB : ∀ j ∈ B, j ≠ (pool.getObject i).prevIdx := by
    intro j inside same
    rw [back] at same
    rcases List.eq_nil_or_concat A with rfl | ⟨A₀,a,rfl⟩
    · exact validB (by simpa [same] using inside)
    · exact apart j (by simp_all) inside
  rw [erase]
  refine ⟨(linked_append A B).mpr ⟨?_,?_⟩,?_,?_,?_,nodupA.append (List.nodup_cons.mp nodupB).2
    (fun j inside outside => apart j inside outside),by simp [validA,validB]⟩
  · rcases List.eq_nil_or_concat A with rfl | ⟨A₀,a,rfl⟩
    · trivial
    · simp only [List.concat_eq_append] at *
      have isPrev : (pool.getObject i).prevIdx = a := by simpa using back
      have notI : a ≠ i := fun same => notA (by simp [same])
      have ne : a ≠ invalidPoolIndex := fun same => validA (by simp [same])
      refine linkedA.retarget_next (fun j inside => ?_) ?_ ?_
      · have before : j ≠ a := fun same => (List.nodup_append.mp nodupA).2.2 inside (by simp [same])
        have notI : j ≠ i := fun same => notA (by simp [← same,inside])
        rw [SameLinks,remove_other (isPrev ▸ before) (prevA j (by simp [inside])) notI]
        exact ⟨rfl,rfl⟩
      · rw [← isPrev,remove_prev (isPrev ▸ ne) (isPrev ▸ notI) (isPrev ▸ prevA a (by simp))]
      · rw [← isPrev,remove_prev (isPrev ▸ ne) (isPrev ▸ notI) (isPrev ▸ prevA a (by simp))]
        simp [forward]
  · cases B with
    | nil => trivial
    | cons b B₀ =>
      have isNext : (pool.getObject i).nextIdx = b := by simpa using forward
      have notI : b ≠ i := fun same => (List.nodup_cons.mp nodupB).1 (by simp [same])
      have ne : b ≠ invalidPoolIndex := fun same => validB (by simp [same])
      refine linkedB.retarget_prev (fun j inside => ?_) ?_ ?_
      · have after : j ≠ b := fun same =>
          (List.nodup_cons.mp (List.nodup_cons.mp nodupB).2).1 (same ▸ inside)
        have notI : j ≠ i := fun same => (List.nodup_cons.mp nodupB).1 (by simp [← same,inside])
        rw [SameLinks,remove_other (nextB j (by simp [inside])) (isNext ▸ after) notI]
        exact ⟨rfl,rfl⟩
      · rw [← isNext,remove_next (isNext ▸ ne) (isNext ▸ notI) (isNext ▸ nextB b (by simp))]
        simp [back]
      · rw [← isNext,remove_next (isNext ▸ ne) (isNext ▸ notI) (isNext ▸ nextB b (by simp))]
  · rcases List.eq_nil_or_concat A with rfl | ⟨A₀,a,rfl⟩
    · simp [remove,back,forward]
    · simp only [List.concat_eq_append] at *
      have ne : a ≠ invalidPoolIndex := fun same => validA (by simp [same])
      simp [remove,back,ne,queue.head]
  · cases B with
    | nil => simp [remove,back,forward,queue.tail]
    | cons b B₀ =>
      have ne : b ≠ invalidPoolIndex := fun same => validB (by simp [same])
      simp [remove,forward,ne,queue.tail]
  · simp [queue.count]

/-- `remove` undoes `push_back` of a fresh slot: the level is as it was, and so is every slot
but the pushed one, which is left unlinked. -/
theorem pushBack_remove (queue : Queue pool level L) (fresh : i ∉ L) (ranged : wrap64 level.totalQty = level.totalQty) :
    (level.pushBack pool i).1.remove (level.pushBack pool i).2 i =
      (level,pool.modifyObject i fun o => { o with prevIdx := invalidPoolIndex, nextIdx := invalidPoolIndex }) := by
  rcases List.eq_nil_or_concat L with rfl | ⟨L₀,t,rfl⟩
  · have tail : level.tailIdx = invalidPoolIndex := by simpa using queue.tail
    have head : level.headIdx = invalidPoolIndex := by simpa using queue.head
    have count : level.orderCount = 0 := by simpa using queue.count
    obtain ⟨price,total,_,_,_⟩ := level
    simp only at tail head count ranged
    subst tail head count
    simp [pushBack,remove,ObjectPool.modifyObject_modifyObject,Function.comp_def,wrap64_wrap64_sub,ranged]
  · simp only [List.concat_eq_append] at queue fresh
    have tail : level.tailIdx = t := by simpa using queue.tail
    have member : t ∈ L₀ ++ [t] := by simp
    have linked : t ≠ invalidPoolIndex := fun same => queue.valid (same ▸ member)
    have other : t ≠ i := fun same => fresh (same ▸ member)
    have last : (pool.getObject t).nextIdx = invalidPoolIndex := ((linked_concat L₀ t).mp queue.linked).2.2
    have restored : ((pool.modifyObject i fun o => { o with prevIdx := t, nextIdx := invalidPoolIndex }).modifyObject t
        fun o => { o with nextIdx := invalidPoolIndex }) =
        pool.modifyObject i fun o => { o with prevIdx := t, nextIdx := invalidPoolIndex } :=
      ObjectPool.modifyObject_of_fixed _ _ _ (by simp [other,← last])
    obtain ⟨price,total,count,head,_⟩ := level
    simp only at tail ranged
    subst tail
    simp [pushBack,remove,linked,other,Ne.symm other,ObjectPool.modifyObject_modifyObject,Function.comp_def,
      restored,wrap64_wrap64_sub,ranged]

end Remove

end PriceLevel

end ExchangeSim
