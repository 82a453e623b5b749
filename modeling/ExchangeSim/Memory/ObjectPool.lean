import ExchangeSim.Types
import Mathlib.Logic.Function.Basic
import Mathlib.Data.List.Nodup
import Mathlib.Data.List.Range

/-! `ObjectPool<T>` (`object_pool.hpp`): a fixed array of entries threaded by a freelist of
indices. `Valid` is the freelist discipline: the list read from `free_head` is acyclic and
holds exactly the free slots below the capacity, and `size` counts the others. -/
namespace ExchangeSim

/-- `ObjectPool::Entry`. A slot that is not in use keeps the bytes of its last object. -/
structure Entry (α : Type) where
  storage : α
  nextFree : Nat
  inUse : Bool

structure ObjectPool (α : Type) where
  storage : Nat → Entry α
  freeHead : Nat
  capacity : Nat
  size : Nat

namespace ObjectPool

variable {α : Type}

/-- The freelist link the constructor and `clear` give slot `i`. -/
def initialNext (capacity i : Nat) : Nat := if i + 1 < capacity then i + 1 else invalidPoolIndex

def initialHead (capacity : Nat) : Nat := if capacity > 0 then 0 else invalidPoolIndex

/-- `ObjectPool(std::uint32_t capacity)`. -/
def new [Inhabited α] (capacity : UInt32) : ObjectPool α where
  storage i := ⟨default,initialNext capacity.toNat i,false⟩
  freeHead := initialHead capacity.toNat
  capacity := capacity.toNat
  size := 0

/-- `operator[]`. -/
def getObject (pool : ObjectPool α) (index : Nat) : α := (pool.storage index).storage

def inUse (pool : ObjectPool α) (index : Nat) : Bool := (pool.storage index).inUse

def nextFree (pool : ObjectPool α) (index : Nat) : Nat := (pool.storage index).nextFree

def isValid (pool : ObjectPool α) (index : Nat) : Bool :=
  decide (index < pool.capacity) && pool.inUse index

/-- A write through the reference `operator[]` returns. -/
def modifyObject (pool : ObjectPool α) (index : Nat) (f : α → α) : ObjectPool α :=
  let entry := pool.storage index
  { pool with storage := Function.update pool.storage index { entry with storage := f entry.storage } }

def allocate (pool : ObjectPool α) (value : α) : Nat × ObjectPool α :=
  if pool.freeHead = invalidPoolIndex then (invalidPoolIndex,pool)
  else
    let idx := pool.freeHead
    let entry := pool.storage idx
    (idx,{ pool with
      freeHead := entry.nextFree
      storage := Function.update pool.storage idx { entry with storage := value, inUse := true }
      size := pool.size + 1 })

def deallocate (pool : ObjectPool α) (index : Nat) : ObjectPool α :=
  let entry := pool.storage index
  { pool with
    storage := Function.update pool.storage index { entry with inUse := false, nextFree := pool.freeHead }
    freeHead := index
    size := pool.size - 1 }

def clear (pool : ObjectPool α) : ObjectPool α :=
  { pool with
    storage := fun i => if i < pool.capacity then
        { (pool.storage i) with inUse := false, nextFree := initialNext pool.capacity i }
      else pool.storage i
    freeHead := initialHead pool.capacity
    size := 0 }

def full (pool : ObjectPool α) : Bool := pool.freeHead == invalidPoolIndex

section Access

variable (pool : ObjectPool α) (i j : Nat) (f : α → α) (value : α)

@[simp] theorem getObject_modifyObject :
    (pool.modifyObject i f).getObject j = if j = i then f (pool.getObject i) else pool.getObject j := by
  by_cases same : j = i
  · subst same; simp [modifyObject,getObject]
  · simp [modifyObject,getObject,same]

@[simp] theorem inUse_modifyObject : (pool.modifyObject i f).inUse j = pool.inUse j := by
  by_cases same : j = i
  · subst same; simp [modifyObject,inUse]
  · simp [modifyObject,inUse,same]

@[simp] theorem nextFree_modifyObject : (pool.modifyObject i f).nextFree j = pool.nextFree j := by
  by_cases same : j = i
  · subst same; simp [modifyObject,nextFree]
  · simp [modifyObject,nextFree,same]

/-- A write through `operator[]` leaves every other slot's entry as it was. -/
theorem storage_modifyObject_of_ne (other : j ≠ i) : (pool.modifyObject i f).storage j = pool.storage j := by
  simp [modifyObject,other]

theorem modifyObject_modifyObject (g : α → α) :
    (pool.modifyObject i f).modifyObject i g = pool.modifyObject i (g ∘ f) := by
  simp [modifyObject]

/-- A write that stores what the slot holds changes nothing. -/
theorem modifyObject_of_fixed (fixed : f (pool.getObject i) = pool.getObject i) :
    pool.modifyObject i f = pool := by
  obtain ⟨storage,freeHead,capacity,size⟩ := pool
  simp only [modifyObject,getObject] at fixed ⊢
  rw [fixed,Function.update_eq_self]

@[simp] theorem modifyObject_freeHead : (pool.modifyObject i f).freeHead = pool.freeHead := rfl
@[simp] theorem modifyObject_capacity : (pool.modifyObject i f).capacity = pool.capacity := rfl
@[simp] theorem modifyObject_size : (pool.modifyObject i f).size = pool.size := rfl

@[simp] theorem getObject_deallocate : (pool.deallocate i).getObject j = pool.getObject j := by
  by_cases same : j = i
  · subst same; simp [deallocate,getObject]
  · simp [deallocate,getObject,same]

@[simp] theorem inUse_deallocate :
    (pool.deallocate i).inUse j = if j = i then false else pool.inUse j := by
  by_cases same : j = i
  · subst same; simp [deallocate,inUse]
  · simp [deallocate,inUse,same]

theorem nextFree_deallocate :
    (pool.deallocate i).nextFree j = if j = i then pool.freeHead else pool.nextFree j := by
  by_cases same : j = i
  · subst same; simp [deallocate,nextFree]
  · simp [deallocate,nextFree,same]

@[simp] theorem deallocate_freeHead : (pool.deallocate i).freeHead = i := rfl
@[simp] theorem deallocate_capacity : (pool.deallocate i).capacity = pool.capacity := rfl
@[simp] theorem deallocate_size : (pool.deallocate i).size = pool.size - 1 := rfl

theorem allocate_full (full : pool.freeHead = invalidPoolIndex) :
    pool.allocate value = (invalidPoolIndex,pool) := by
  simp [allocate,full]

/-- The pool a successful `allocate` leaves. -/
def taken (pool : ObjectPool α) (value : α) : ObjectPool α :=
  let entry := pool.storage pool.freeHead
  { pool with
    freeHead := entry.nextFree
    storage := Function.update pool.storage pool.freeHead { entry with storage := value, inUse := true }
    size := pool.size + 1 }

theorem allocate_free (free : pool.freeHead ≠ invalidPoolIndex) :
    pool.allocate value = (pool.freeHead,pool.taken value) := by
  simp [allocate,free,taken,nextFree]

@[simp] theorem getObject_taken :
    (pool.taken value).getObject j = if j = pool.freeHead then value else pool.getObject j := by
  by_cases same : j = pool.freeHead
  · simp [taken,getObject,same]
  · simp [taken,getObject,same]

@[simp] theorem inUse_taken :
    (pool.taken value).inUse j = if j = pool.freeHead then true else pool.inUse j := by
  by_cases same : j = pool.freeHead
  · simp [taken,inUse,same]
  · simp [taken,inUse,same]

@[simp] theorem nextFree_taken : (pool.taken value).nextFree j = pool.nextFree j := by
  by_cases same : j = pool.freeHead
  · simp [taken,nextFree,same]
  · simp [taken,nextFree,same]

@[simp] theorem taken_freeHead : (pool.taken value).freeHead = pool.nextFree pool.freeHead := rfl
@[simp] theorem taken_capacity : (pool.taken value).capacity = pool.capacity := rfl
@[simp] theorem taken_size : (pool.taken value).size = pool.size + 1 := rfl

/-- Freeing the slot `allocate` has just handed out gives the pool back, except for the bytes
left in that slot. -/
theorem deallocate_taken (free : pool.inUse pool.freeHead = false) :
    ((pool.taken value).modifyObject pool.freeHead f).deallocate pool.freeHead =
      { pool with storage := (Function.update pool.storage pool.freeHead
          { pool.storage pool.freeHead with storage := f value }) } := by
  obtain ⟨storage,freeHead,capacity,size⟩ := pool
  simp only [inUse] at free
  simp only [taken,modifyObject,deallocate,Function.update_same,Function.update_idem,
    Nat.add_sub_cancel,free]

end Access

/-- Reading `next_free` from `head` visits `free` and then `INVALID_INDEX`. -/
def FreeList (pool : ObjectPool α) : Nat → List Nat → Prop
  | head, [] => head = invalidPoolIndex
  | head, i :: rest => head = i ∧ FreeList pool (pool.nextFree i) rest

/-- The freelist discipline of a pool whose capacity is a `uint32`. -/
structure Valid (pool : ObjectPool α) : Prop where
  bounded : pool.capacity ≤ invalidPoolIndex
  outside : ∀ i, pool.capacity ≤ i → pool.inUse i = false
  freelist : ∃ free, FreeList pool pool.freeHead free ∧ free.Nodup ∧
    (∀ i, i ∈ free ↔ i < pool.capacity ∧ pool.inUse i = false) ∧
    pool.size + free.length = pool.capacity

theorem FreeList.congr {pool pool' : ObjectPool α} {free : List Nat}
    (same : ∀ j ∈ free, pool'.nextFree j = pool.nextFree j) :
    ∀ {head}, FreeList pool head free → FreeList pool' head free := by
  induction free with
  | nil => exact id
  | cons i rest ih =>
    rintro head ⟨equal,tail⟩
    exact ⟨equal,by rw [same i (by simp)]; exact ih (fun j member => same j (by simp [member])) tail⟩

theorem freeList_range' (pool : ObjectPool α) (cap : Nat)
    (next : ∀ i < cap, pool.nextFree i = initialNext cap i) :
    ∀ n k, k + n = cap →
      FreeList pool (if k < cap then k else invalidPoolIndex) (List.range' k n)
  | 0, k, sum => by simp [FreeList]; omega
  | n + 1, k, sum => by
    refine ⟨by simp; omega,?_⟩
    have link : pool.nextFree k = if k + 1 < cap then k + 1 else invalidPoolIndex :=
      next k (by omega)
    rw [link]
    exact freeList_range' pool cap next n (k + 1) (by omega)

theorem length_lt_of_missing {free : List Nat} {cap i : Nat} (distinct : free.Nodup)
    (below : ∀ j ∈ free, j < cap) (bound : i < cap) (missing : i ∉ free) :
    free.length < cap := by
  have sub : free ⊆ (List.range cap).erase i := by
    intro j member
    rw [(List.nodup_range cap).mem_erase_iff]
    exact ⟨fun same => missing (same ▸ member),List.mem_range.mpr (below j member)⟩
  have le := (distinct.subperm sub).length_le
  rw [List.length_erase_of_mem (List.mem_range.mpr bound),List.length_range] at le
  omega

theorem valid_initial (pool : ObjectPool α) (bounded : pool.capacity ≤ invalidPoolIndex)
    (outside : ∀ i, pool.capacity ≤ i → pool.inUse i = false)
    (free : ∀ i < pool.capacity, pool.inUse i = false)
    (next : ∀ i < pool.capacity, pool.nextFree i = initialNext pool.capacity i)
    (head : pool.freeHead = initialHead pool.capacity) (empty : pool.size = 0) : Valid pool := by
  refine ⟨bounded,outside,List.range pool.capacity,?_,List.nodup_range _,?_,by simp [empty]⟩
  · have list := freeList_range' pool pool.capacity next pool.capacity 0 (by omega)
    rw [head,initialHead]
    simpa [List.range_eq_range'] using list
  · intro i
    simp only [List.mem_range]
    exact ⟨fun bound => ⟨bound,free i bound⟩,fun ⟨bound,_⟩ => bound⟩

theorem valid_new [Inhabited α] (capacity : UInt32) : Valid (ObjectPool.new capacity : ObjectPool α) :=
  valid_initial _ (by have := capacity.toNat_lt_size; simp [ObjectPool.new,invalidPoolIndex,UInt32.size] at *; omega)
    (fun _ _ => rfl) (fun _ _ => rfl) (fun _ _ => rfl) rfl rfl

theorem Valid.clear {pool : ObjectPool α} (valid : pool.Valid) : pool.clear.Valid := by
  refine valid_initial _ valid.bounded ?_ ?_ ?_ rfl rfl <;> intro i bound <;>
    simp only [ObjectPool.clear] at bound ⊢
  · simpa [inUse,Nat.not_lt.mpr bound] using valid.outside i bound
  · simp [inUse,bound]
  · simp [nextFree,bound]

theorem Valid.inUse_clear {pool : ObjectPool α} (valid : pool.Valid) (i : Nat) :
    pool.clear.inUse i = false := by
  by_cases bound : i < pool.capacity
  · simp [ObjectPool.clear,inUse,bound]
  · simpa [ObjectPool.clear,inUse,bound] using valid.outside i (by omega)

theorem Valid.modifyObject {pool : ObjectPool α} (valid : pool.Valid) (i : Nat) (f : α → α) :
    (pool.modifyObject i f).Valid := by
  obtain ⟨bounded,outside,free,list,distinct,members,count⟩ := valid
  exact ⟨bounded,by simpa using outside,free,list.congr (by simp),distinct,by simpa using members,
    count⟩

theorem Valid.lt_capacity {pool : ObjectPool α} (valid : pool.Valid) {i : Nat}
    (used : pool.inUse i = true) : i < pool.capacity := by
  by_contra over
  have := valid.outside i (by omega)
  simp_all

theorem Valid.ne_invalid {pool : ObjectPool α} (valid : pool.Valid) {i : Nat}
    (used : pool.inUse i = true) : i ≠ invalidPoolIndex := by
  have := valid.lt_capacity used
  have := valid.bounded
  omega

/-- `allocate` hands out the head of the freelist: a slot below the capacity that was free. -/
theorem Valid.freeHead_free {pool : ObjectPool α} (valid : pool.Valid)
    (available : pool.freeHead ≠ invalidPoolIndex) :
    pool.freeHead < pool.capacity ∧ pool.inUse pool.freeHead = false := by
  obtain ⟨_,_,free,list,_,members,_⟩ := valid
  cases free with
  | nil => exact absurd list available
  | cons i rest => exact (members pool.freeHead).mp (by rw [list.1]; simp)

theorem Valid.taken {pool : ObjectPool α} (valid : pool.Valid)
    (available : pool.freeHead ≠ invalidPoolIndex) (value : α) : (pool.taken value).Valid := by
  obtain ⟨bounded,outside,free,list,distinct,members,count⟩ := valid
  cases free with
  | nil => exact absurd list available
  | cons i rest =>
    obtain ⟨head,tail⟩ := list
    have fresh : i ∉ rest := (List.nodup_cons.mp distinct).1
    have bound : i < pool.capacity := ((members i).mp (by simp)).1
    refine ⟨bounded,?_,rest,?_,(List.nodup_cons.mp distinct).2,?_,?_⟩
    · intro j over
      rw [taken_capacity] at over
      rw [inUse_taken,head,if_neg (by omega)]
      exact outside j over
    · have moved : FreeList (pool.taken value) (pool.nextFree i) rest := tail.congr (by simp)
      simpa [head] using moved
    · intro j
      simp only [inUse_taken,taken_capacity,head]
      by_cases same : j = i
      · subst same; simp [fresh]
      · have := members j
        simp_all
    · simp only [taken_size,taken_capacity]
      simp at count
      omega

theorem Valid.deallocate {pool : ObjectPool α} (valid : pool.Valid) {i : Nat}
    (used : pool.inUse i = true) : (pool.deallocate i).Valid := by
  have bound := valid.lt_capacity used
  obtain ⟨bounded,outside,free,list,distinct,members,count⟩ := valid
  have missing : i ∉ free := fun member => by simp_all
  have shorter := length_lt_of_missing distinct (fun j member => ((members j).mp member).1) bound
    missing
  refine ⟨bounded,?_,i :: free,⟨rfl,?_⟩,List.nodup_cons.mpr ⟨missing,distinct⟩,?_,?_⟩
  · intro j over
    rw [deallocate_capacity] at over
    rw [inUse_deallocate,if_neg (by omega)]
    exact outside j over
  · rw [nextFree_deallocate,if_pos rfl]
    exact list.congr fun j member => by
      rw [nextFree_deallocate,if_neg (fun same : j = i => missing (same ▸ member))]
  · intro j
    simp only [List.mem_cons,inUse_deallocate,deallocate_capacity]
    by_cases same : j = i
    · subst same; simp [bound]
    · simp [same,members j]
  · simp only [deallocate_size,deallocate_capacity,List.length_cons]
    omega

/-- An exhausted pool is a full one: the freelist is empty exactly when every slot is taken. -/
theorem Valid.freeHead_invalid_iff {pool : ObjectPool α} (valid : pool.Valid) :
    pool.freeHead = invalidPoolIndex ↔ pool.size = pool.capacity := by
  obtain ⟨bounded,_,free,list,_,members,count⟩ := valid
  cases free with
  | nil => exact ⟨fun _ => by simpa using count,fun _ => list⟩
  | cons i rest =>
    have bound := ((members i).mp (List.mem_cons_self _ _)).1
    simp only [List.length_cons] at count
    rw [list.1]
    constructor <;> intro <;> omega

/-- `size` counts the slots in use below the capacity; the freelist counts the others. -/
theorem Valid.size_eq_count {pool : ObjectPool α} (valid : pool.Valid) :
    pool.size = (List.range pool.capacity).countP fun i => pool.inUse i := by
  obtain ⟨_,_,free,_,distinct,members,count⟩ := valid
  have perm : free.Perm ((List.range pool.capacity).filter fun i => decide (pool.inUse i = false)) :=
    (List.perm_ext_iff_of_nodup distinct ((List.nodup_range _).filter _)).mpr fun i => by
      simp [members i]
  have split := List.length_eq_countP_add_countP (fun i => pool.inUse i) (List.range pool.capacity)
  simp only [List.length_range,Bool.not_eq_true,List.countP_eq_length_filter,← perm.length_eq] at split ⊢
  omega

section Runs

variable [Inhabited α]

/-- The pools reachable from `ObjectPool(capacity)` by `allocate`, by `deallocate` of a slot in
use, as the source asserts, and by `clear`. -/
inductive Reachable : ObjectPool α → Prop
  | new (capacity : UInt32) : Reachable (ObjectPool.new capacity)
  | allocate {pool : ObjectPool α} (value : α) : Reachable pool → Reachable (pool.allocate value).2
  | deallocate {pool : ObjectPool α} {index : Nat} :
      Reachable pool → pool.inUse index = true → Reachable (pool.deallocate index)
  | clear {pool : ObjectPool α} : Reachable pool → Reachable pool.clear

theorem Reachable.valid {pool : ObjectPool α} (reach : Reachable pool) : pool.Valid := by
  induction reach with
  | new capacity => exact valid_new capacity
  | @allocate pool value _ ih =>
    by_cases full : pool.freeHead = invalidPoolIndex
    · rw [allocate_full _ _ full]
      exact ih
    · rw [allocate_free _ _ full]
      exact ih.taken full value
  | deallocate _ used ih => exact ih.deallocate used
  | clear _ ih => exact ih.clear

/-- The freelist discipline of every pool a sequence of calls reaches. The list read from
`free_head` through `next_free` ends, repeats no slot, and holds exactly the free slots below
the capacity; `size` counts the slots in use, and no slot from the capacity on is in use.
`allocate` fails exactly when `size` is the capacity, and otherwise hands out a slot that was
free, marks it in use and writes to no other slot. -/
theorem reachable_pool_discipline {pool : ObjectPool α} (reach : Reachable pool) :
    (∃ free, FreeList pool pool.freeHead free ∧ free.Nodup ∧
      ∀ i, i ∈ free ↔ i < pool.capacity ∧ pool.inUse i = false) ∧
    pool.size = (List.range pool.capacity).countP (fun i => pool.inUse i) ∧
    (∀ i, pool.capacity ≤ i → pool.inUse i = false) ∧
    ∀ value, ((pool.allocate value).1 = invalidPoolIndex ↔ pool.size = pool.capacity) ∧
      ((pool.allocate value).1 ≠ invalidPoolIndex →
        (pool.allocate value).1 < pool.capacity ∧ pool.inUse (pool.allocate value).1 = false ∧
        (pool.allocate value).2.inUse (pool.allocate value).1 = true ∧
        ∀ j, j ≠ (pool.allocate value).1 → (pool.allocate value).2.storage j = pool.storage j) := by
  have valid := reach.valid
  obtain ⟨_,outside,free,list,distinct,members,_⟩ := reach.valid
  refine ⟨⟨free,list,distinct,members⟩,valid.size_eq_count,outside,fun value => ?_⟩
  by_cases full : pool.freeHead = invalidPoolIndex
  · rw [allocate_full _ _ full]
    exact ⟨by simpa using valid.freeHead_invalid_iff.mp full,fun ne => absurd rfl ne⟩
  · rw [allocate_free _ _ full]
    obtain ⟨bound,unused⟩ := valid.freeHead_free full
    refine ⟨by simpa [full] using valid.freeHead_invalid_iff.not,fun _ => ⟨bound,unused,by simp,
      fun j other => by simp [taken,other]⟩⟩

theorem pool_discipline_after_allocate :
    Reachable ((ObjectPool.new 2 : ObjectPool Nat).allocate 7).2 ∧
      (((ObjectPool.new 2 : ObjectPool Nat).allocate 7).2.allocate 8).1 ≠ invalidPoolIndex ∧
      ((ObjectPool.new 2 : ObjectPool Nat).allocate 7).2.inUse
        (((ObjectPool.new 2 : ObjectPool Nat).allocate 7).2.allocate 8).1 = false :=
  have reach : Reachable ((ObjectPool.new 2 : ObjectPool Nat).allocate 7).2 := .allocate 7 (.new 2)
  have fresh : (((ObjectPool.new 2 : ObjectPool Nat).allocate 7).2.allocate 8).1 ≠ invalidPoolIndex := by
    decide
  ⟨reach,fresh,((reachable_pool_discipline reach).2.2.2 8).2 fresh |>.2.1⟩

end Runs

end ObjectPool

end ExchangeSim
