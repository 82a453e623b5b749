import Mathlib.Data.BitVec
import Mathlib.Algebra.Order.Group.Nat
import ExchangeSim.Types

/-! `SpscSemaphoreQueue<T, Capacity>` (`spsc_semaphore_queue.hpp`) for `Capacity = 2^k`, as
a step relation over one producer and one consumer. A call is a sequence of atomic steps:
the acquire of a semaphore (a failed `try_acquire` or `try_acquire_for` is a step that
changes nothing), the slot access at `index & MASK` together with the relaxed load of the
thread's own index, the release store of that index, and the release of the other
semaphore. A blocked `acquire` takes no step. `head_` and `tail_` are `size_t` counters.

Two ghost lists record the values of the pushes and of the pops that have returned; the
C++ object has no such fields. -/
namespace ExchangeSim

/-- Where the producer is in a push. -/
inductive Producer (α : Type) where
  | idle
  | acquired (value : α)
  | written (value : α) (head : BitVec 64)
  | published (value : α)
  deriving DecidableEq, Repr

/-- Where the consumer is in a pop. -/
inductive Consumer (α : Type) where
  | idle
  | acquired
  | read (value : α) (tail : BitVec 64)
  | retired (value : α)
  deriving DecidableEq, Repr

namespace Producer

variable {α : Type}

/-- 1 between the acquire of `free_slots_` and the release of `filled_slots_`. -/
def inside : Producer α → Nat
  | .idle => 0
  | _ => 1

/-- The value in flight after its slot write. -/
def wrote : Producer α → List α
  | .written value _ => [value]
  | .published value => [value]
  | _ => []

/-- 1 between the store of `head_` and the release. -/
def stored : Producer α → Nat
  | .published _ => 1
  | _ => 0

theorem stored_le_inside (producer : Producer α) : producer.stored ≤ producer.inside := by
  cases producer <;> simp [stored,inside]

end Producer

namespace Consumer

variable {α : Type}

/-- 1 between the acquire of `filled_slots_` and the release of `free_slots_`. -/
def inside : Consumer α → Nat
  | .idle => 0
  | _ => 1

/-- The value in flight after its slot read. -/
def took : Consumer α → List α
  | .read value _ => [value]
  | .retired value => [value]
  | _ => []

/-- 1 between the store of `tail_` and the release. -/
def stored : Consumer α → Nat
  | .retired _ => 1
  | _ => 0

theorem stored_le_inside (consumer : Consumer α) : consumer.stored ≤ consumer.inside := by
  cases consumer <;> simp [stored,inside]

end Consumer

structure SpscSemaphoreQueue (α : Type) where
  /-- `buffer_`: slot `i` for `i < Capacity`. -/
  buffer : Nat → α
  head : BitVec 64
  tail : BitVec 64
  freeSlots : Nat
  filledSlots : Nat
  producer : Producer α
  consumer : Consumer α
  /-- Ghost: the values of the returned pushes, in order. -/
  pushed : List α
  /-- Ghost: the values of the returned pops, in order. -/
  popped : List α

namespace SpscSemaphoreQueue

variable {α : Type} (k : Nat)

/-- `MASK = Capacity - 1`. -/
def mask : BitVec 64 := BitVec.ofNat 64 (2^k - 1)

/-- `SpscSemaphoreQueue()`: value-initialised slots, both indices 0, `free_slots_{Capacity}`
and `filled_slots_{0}`. -/
def new [Inhabited α] : SpscSemaphoreQueue α := ⟨fun _ => default,0,0,2^k,0,.idle,.idle,[],[]⟩

/-- One atomic step of the producer in `push`, `try_push` or `try_push_for`. -/
inductive Push : SpscSemaphoreQueue α → SpscSemaphoreQueue α → Prop
  | acquireFree (q : SpscSemaphoreQueue α) (value : α) (idle : q.producer = .idle)
      (available : 0 < q.freeSlots) :
      Push q { q with freeSlots := q.freeSlots - 1, producer := .acquired value }
  | failFree (q : SpscSemaphoreQueue α) (idle : q.producer = .idle) : Push q q
  | write (q : SpscSemaphoreQueue α) (value : α) (acquired : q.producer = .acquired value) :
      Push q { q with
        buffer := Function.update q.buffer (q.head &&& mask k).toNat value
        producer := .written value q.head }
  | storeHead (q : SpscSemaphoreQueue α) (value : α) (head : BitVec 64)
      (written : q.producer = .written value head) :
      Push q { q with head := head + 1, producer := .published value }
  | releaseFilled (q : SpscSemaphoreQueue α) (value : α) (published : q.producer = .published value) :
      Push q { q with filledSlots := q.filledSlots + 1, producer := .idle, pushed := q.pushed ++ [value] }

/-- One atomic step of the consumer in `pop`, `try_pop` or `try_pop_for`. -/
inductive Pop : SpscSemaphoreQueue α → SpscSemaphoreQueue α → Prop
  | acquireFilled (q : SpscSemaphoreQueue α) (idle : q.consumer = .idle) (available : 0 < q.filledSlots) :
      Pop q { q with filledSlots := q.filledSlots - 1, consumer := .acquired }
  | failFilled (q : SpscSemaphoreQueue α) (idle : q.consumer = .idle) : Pop q q
  | read (q : SpscSemaphoreQueue α) (acquired : q.consumer = .acquired) :
      Pop q { q with consumer := .read (q.buffer (q.tail &&& mask k).toNat) q.tail }
  | storeTail (q : SpscSemaphoreQueue α) (value : α) (tail : BitVec 64)
      (read : q.consumer = .read value tail) :
      Pop q { q with tail := tail + 1, consumer := .retired value }
  | releaseFree (q : SpscSemaphoreQueue α) (value : α) (retired : q.consumer = .retired value) :
      Pop q { q with freeSlots := q.freeSlots + 1, consumer := .idle, popped := q.popped ++ [value] }

/-- A step of either thread. -/
inductive Step : SpscSemaphoreQueue α → SpscSemaphoreQueue α → Prop
  | push {q q' : SpscSemaphoreQueue α} : Push k q q' → Step q q'
  | pop {q q' : SpscSemaphoreQueue α} : Pop k q q' → Step q q'

/-- The states of every interleaving of the two threads' calls from a new queue. -/
inductive Reachable [Inhabited α] : SpscSemaphoreQueue α → Prop
  | new : Reachable (new k)
  | step {q q' : SpscSemaphoreQueue α} : Reachable q → Step k q q' → Reachable q'

/-- The values written to slots, in order. -/
def writes (q : SpscSemaphoreQueue α) : List α := q.pushed ++ q.producer.wrote

/-- The values read from slots, in order. -/
def reads (q : SpscSemaphoreQueue α) : List α := q.popped ++ q.consumer.took

/-- The queue's invariant: the permits of the two semaphores and the two threads add up to
`Capacity`; the values read are a prefix of the values written; `head_` and `tail_` count
their stores; the `p`-th value written sits in slot `p % Capacity` until it is read. -/
structure Inv (q : SpscSemaphoreQueue α) : Prop where
  semaphores : q.freeSlots + q.filledSlots + q.producer.inside + q.consumer.inside = 2^k
  filled : q.filledSlots + q.popped.length + q.consumer.inside = q.pushed.length
  order : q.reads <+: q.writes
  head : q.head = BitVec.ofNat 64 (q.pushed.length + q.producer.stored)
  tail : q.tail = BitVec.ofNat 64 (q.popped.length + q.consumer.stored)
  headLocal : ∀ value head, q.producer = .written value head → head = q.head
  tailLocal : ∀ value tail, q.consumer = .read value tail → tail = q.tail
  slots : ∀ p value, q.reads.length ≤ p → q.writes[p]? = some value → q.buffer (p % 2^k) = value

variable {k}

/-- `index & MASK` on a `size_t` counter is the counter modulo `Capacity`. -/
theorem toNat_and_mask (bound : k < 64) (n : Nat) :
    (BitVec.ofNat 64 n &&& mask k).toNat = n % 2^k := by
  have small : 2^k - 1 < 2^64 := by
    have := Nat.pow_lt_pow_right (by decide : 1 < 2) bound
    omega
  rw [mask,BitVec.toNat_and,BitVec.toNat_ofNat,BitVec.toNat_ofNat,Nat.mod_eq_of_lt small,
    Nat.and_pow_two_sub_one_eq_mod,Nat.mod_mod_of_dvd _ (pow_dvd_pow 2 bound.le)]

theorem prefix_concat {l P : List α} {value : α} (pre : l <+: P) (next : P[l.length]? = some value) :
    l ++ [value] <+: P := by
  rw [List.prefix_iff_eq_take] at pre ⊢
  rw [List.length_append,List.length_singleton,List.take_succ,next,← pre]
  rfl

/-- A position of a list with one element appended holds an element of the list or the new one. -/
theorem getElem?_concat_cases {l : List α} {a b : α} {p : Nat} (found : (l ++ [a])[p]? = some b) :
    (p < l.length ∧ l[p]? = some b) ∨ (p = l.length ∧ b = a) := by
  rw [List.getElem?_append] at found
  by_cases old : p < l.length
  · exact .inl ⟨old,by rwa [if_pos old] at found⟩
  · rw [if_neg old] at found
    have last : p - l.length = 0 := by
      have := (List.getElem?_eq_some_iff.mp found).1
      rw [List.length_singleton] at this
      omega
    rw [last,List.getElem?_cons_zero,Option.some.injEq] at found
    exact .inr ⟨by omega,found.symm⟩

variable {q q' : SpscSemaphoreQueue α}

/-- The producer about to write holds a permit of `free_slots_`, so fewer than `Capacity`
values are unread and its slot holds none of them. -/
theorem Inv.write_apart (inv : Inv k q) (bound : k < 64) (value : α) (acquired : q.producer = .acquired value) :
    ∀ p, (q.popped ++ q.consumer.took).length ≤ p → p < q.pushed.length →
      (q.head &&& mask k).toNat ≠ p % 2^k := by
  intro p read old
  have room : q.pushed.length < (q.popped ++ q.consumer.took).length + 2^k := by
    have := inv.semaphores
    have := inv.filled
    rw [acquired] at *
    simp only [List.length_append,Producer.inside] at *
    omega
  have distinct := mod_ne_of_lt (r := (q.popped ++ q.consumer.took).length) (c := 2^k)
    (Nat.sub_lt_sub_right read old) (by omega)
  rw [Nat.add_sub_cancel' read,Nat.add_sub_cancel' (read.trans old.le)] at distinct
  rw [inv.head,acquired,toNat_and_mask bound]
  exact distinct.symm

/-- A producer step keeps the invariant. -/
theorem Inv.push (bound : k < 64) (inv : Inv k q) (step : Push k q q') : Inv k q' := by
  have apart := inv.write_apart bound
  obtain ⟨semaphores,filled,order,head,tail,headLocal,tailLocal,slots⟩ := inv
  simp only [writes,reads] at order slots
  cases step with
  | acquireFree value idle available =>
    simp only [idle,Producer.inside,Producer.wrote,Producer.stored] at semaphores order head slots
    exact ⟨(by simp only [Producer.inside]; omega),filled,(by simpa only [writes,reads,Producer.wrote,List.append_nil] using order),
      (by simpa [Producer.stored] using head),tail,(fun _ _ h => by cases h),tailLocal,
      (by simpa only [writes,reads,Producer.wrote,List.append_nil] using slots)⟩
  | failFree => exact ⟨semaphores,filled,order,head,tail,headLocal,tailLocal,slots⟩
  | write value acquired =>
    have slot : (q.head &&& mask k).toNat = q.pushed.length % 2^k := by
      rw [head,acquired,toNat_and_mask bound]; rfl
    simp only [acquired,Producer.inside,Producer.wrote,Producer.stored,List.append_nil,Nat.add_zero]
      at semaphores order head slots
    refine ⟨(by simpa [Producer.inside] using semaphores),filled,
      (by simpa only [writes,reads,Producer.wrote,List.append_nil] using order.trans (List.prefix_append _ _)),
      (by simpa [Producer.stored] using head),tail,(fun _ _ h => by cases h; rfl),tailLocal,?_⟩
    intro p v read written
    simp only [writes,reads,Producer.wrote] at read written ⊢
    rcases Nat.lt_or_ge p q.pushed.length with old | new
    · rw [List.getElem?_append_left old] at written
      rw [Function.update_noteq (apart value acquired p read old).symm]
      exact slots p v read written
    · have last : p = q.pushed.length := by
        have := (List.getElem?_eq_some_iff.mp written).1
        simp only [List.length_append,List.length_singleton] at this
        omega
      subst last
      simp only [List.getElem?_concat_length,Option.some.injEq] at written
      rw [slot,written,Function.update_same]
  | storeHead value h written =>
    have same := headLocal value h written
    simp only [written,Producer.inside,Producer.wrote,Producer.stored,Nat.add_zero] at semaphores order head slots
    refine ⟨(by simpa [Producer.inside] using semaphores),filled,(by simpa only [writes,reads,Producer.wrote,List.append_nil] using order),
      ?_,tail,(fun _ _ h => by cases h),tailLocal,(by simpa only [writes,reads,Producer.wrote,List.append_nil] using slots)⟩
    simp only [Producer.stored,same,head]
    exact BitVec.ofNat_add_ofNat _ 1
  | releaseFilled value published =>
    simp only [published,Producer.inside,Producer.wrote,Producer.stored] at semaphores order head slots
    refine ⟨(by simp only [Producer.inside]; omega),(by simp only [List.length_append,List.length_singleton]; omega),
      (by simpa only [writes,reads,Producer.wrote,List.append_nil] using order),(by simpa [Producer.stored] using head),tail,
      (fun _ _ h => by cases h),tailLocal,(by simpa only [writes,reads,Producer.wrote,List.append_nil] using slots)⟩

/-- A consumer step keeps the invariant. -/
theorem Inv.pop (bound : k < 64) (inv : Inv k q) (step : Pop k q q') : Inv k q' := by
  obtain ⟨semaphores,filled,order,head,tail,headLocal,tailLocal,slots⟩ := inv
  simp only [writes,reads] at order slots
  cases step with
  | acquireFilled idle available =>
    simp only [idle,Consumer.inside,Consumer.took,Consumer.stored] at semaphores filled order tail slots
    exact ⟨(by simp only [Consumer.inside]; omega),(by simp only [Consumer.inside]; omega),
      (by simpa only [writes,reads,Consumer.took,List.append_nil] using order),head,(by simpa [Consumer.stored] using tail),
      headLocal,(fun _ _ h => by cases h),(by simpa only [writes,reads,Consumer.took,List.append_nil] using slots)⟩
  | failFilled => exact ⟨semaphores,filled,order,head,tail,headLocal,tailLocal,slots⟩
  | read acquired =>
    simp only [acquired,Consumer.inside,Consumer.took,Consumer.stored,List.append_nil,Nat.add_zero]
      at semaphores filled order tail slots
    have present : q.popped.length < (q.pushed ++ q.producer.wrote).length := by
      simp only [List.length_append]; omega
    have found := slots q.popped.length _ le_rfl (List.getElem?_eq_getElem present)
    rw [← toNat_and_mask bound,← tail] at found
    refine ⟨(by simpa [Consumer.inside] using semaphores),(by simpa [Consumer.inside] using filled),?_,head,
      (by simpa [Consumer.stored] using tail),headLocal,(fun _ _ h => by cases h; rfl),?_⟩
    · have next := prefix_concat order (List.getElem?_eq_getElem present)
      rw [← found] at next
      simpa only [writes,reads,Consumer.took,List.append_nil] using next
    · intro p v read written
      simp only [reads,Consumer.took,List.length_append,List.length_singleton] at read
      exact slots p v (by omega) written
  | storeTail value t read =>
    have same := tailLocal value t read
    simp only [read,Consumer.inside,Consumer.took,Consumer.stored,Nat.add_zero] at semaphores filled order tail slots
    refine ⟨(by simpa [Consumer.inside] using semaphores),(by simpa [Consumer.inside] using filled),
      (by simpa only [writes,reads,Consumer.took,List.append_nil] using order),head,?_,headLocal,(fun _ _ h => by cases h),
      (by simpa only [writes,reads,Consumer.took,List.append_nil] using slots)⟩
    simp only [Consumer.stored,same,tail]
    exact BitVec.ofNat_add_ofNat _ 1
  | releaseFree value retired =>
    simp only [retired,Consumer.inside,Consumer.took,Consumer.stored] at semaphores filled order tail slots
    refine ⟨(by simp only [Consumer.inside]; omega),
      (by simp only [Consumer.inside,List.length_append,List.length_singleton]; omega),
      (by simpa only [writes,reads,Consumer.took,List.append_nil] using order),head,(by simpa [Consumer.stored] using tail),headLocal,
      (fun _ _ h => by cases h),(by simpa only [writes,reads,Consumer.took,List.append_nil] using slots)⟩

theorem Inv.step (bound : k < 64) (inv : Inv k q) : Step k q q' → Inv k q'
  | .push step => inv.push bound step
  | .pop step => inv.pop bound step

theorem inv_new [Inhabited α] : Inv k (new k : SpscSemaphoreQueue α) where
  semaphores := rfl
  filled := rfl
  order := List.prefix_refl _
  head := rfl
  tail := rfl
  headLocal _ _ h := by cases h
  tailLocal _ _ h := by cases h
  slots _ _ _ h := by simp [writes,new,Producer.wrote] at h

theorem Reachable.inv [Inhabited α] (bound : k < 64) (reach : Reachable k q) : Inv k q := by
  induction reach with
  | new => exact inv_new
  | step _ step ih => exact ih.step bound step

variable (k) in
/-- A whole `push` with no step of the consumer between its own. -/
def push (q : SpscSemaphoreQueue α) (value : α) : SpscSemaphoreQueue α :=
  { q with
    buffer := Function.update q.buffer (q.head &&& mask k).toNat value
    head := q.head + 1
    freeSlots := q.freeSlots - 1
    filledSlots := q.filledSlots + 1
    pushed := q.pushed ++ [value] }

/-- A whole push is a run of the producer's steps. -/
theorem Reachable.push [Inhabited α] (reach : Reachable k q) (idle : q.producer = .idle) (available : 0 < q.freeSlots)
    (value : α) : Reachable k (q.push k value) := by
  obtain ⟨buffer,head,tail,free,filled,producer,consumer,pushed,popped⟩ := q
  subst idle
  exact (((reach.step (.push (.acquireFree _ value rfl available))).step (.push (.write _ value rfl))).step
    (.push (.storeHead _ value _ rfl))).step (.push (.releaseFilled _ value rfl))

/-- The pops returned a prefix of the pushed values. -/
theorem Inv.popped_prefix (inv : Inv k q) : q.popped <+: q.pushed := by
  have read : q.popped <+: q.writes := (List.prefix_append _ _).trans inv.order
  refine List.prefix_of_prefix_length_le read (List.prefix_append _ _) ?_
  have := inv.filled
  omega

/-- `head - tail` as `size_t` is the number of stores of `head_` not matched by stores of
`tail_`, at most `Capacity`. -/
theorem Inv.size_le (inv : Inv k q) (bound : k < 64) : (q.head - q.tail).toNat ≤ 2^k := by
  have semaphores := inv.semaphores
  have filled := inv.filled
  have := q.producer.stored_le_inside
  have := q.consumer.stored_le_inside
  have capacity : 2^k < 2^64 := Nat.pow_lt_pow_right (by decide) bound
  rw [inv.head,inv.tail,BitVec.toNat_sub,BitVec.toNat_ofNat,BitVec.toNat_ofNat]
  omega

/-- Over every interleaving of the producer's and the consumer's calls: (a) the pops
returned, in order, a prefix of the pushed values; (b) the slot the producer is about to
write holds no value the consumer has yet to read, and every such value sits in its slot;
(c) the two semaphores' counts and the threads inside a call add up to `Capacity`; (d)
`head - tail` is at most `Capacity`. -/
theorem queue_safety [Inhabited α] (bound : k < 64) (reach : Reachable k q) :
    q.popped <+: q.pushed ∧
    (∀ value, q.producer = .acquired value → ∀ p, q.reads.length ≤ p → p < q.writes.length →
      (q.head &&& mask k).toNat ≠ p % 2^k) ∧
    (∀ p value, q.reads.length ≤ p → q.writes[p]? = some value → q.buffer (p % 2^k) = value) ∧
    q.freeSlots + q.filledSlots + q.producer.inside + q.consumer.inside = 2^k ∧
    (q.head - q.tail).toNat ≤ 2^k := by
  have inv := reach.inv bound
  refine ⟨inv.popped_prefix,fun value acquired p read written => ?_,inv.slots,inv.semaphores,inv.size_le bound⟩
  simp only [writes,acquired,Producer.wrote,List.append_nil] at written
  exact inv.write_apart bound value acquired p read written

/-- Two values pushed, the consumer reading the first, and the producer holding a permit for a
third. -/
theorem queue_safety_mid_pop :
    let pushed := ((new 2 : SpscSemaphoreQueue Nat).push 2 5).push 2 6
    let acquired : SpscSemaphoreQueue Nat := { pushed with filledSlots := pushed.filledSlots - 1, consumer := .acquired }
    let reading : SpscSemaphoreQueue Nat := { acquired with
      consumer := .read (acquired.buffer (acquired.tail &&& mask 2).toNat) acquired.tail }
    let s : SpscSemaphoreQueue Nat := { reading with freeSlots := reading.freeSlots - 1, producer := .acquired 7 }
    Reachable 2 s ∧ s.writes = [5,6] ∧ s.reads = [5] ∧
    (s.popped <+: s.pushed ∧
    (∀ value, s.producer = .acquired value → ∀ p, s.reads.length ≤ p → p < s.writes.length →
      (s.head &&& mask 2).toNat ≠ p % 2^2) ∧
    (∀ p value, s.reads.length ≤ p → s.writes[p]? = some value → s.buffer (p % 2^2) = value) ∧
    s.freeSlots + s.filledSlots + s.producer.inside + s.consumer.inside = 2^2 ∧
    (s.head - s.tail).toNat ≤ 2^2) := by
  intro pushed acquired reading s
  have twice : Reachable 2 pushed := ((Reachable.new.push rfl (by decide) 5).push rfl (by decide) 6)
  have reach : Reachable 2 s :=
    ((twice.step (.pop (.acquireFilled _ rfl (by decide)))).step (.pop (.read _ rfl))).step
      (.push (.acquireFree _ 7 rfl (by decide)))
  exact ⟨reach,rfl,by decide,queue_safety (by decide) reach⟩

end SpscSemaphoreQueue

end ExchangeSim
