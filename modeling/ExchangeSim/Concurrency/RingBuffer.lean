import Mathlib.Data.List.Range
import Mathlib.Logic.Function.Basic
import ExchangeSim.Types

/-! `RingBuffer<T, Capacity>` (`ring_buffer.hpp`): a fixed array read at `tail_` and written
at `head_`, both advanced with `& MASK`, and a count `size_`. For a power-of-two capacity it
is a bounded FIFO: the list of its `size_` elements read from `tail_` behaves as the queue of
`Fifo`, call by call, and `head_` stays `size_` slots after `tail_`. The indices are `size_t`
in the source; they stay below `Capacity`, so `head_ + 1`, `tail_ + 1` and `++size_` never
wrap. A moved-from slot is outside the elements and is only read after being written again,
so `pop` leaves the array as it was. -/
namespace ExchangeSim

structure RingBuffer (α : Type) (capacity : Nat) where
  buffer : Nat → α
  head : Nat
  tail : Nat
  size : Nat

/-- A public call of the buffer. Both `push` overloads store the same value. -/
inductive RingCall (α : Type) where
  | push (value : α)
  | pop
  | popInto (out : α)
  | peek
  | clear
  deriving DecidableEq, Repr

/-- What a call returns: `push`'s flag, `pop()`'s optional value, `pop(out)`'s flag with what
`out` holds after it, and the element `peek` points to, if any. -/
inductive RingReply (α : Type) where
  | pushed (ok : Bool)
  | popped (value : Option α)
  | poppedInto (ok : Bool) (out : α)
  | peeked (value : Option α)
  | cleared
  deriving DecidableEq, Repr

namespace RingBuffer

variable {α : Type} {capacity : Nat}

/-- `RingBuffer()`: a value-initialised array and zero indices. -/
def new [Inhabited α] : RingBuffer α capacity := ⟨fun _ => default,0,0,0⟩

def push (rb : RingBuffer α capacity) (value : α) : Bool × RingBuffer α capacity :=
  if rb.size ≥ capacity then (false,rb)
  else (true,{ rb with
    buffer := Function.update rb.buffer rb.head value
    head := (rb.head + 1) &&& (capacity - 1)
    size := rb.size + 1 })

/-- `pop()`. -/
def pop (rb : RingBuffer α capacity) : Option α × RingBuffer α capacity :=
  if rb.size = 0 then (none,rb)
  else (some (rb.buffer rb.tail),{ rb with tail := (rb.tail + 1) &&& (capacity - 1), size := rb.size - 1 })

/-- `pop(T& out)`: the flag and what `out` holds after the call. -/
def popInto (rb : RingBuffer α capacity) (out : α) : (Bool × α) × RingBuffer α capacity :=
  if rb.size = 0 then ((false,out),rb)
  else ((true,rb.buffer rb.tail),{ rb with tail := (rb.tail + 1) &&& (capacity - 1), size := rb.size - 1 })

/-- `peek`: the element `tail_` points to, or `nullptr`. -/
def peek (rb : RingBuffer α capacity) : Option α :=
  if rb.size = 0 then none else some (rb.buffer rb.tail)

def empty (rb : RingBuffer α capacity) : Bool := rb.size == 0

def full (rb : RingBuffer α capacity) : Bool := decide (rb.size ≥ capacity)

def clear (rb : RingBuffer α capacity) : RingBuffer α capacity := { rb with head := 0, tail := 0, size := 0 }

def perform (rb : RingBuffer α capacity) : RingCall α → RingReply α × RingBuffer α capacity
  | .push value => (.pushed (rb.push value).1,(rb.push value).2)
  | .pop => (.popped rb.pop.1,rb.pop.2)
  | .popInto out => (.poppedInto (rb.popInto out).1.1 (rb.popInto out).1.2,(rb.popInto out).2)
  | .peek => (.peeked rb.peek,rb)
  | .clear => (.cleared,rb.clear)

def run (rb : RingBuffer α capacity) : List (RingCall α) → List (RingReply α) × RingBuffer α capacity
  | [] => ([],rb)
  | call :: calls => ((rb.perform call).1 :: ((rb.perform call).2.run calls).1,((rb.perform call).2.run calls).2)

/-- The elements, oldest first: `size_` slots read from `tail_` around the array. -/
def contents (rb : RingBuffer α capacity) : List α :=
  (List.range rb.size).map fun k => rb.buffer ((rb.tail + k) % capacity)

end RingBuffer

namespace Fifo

variable {α : Type}

/-- The bounded FIFO the ring buffer implements, as a list, oldest first: a push succeeds
exactly when the queue is shorter than the capacity, and appends. -/
def push (capacity : Nat) (q : List α) (value : α) : Bool × List α :=
  if q.length < capacity then (true,q ++ [value]) else (false,q)

def perform (capacity : Nat) (q : List α) : RingCall α → RingReply α × List α
  | .push value => (.pushed (push capacity q value).1,(push capacity q value).2)
  | .pop => (.popped q.head?,q.tail)
  | .popInto out => (.poppedInto (!q.isEmpty) (q.head?.getD out),q.tail)
  | .peek => (.peeked q.head?,q)
  | .clear => (.cleared,[])

def run (capacity : Nat) (q : List α) : List (RingCall α) → List (RingReply α) × List α
  | [] => ([],q)
  | call :: calls =>
    ((perform capacity q call).1 :: (run capacity (perform capacity q call).2 calls).1,
      (run capacity (perform capacity q call).2 calls).2)

end Fifo

namespace RingBuffer

variable {α : Type} {capacity : Nat} {rb : RingBuffer α capacity}

/-- The ring discipline: both indices are slots, at most `Capacity` elements, and `head_` is
`size_` slots after `tail_`. -/
structure Wf (rb : RingBuffer α capacity) : Prop where
  tail : rb.tail < capacity
  size : rb.size ≤ capacity
  head : rb.head = (rb.tail + rb.size) % capacity

/-- For a power-of-two capacity, `& MASK` is the remainder by the capacity. -/
theorem mask_eq_mod (pow : capacity.isPowerOfTwo) (x : Nat) : x &&& (capacity - 1) = x % capacity := by
  obtain ⟨k,rfl⟩ := pow
  exact Nat.and_pow_two_sub_one_eq_mod x k

@[simp] theorem contents_length (rb : RingBuffer α capacity) : rb.contents.length = rb.size := by
  simp [contents]

theorem contents_clear (rb : RingBuffer α capacity) : rb.clear.contents = [] := by
  simp [contents,clear]

/-- Writing at `head_` and counting it appends to the elements. -/
theorem contents_push (wf : rb.Wf) (room : rb.size < capacity) (value : α) :
    ({ rb with
      buffer := Function.update rb.buffer rb.head value
      head := (rb.head + 1) % capacity
      size := rb.size + 1 } : RingBuffer α capacity).contents = rb.contents ++ [value] := by
  rw [wf.head]
  simp only [contents,List.range_succ,List.map_append,List.map_cons,List.map_nil,Function.update_same]
  congr 1
  refine List.map_congr_left fun k member => ?_
  exact Function.update_noteq (mod_ne_of_lt (List.mem_range.mp member) room) _ _

/-- The oldest element is at `tail_`; the others follow the next slot. -/
theorem contents_pop (wf : rb.Wf) (nonempty : rb.size ≠ 0) :
    rb.contents = rb.buffer rb.tail ::
      ({ rb with tail := (rb.tail + 1) % capacity, size := rb.size - 1 } : RingBuffer α capacity).contents := by
  obtain ⟨n,size⟩ : ∃ n, rb.size = n + 1 := ⟨rb.size - 1,by omega⟩
  simp only [contents,size,List.range_succ_eq_map,List.map_cons,List.map_map,Nat.add_zero,
    Nat.mod_eq_of_lt wf.tail,Nat.add_sub_cancel]
  congr 1
  refine List.map_congr_left fun k _ => ?_
  simp [Nat.add_mod_mod,Nat.add_assoc,Nat.add_comm 1]

theorem Wf.push (wf : rb.Wf) (room : rb.size < capacity) (value : α) :
    Wf ({ rb with
      buffer := Function.update rb.buffer rb.head value
      head := (rb.head + 1) % capacity
      size := rb.size + 1 } : RingBuffer α capacity) :=
  ⟨wf.tail,room,by simp only [wf.head,Nat.mod_add_mod,Nat.add_assoc]⟩

theorem Wf.pop (wf : rb.Wf) (nonempty : rb.size ≠ 0) :
    Wf ({ rb with tail := (rb.tail + 1) % capacity, size := rb.size - 1 } : RingBuffer α capacity) :=
  ⟨Nat.mod_lt _ (by have := wf.tail; omega),by dsimp only; have := wf.size; omega,by
    simp only [wf.head,Nat.mod_add_mod]
    congr 1
    omega⟩

theorem wf_clear (positive : 0 < capacity) (rb : RingBuffer α capacity) : rb.clear.Wf :=
  ⟨positive,Nat.zero_le _,by simp [clear]⟩

/-- One call on a well-formed buffer is the call on the queue of its elements, and keeps
the buffer well formed. -/
theorem Wf.perform (wf : rb.Wf) (pow : capacity.isPowerOfTwo) :
    ∀ call, (rb.perform call).1 = (Fifo.perform capacity rb.contents call).1 ∧
      (rb.perform call).2.contents = (Fifo.perform capacity rb.contents call).2 ∧ (rb.perform call).2.Wf
  | .push value => by
    by_cases full : rb.size ≥ capacity
    · simp [RingBuffer.perform,Fifo.perform,RingBuffer.push,Fifo.push,full,Nat.not_lt.mpr full,wf]
    · have room : rb.size < capacity := Nat.lt_of_not_le full
      simp only [RingBuffer.perform,Fifo.perform,RingBuffer.push,Fifo.push,if_neg full,contents_length,
        if_pos room,mask_eq_mod pow]
      exact ⟨trivial,contents_push wf room value,wf.push room value⟩
  | .pop => by
    by_cases empty : rb.size = 0
    · simp [RingBuffer.perform,Fifo.perform,RingBuffer.pop,empty,wf,contents]
    · simp only [RingBuffer.perform,Fifo.perform,RingBuffer.pop,if_neg empty,mask_eq_mod pow]
      rw [contents_pop wf empty]
      exact ⟨rfl,rfl,wf.pop empty⟩
  | .popInto out => by
    by_cases empty : rb.size = 0
    · simp [RingBuffer.perform,Fifo.perform,RingBuffer.popInto,empty,wf,contents]
    · simp only [RingBuffer.perform,Fifo.perform,RingBuffer.popInto,if_neg empty,mask_eq_mod pow]
      rw [contents_pop wf empty]
      exact ⟨rfl,rfl,wf.pop empty⟩
  | .peek => by
    by_cases empty : rb.size = 0
    · simp [RingBuffer.perform,Fifo.perform,RingBuffer.peek,empty,wf,contents]
    · simp only [RingBuffer.perform,Fifo.perform,RingBuffer.peek,if_neg empty]
      rw [contents_pop wf empty]
      exact ⟨rfl,trivial,wf⟩
  | .clear => ⟨rfl,contents_clear rb,wf_clear (Nat.pos_of_isPowerOfTwo pow) rb⟩

theorem Wf.run (pow : capacity.isPowerOfTwo) : ∀ (calls : List (RingCall α)) {rb : RingBuffer α capacity},
    rb.Wf → (rb.run calls).1 = (Fifo.run capacity rb.contents calls).1 ∧
      (rb.run calls).2.contents = (Fifo.run capacity rb.contents calls).2 ∧ (rb.run calls).2.Wf
  | [], _, wf => ⟨rfl,rfl,wf⟩
  | call :: calls, rb, wf => by
    obtain ⟨reply,contents,wf'⟩ := wf.perform pow call
    obtain ⟨replies,contents',wf''⟩ := Wf.run pow calls wf'
    rw [contents] at replies contents'
    exact ⟨by simp only [RingBuffer.run,Fifo.run,reply,replies],contents',wf''⟩

/-- `RingBuffer<T, Capacity>` is a bounded FIFO. For a power-of-two capacity, every sequence
of calls from the constructor returns what the queue `Fifo` returns: a push succeeds exactly
when fewer than `Capacity` elements are held, and appends; `pop` returns and removes the
oldest element, or reports empty; `peek` gives the oldest. Throughout, the elements read from
`tail_` are the queue, `size()` is its length, and `head_ = (tail_ + size_) % Capacity`. -/
theorem ringBuffer_bounded_fifo [Inhabited α] (pow : capacity.isPowerOfTwo) (calls : List (RingCall α)) :
    ((RingBuffer.new : RingBuffer α capacity).run calls).1 = (Fifo.run capacity [] calls).1 ∧
      ((RingBuffer.new : RingBuffer α capacity).run calls).2.contents = (Fifo.run capacity [] calls).2 ∧
      ((RingBuffer.new : RingBuffer α capacity).run calls).2.size = (Fifo.run capacity [] calls).2.length ∧
      ((RingBuffer.new : RingBuffer α capacity).run calls).2.head =
        (((RingBuffer.new : RingBuffer α capacity).run calls).2.tail +
          ((RingBuffer.new : RingBuffer α capacity).run calls).2.size) % capacity := by
  have fresh : (RingBuffer.new : RingBuffer α capacity).Wf :=
    ⟨Nat.pos_of_isPowerOfTwo pow,Nat.zero_le _,by simp [RingBuffer.new]⟩
  obtain ⟨replies,queue,wf⟩ := Wf.run pow calls fresh
  have empty : (RingBuffer.new : RingBuffer α capacity).contents = [] := by simp [contents,RingBuffer.new]
  rw [empty] at replies queue
  exact ⟨replies,queue,by rw [← contents_length,queue],wf.head⟩

theorem ring_of_four :
    (4 : Nat).isPowerOfTwo ∧
      ((RingBuffer.new : RingBuffer Nat 4).run [.push 1,.push 2,.pop,.peek]).1 =
        [.pushed true,.pushed true,.popped (some 1),.peeked (some 2)] :=
  have pow : (4 : Nat).isPowerOfTwo := ⟨2,rfl⟩
  ⟨pow,(ringBuffer_bounded_fifo pow _).1.trans (by decide)⟩

end RingBuffer

end ExchangeSim
