import Mathlib.Algebra.Group.Nat.Basic
import Mathlib.Data.Nat.Defs

/-! `Arena` (`arena.hpp`): bump allocation from a buffer of `capacity_` bytes. `allocate`
rounds `offset_` up to the alignment with `(offset_ + alignment - 1) & ~(alignment - 1)`,
returns `nullptr` when `aligned_offset + size > capacity_`, and otherwise hands out the block at
`aligned_offset` and moves `offset_` to its end; `reset` moves `offset_` back to zero. All of it
is `size_t` arithmetic, modelled as `BitVec 64`, and a block is named by its offset from
`buffer_.get()`.

The rounding gives an offset aligned to any power of two, and the check keeps `offset_` and the
end of every block, as `size_t`, within `capacity_`. Over the integers the check fails: a `size`
close to `SIZE_MAX` makes `aligned_offset + size` wrap and pass, and moves `offset_` back to the
start of the buffer, so the next block lies inside blocks already handed out. When no sum wraps,
the blocks handed out since the last `reset` lie in the buffer, one after another. -/
namespace ExchangeSim

/-- The two `size_t` fields of `Arena`. The buffer is its base address: a block is named by
its offset from `buffer_.get()`. -/
structure Arena where
  capacity : BitVec 64
  offset : BitVec 64
  deriving DecidableEq, Repr

/-- A call of the arena. -/
inductive ArenaCall where
  | allocate (size alignment : BitVec 64)
  | reset
  deriving DecidableEq, Repr

/-- A block `allocate(size, alignment)` handed out: `ptr - buffer_.get()`, with the call's size
and alignment. -/
structure Block where
  offset : BitVec 64
  size : BitVec 64
  alignment : BitVec 64
  deriving DecidableEq, Repr

namespace Block

/-- The block's bytes `[offset, offset + size)`, counted over the integers, lie in the buffer. -/
def Inside (capacity : BitVec 64) (block : Block) : Prop :=
  block.offset.toNat + block.size.toNat ≤ capacity.toNat

/-- `ptr - buffer_` is a multiple of the alignment. -/
def Aligned (block : Block) : Prop := block.offset.toNat % block.alignment.toNat = 0

/-- No byte lies in both blocks: the later start is at or past the earlier end. -/
def Disjoint (block other : Block) : Prop :=
  min (block.offset.toNat + block.size.toNat) (other.offset.toNat + other.size.toNat) ≤
    max block.offset.toNat other.offset.toNat

instance (capacity : BitVec 64) (block : Block) : Decidable (block.Inside capacity) := Nat.decLe _ _

instance (block : Block) : Decidable block.Aligned := Nat.decEq _ _

instance (block other : Block) : Decidable (block.Disjoint other) := Nat.decLe _ _

theorem disjoint_of_le {block other : Block}
    (le : block.offset.toNat + block.size.toNat ≤ other.offset.toNat) : block.Disjoint other := by
  unfold Disjoint
  omega

end Block

/-- `allocate`'s precondition: the alignment is a power of two. -/
def ArenaCall.Valid : ArenaCall → Prop
  | .allocate _ alignment => alignment.toNat.isPowerOfTwo
  | .reset => True

/-- No sum the call computes wraps: its size and alignment fit in what `size_t` leaves above
the capacity. -/
def ArenaCall.Fits (capacity : BitVec 64) : ArenaCall → Prop
  | .allocate size alignment => capacity.toNat + alignment.toNat + size.toNat ≤ 2 ^ 64
  | .reset => True

instance (capacity : BitVec 64) : ∀ call : ArenaCall, Decidable (call.Fits capacity)
  | .allocate _ _ => Nat.decLe _ _
  | .reset => instDecidableTrue

namespace Arena

/-- `Arena(capacity)`. -/
def new (capacity : BitVec 64) : Arena := ⟨capacity,0⟩

/-- `aligned_offset` in `allocate`: `offset_` rounded up to the alignment, in `size_t`. -/
def alignedOffset (arena : Arena) (alignment : BitVec 64) : BitVec 64 :=
  (arena.offset + alignment - 1) &&& ~~~(alignment - 1)

/-- `allocate(size, alignment)`: the block's offset from `buffer_`, or `nullptr`. -/
def allocate (arena : Arena) (size alignment : BitVec 64) : Option (BitVec 64) × Arena :=
  if arena.alignedOffset alignment + size > arena.capacity then (none,arena)
  else (some (arena.alignedOffset alignment),{ arena with offset := arena.alignedOffset alignment + size })

def reset (arena : Arena) : Arena := { arena with offset := 0 }

def used (arena : Arena) : BitVec 64 := arena.offset

def remaining (arena : Arena) : BitVec 64 := arena.capacity - arena.offset

/-- One call, with the blocks handed out since the last `reset`, oldest first: the blocks a
caller may still be using. -/
def step (arena : Arena) (live : List Block) : ArenaCall → Arena × List Block
  | .allocate size alignment =>
    ((arena.allocate size alignment).2,
      live ++ ((arena.allocate size alignment).1.map fun offset => ⟨offset,size,alignment⟩).toList)
  | .reset => (arena.reset,[])

def run (arena : Arena) (live : List Block) : List ArenaCall → Arena × List Block
  | [] => (arena,live)
  | call :: calls => (arena.step live call).1.run (arena.step live call).2 calls

variable {arena : Arena} {size alignment : BitVec 64}

theorem allocate_of_lt (over : arena.capacity < arena.alignedOffset alignment + size) :
    arena.allocate size alignment = (none,arena) :=
  if_pos over

theorem allocate_of_le (le : arena.alignedOffset alignment + size ≤ arena.capacity) :
    arena.allocate size alignment =
      (some (arena.alignedOffset alignment),{ arena with offset := arena.alignedOffset alignment + size }) :=
  if_neg (BitVec.not_lt.mpr le)

theorem allocate_capacity : (arena.allocate size alignment).2.capacity = arena.capacity := by
  unfold allocate
  split <;> rfl

@[simp] theorem step_capacity (arena : Arena) (live : List Block) (call : ArenaCall) :
    (arena.step live call).1.capacity = arena.capacity := by
  cases call
  exacts [allocate_capacity,rfl]

@[simp] theorem run_capacity : ∀ (calls : List ArenaCall) (arena : Arena) (live : List Block),
    (arena.run live calls).1.capacity = arena.capacity
  | [], _, _ => rfl
  | call :: calls, arena, live => by rw [run,run_capacity calls,step_capacity]

section Rounding

variable (x : BitVec 64)

theorem add_sub_one_toNat (pos : 0 < alignment.toNat) :
    (x + alignment - 1).toNat = (x.toNat + alignment.toNat - 1) % 2 ^ 64 := by
  have := x.isLt
  have := alignment.isLt
  have one : (1 : BitVec 64).toNat = 1 := rfl
  simp only [BitVec.toNat_sub,BitVec.toNat_add,one]
  omega

/-- Clearing the bits of a mask and keeping them split the word. -/
theorem and_not_add_and (mask : BitVec 64) : (x &&& ~~~mask).toNat + (x &&& mask).toNat = x.toNat := by
  have disjoint : (x &&& ~~~mask) &&& (x &&& mask) = 0#64 := by
    ext i
    simp only [BitVec.getLsbD_and,BitVec.getLsbD_not,BitVec.getLsbD_zero]
    cases x.getLsbD i <;> cases mask.getLsbD i <;> simp
  have join : (x &&& ~~~mask) ||| (x &&& mask) = x := by
    ext i
    simp only [BitVec.getLsbD_or,BitVec.getLsbD_and,BitVec.getLsbD_not]
    cases x.getLsbD i <;> cases mask.getLsbD i <;> simp
  rw [← BitVec.toNat_add_of_and_eq_zero disjoint,BitVec.add_eq_or_of_and_eq_zero _ _ disjoint,join]

/-- For a power-of-two alignment, `x & ~(alignment - 1)` rounds `x` down to a multiple of it. -/
theorem and_not_toNat (pow : alignment.toNat.isPowerOfTwo) :
    (x &&& ~~~(alignment - 1)).toNat = x.toNat - x.toNat % alignment.toNat := by
  have split := and_not_add_and x (alignment - 1)
  obtain ⟨k,power⟩ := pow
  have pos : 0 < alignment.toNat := power ▸ Nat.two_pow_pos k
  have mask : (alignment - 1).toNat = 2 ^ k - 1 := by
    rw [BitVec.toNat_sub_of_le (BitVec.le_def.mpr (show (1 : BitVec 64).toNat ≤ alignment.toNat from pos)),power]
    rfl
  rw [BitVec.toNat_and x (alignment - 1),mask,Nat.and_pow_two_sub_one_eq_mod] at split
  rw [power]
  omega

end Rounding

/-- The rounding gives a multiple of a power-of-two alignment, even when `offset_ + alignment - 1`
wraps. -/
theorem alignedOffset_aligned (pow : alignment.toNat.isPowerOfTwo) :
    (arena.alignedOffset alignment).toNat % alignment.toNat = 0 := by
  rw [alignedOffset,and_not_toNat _ pow]
  exact Nat.sub_mod_eq_zero_of_mod_eq (Nat.mod_mod _ _).symm

/-- When `offset_ + alignment - 1` does not wrap, the rounding is the least multiple of the
alignment at or above `offset_`. -/
theorem alignedOffset_bounds (pow : alignment.toNat.isPowerOfTwo)
    (fits : arena.offset.toNat + alignment.toNat ≤ 2 ^ 64) :
    arena.offset.toNat ≤ (arena.alignedOffset alignment).toNat ∧
      (arena.alignedOffset alignment).toNat < arena.offset.toNat + alignment.toNat := by
  have pos : 0 < alignment.toNat := Nat.pos_of_isPowerOfTwo pow
  rw [alignedOffset,and_not_toNat _ pow,add_sub_one_toNat _ pos,Nat.mod_eq_of_lt (by omega)]
  have := Nat.mod_lt (arena.offset.toNat + alignment.toNat - 1) pos
  have := Nat.mod_le (arena.offset.toNat + alignment.toNat - 1) alignment.toNat
  omega

/-- What every run keeps when each alignment is a power of two: `offset_`, and the end of every
block handed out since the last `reset`, are within `capacity_` as `size_t`, and every such
block is aligned. -/
structure Wf (arena : Arena) (live : List Block) : Prop where
  used : arena.offset ≤ arena.capacity
  checked : ∀ block ∈ live, block.offset + block.size ≤ arena.capacity
  aligned : ∀ block ∈ live, block.Aligned

theorem wf_new (capacity : BitVec 64) : Wf (new capacity) [] :=
  ⟨BitVec.le_def.mpr (Nat.zero_le _),nofun,nofun⟩

theorem Wf.step {live : List Block} (wf : Wf arena live) :
    ∀ call : ArenaCall, call.Valid → Wf (arena.step live call).1 (arena.step live call).2
  | .allocate size alignment, pow => by
    by_cases over : arena.capacity < arena.alignedOffset alignment + size
    · simpa only [Arena.step,allocate_of_lt over,Option.map_none',Option.toList_none,List.append_nil] using wf
    · have le := BitVec.not_lt.mp over
      simp only [Arena.step,allocate_of_le le,Option.map_some',Option.toList_some]
      refine ⟨le,?_,?_⟩
      · simpa only [List.mem_append,List.mem_singleton] using
          fun block member => member.elim (wf.checked block) fun same => same ▸ le
      · simpa only [List.mem_append,List.mem_singleton] using
          fun block member => member.elim (wf.aligned block) fun same => same ▸ alignedOffset_aligned pow
  | .reset, _ => ⟨BitVec.le_def.mpr (Nat.zero_le _),nofun,nofun⟩

theorem Wf.run : ∀ (calls : List ArenaCall) {arena : Arena} {live : List Block}, Wf arena live →
    (∀ call ∈ calls, call.Valid) → Wf (arena.run live calls).1 (arena.run live calls).2
  | [], _, _, wf, _ => wf
  | call :: calls, _, _, wf, valid =>
    Wf.run calls (wf.step call (valid call (List.mem_cons_self _ _))) fun call' member =>
      valid call' (List.mem_cons_of_mem _ member)

/-- The bump discipline over the integers: the blocks handed out since the last `reset` lie
below `offset_`, each ending before the next begins. -/
structure Packed (arena : Arena) (live : List Block) : Prop where
  below : ∀ block ∈ live, block.offset.toNat + block.size.toNat ≤ arena.offset.toNat
  ordered : live.Pairwise fun block next => block.offset.toNat + block.size.toNat ≤ next.offset.toNat

theorem packed_new (capacity : BitVec 64) : Packed (new capacity) [] :=
  ⟨nofun,List.Pairwise.nil⟩

/-- A call none of whose sums wraps keeps the blocks packed below `offset_`. -/
theorem Packed.step {live : List Block} (wf : Wf arena live) (packed : Packed arena live) :
    ∀ call : ArenaCall, call.Valid → call.Fits arena.capacity →
      Packed (arena.step live call).1 (arena.step live call).2
  | .allocate size alignment, pow, fits => by
    by_cases over : arena.capacity < arena.alignedOffset alignment + size
    · simpa only [Arena.step,allocate_of_lt over,Option.map_none',Option.toList_none,List.append_nil] using packed
    · have le := BitVec.not_lt.mp over
      have used := BitVec.le_def.mp wf.used
      have bounds := @alignedOffset_bounds arena alignment pow (by simp only [ArenaCall.Fits] at fits; omega)
      have sum : (arena.alignedOffset alignment + size).toNat =
          (arena.alignedOffset alignment).toNat + size.toNat := by
        rw [BitVec.toNat_add,Nat.mod_eq_of_lt]
        simp only [ArenaCall.Fits] at fits
        omega
      simp only [Arena.step,allocate_of_le le,Option.map_some',Option.toList_some]
      refine ⟨?_,List.pairwise_append.mpr ⟨packed.ordered,List.pairwise_singleton _ _,?_⟩⟩
      · simp only [List.mem_append,List.mem_singleton,sum]
        rintro block (member | rfl)
        · have := packed.below block member
          omega
        · exact Nat.le_refl _
      · simp only [List.mem_singleton]
        rintro block member _ rfl
        have := packed.below block member
        dsimp only
        omega
  | .reset, _, _ => ⟨nofun,List.Pairwise.nil⟩

theorem Packed.run : ∀ (calls : List ArenaCall) {arena : Arena} {live : List Block}, Wf arena live →
    Packed arena live → (∀ call ∈ calls, call.Valid ∧ call.Fits arena.capacity) →
      Packed (arena.run live calls).1 (arena.run live calls).2
  | [], _, _, _, packed, _ => packed
  | call :: calls, arena, _, wf, packed, admitted =>
    have first := admitted call (List.mem_cons_self _ _)
    Packed.run calls (wf.step call first.1) (packed.step wf call first.1 first.2) fun call' member => by
      rw [step_capacity]
      exact admitted call' (List.mem_cons_of_mem _ member)

/-- What the arena keeps along every sequence of calls whose alignments are powers of two: every
block handed out since the last `reset` is aligned and, in `size_t`, ends within `capacity()`;
`used()` stays within `capacity()`, so `remaining()` is `capacity() - used()` without wrapping. -/
theorem arena_blocks_aligned (capacity : BitVec 64) (calls : List ArenaCall) (valid : ∀ call ∈ calls, call.Valid) :
    (∀ block ∈ ((new capacity).run [] calls).2, block.Aligned ∧ block.offset + block.size ≤ capacity) ∧
      ((new capacity).run [] calls).1.used ≤ capacity ∧
      ((new capacity).run [] calls).1.remaining.toNat = capacity.toNat - ((new capacity).run [] calls).1.used.toNat := by
  have wf := Wf.run calls (wf_new capacity) valid
  have within := wf.used
  have checked := wf.checked
  rw [run_capacity] at within checked
  refine ⟨fun block member => ⟨wf.aligned block member,checked block member⟩,within,?_⟩
  rw [remaining,used,run_capacity,BitVec.toNat_sub_of_le within]
  rfl

theorem arena_blocks_aligned_of_two :
    ((∀ call ∈ [ArenaCall.allocate 3 1,.allocate 8 8], call.Valid) ∧
      ((new 32).run [] [.allocate 3 1,.allocate 8 8]).2 = [⟨0,3,1⟩,⟨8,8,8⟩]) ∧
      ((new 32).run [] [.allocate 3 1,.allocate 8 8]).1.used ≤ 32 :=
  have valid : ∀ call ∈ [ArenaCall.allocate 3 1,.allocate 8 8], call.Valid := by
    simp only [List.mem_cons,List.mem_singleton,List.not_mem_nil,or_false]
    rintro call (rfl | rfl)
    exacts [⟨0,rfl⟩,⟨3,rfl⟩]
  ⟨⟨valid,by decide⟩,(arena_blocks_aligned 32 _ valid).2.1⟩

/-- When no sum wraps, `allocate` behaves as a bump allocator should: along every sequence of
calls whose alignments are powers of two and whose sizes and alignments fit in what `size_t`
leaves above the capacity, every block handed out since the last `reset` lies in the buffer,
over the integers, at a multiple of its alignment, and no two of them share a byte. -/
theorem arena_blocks_disjoint (capacity : BitVec 64) (calls : List ArenaCall)
    (admitted : ∀ call ∈ calls, call.Valid ∧ call.Fits capacity) :
    (∀ block ∈ ((new capacity).run [] calls).2, block.Inside capacity ∧ block.Aligned) ∧
      ((new capacity).run [] calls).2.Pairwise Block.Disjoint := by
  have wf := Wf.run calls (wf_new capacity) fun call member => (admitted call member).1
  have packed := Packed.run calls (wf_new capacity) (packed_new capacity) admitted
  have used := BitVec.le_def.mp wf.used
  rw [run_capacity] at used
  refine ⟨fun block member => ⟨?_,wf.aligned block member⟩,packed.ordered.imp Block.disjoint_of_le⟩
  have := packed.below block member
  exact Nat.le_trans this used

theorem arena_blocks_disjoint_of_two :
    (∀ call ∈ [ArenaCall.allocate 3 1,.allocate 8 8], call.Valid ∧ call.Fits 32) ∧
      ((new 32).run [] [.allocate 3 1,.allocate 8 8]).2.Pairwise Block.Disjoint :=
  have admitted : ∀ call ∈ [ArenaCall.allocate 3 1,.allocate 8 8], call.Valid ∧ call.Fits 32 := by
    simp only [List.mem_cons,List.mem_singleton,List.not_mem_nil,or_false]
    rintro call (rfl | rfl)
    exacts [⟨⟨0,rfl⟩,by decide⟩,⟨⟨3,rfl⟩,by decide⟩]
  ⟨admitted,(arena_blocks_disjoint 32 _ admitted).2⟩

/-- The bounds check wraps. In an arena of 16 bytes, `allocate(8, 1)` hands out `[0, 8)`;
`allocate(SIZE_MAX - 7, 1)` passes the check because `8 + (SIZE_MAX - 7)` is `0` in `size_t`,
hands out a block that runs far past the buffer, and leaves `offset_` at `0`; `allocate(4, 1)`
then hands out `[0, 4)`, inside the first block. -/
theorem arena_wraps_into_live_block :
    ((new 16).run [] [.allocate 8 1,.allocate (0 - 8) 1,.allocate 4 1]).2 =
        [⟨0,8,1⟩,⟨8,0 - 8,1⟩,⟨0,4,1⟩] ∧
      ¬Block.Inside 16 ⟨8,0 - 8,1⟩ ∧ ¬Block.Disjoint ⟨0,8,1⟩ ⟨0,4,1⟩ := by
  decide

end Arena

end ExchangeSim
