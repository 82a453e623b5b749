import Mathlib.Data.BitVec
import Mathlib.Data.List.Sort
import ExchangeSim.Concurrency.SpscSemaphoreQueue

/-! `LatencyHistogram` (`latency.hpp`): a ring of `capacity_` samples written at `write_pos_`,
a `size_t` count, and the running `min_`, `max_` and `sum_` of the `int64_t` samples.
`compute_stats` sorts the first `min(count_, capacity_)` samples; its `double` mean and
percentiles are read from that sorted vector and are left out. `clear` resets the counters and
keeps the samples, which the next records overwrite from slot 0. -/
namespace ExchangeSim

/-- `std::numeric_limits<Duration>::max()`, `Duration` being `int64_t`. -/
def durationMax : BitVec 64 := BitVec.ofNat 64 (2^63 - 1)

/-- The integer fields of `LatencyStats`, with their defaults. -/
structure LatencyStats where
  minNs : BitVec 64 := durationMax
  maxNs : BitVec 64 := 0
  count : BitVec 64 := 0
  deriving DecidableEq, Repr

structure LatencyHistogram where
  /-- `samples_`: entry `i` for `i < capacity_`. -/
  samples : Nat → BitVec 64
  capacity : Nat
  writePos : Nat
  count : BitVec 64
  min : BitVec 64
  max : BitVec 64
  sum : BitVec 64
  /-- With `capacity_` 0, `record` writes past the empty vector and takes `% 0`, both
  undefined; such a histogram is not built. -/
  positive : 0 < capacity

/-- The last `min(n, capacity)` positions below `n` fall in distinct slots, which are the
first `min(n, capacity)` slots. -/
theorem window_slots (n capacity : Nat) :
    ((List.range' (n - min n capacity) (min n capacity)).map (· % capacity)).Perm
      (List.range (min n capacity)) := by
  refine List.Subperm.perm_of_length_le (List.Nodup.subperm ?_ fun i member => ?_) (by simp)
  · refine List.Nodup.map_on (fun x early y late same => ?_) (List.nodup_range' _ _)
    rw [List.mem_range'_1] at early late
    by_contra differ
    rcases Nat.lt_or_gt_of_ne differ with less | more
    · have apart := mod_ne_of_lt (r := x) (i := 0) (n := y - x) (c := capacity) (by omega) (by omega)
      rw [Nat.add_zero,Nat.add_sub_cancel' less.le] at apart
      exact apart same
    · have apart := mod_ne_of_lt (r := y) (i := 0) (n := x - y) (c := capacity) (by omega) (by omega)
      rw [Nat.add_zero,Nat.add_sub_cancel' more.le] at apart
      exact apart same.symm
  · obtain ⟨j,within,rfl⟩ := List.mem_map.mp member
    rw [List.mem_range'_1] at within
    have below : j % capacity < capacity := Nat.mod_lt _ (by omega)
    have := Nat.mod_le j capacity
    exact List.mem_range.mpr (by omega)

/-- A suffix of a list, read position by position. -/
theorem drop_eq_map_range' (xs : List (BitVec 64)) (start : Nat) (le : start ≤ xs.length) :
    xs.drop start = (List.range' start (xs.length - start)).map fun j => xs.getD j 0 := by
  refine List.ext_getElem (by simp) fun t inDrop _ => ?_
  have inside : start + t < xs.length := by simp at inDrop; omega
  rw [List.getElem_drop,List.getElem_map,List.getElem_range',Nat.one_mul,List.getD_eq_getElem?_getD,
    List.getElem?_eq_getElem inside,Option.getD_some]

namespace LatencyHistogram

def defaultSampleSize : Nat := 100000

/-- `LatencyHistogram(capacity)`: `resize` value-initialises the samples to 0. -/
def new (capacity : Nat) (positive : 0 < capacity) : LatencyHistogram :=
  ⟨fun _ => 0,capacity,0,0,durationMax,0,0,positive⟩

/-- `record(latency_ns)`; `std::min` and `std::max` keep their first argument on a tie, and
`sum_` wraps. -/
def record (h : LatencyHistogram) (latency : BitVec 64) : LatencyHistogram :=
  { h with
    samples := Function.update h.samples h.writePos latency
    writePos := (h.writePos + 1) % h.capacity
    count := h.count + 1
    min := if latency.slt h.min then latency else h.min
    max := if h.max.slt latency then latency else h.max
    sum := h.sum + latency }

def clear (h : LatencyHistogram) : LatencyHistogram :=
  { h with writePos := 0, count := 0, min := durationMax, max := 0, sum := 0 }

/-- The local `sorted` of `compute_stats`: the first `min(count_, capacity_)` samples under
`std::sort`, that is by `<` on `int64_t`. -/
def sortedSamples (h : LatencyHistogram) : List (BitVec 64) :=
  ((List.range (Nat.min h.count.toNat h.capacity)).map h.samples).mergeSort fun a b => a.sle b

/-- `compute_stats()`: default stats when `count_ == 0`. -/
def computeStats (h : LatencyHistogram) : LatencyStats :=
  if h.count = 0 then {} else ⟨h.min,h.max,h.count⟩

/-- A call that changes the histogram. -/
inductive Call where
  | record (latency : BitVec 64)
  | clear
  deriving DecidableEq, Repr

def apply (h : LatencyHistogram) : Call → LatencyHistogram
  | .record latency => h.record latency
  | .clear => h.clear

def run (h : LatencyHistogram) (calls : List Call) : LatencyHistogram := calls.foldl apply h

/-- The samples since the last `clear`, after one more call. -/
def since (samples : List (BitVec 64)) : Call → List (BitVec 64)
  | .record latency => samples ++ [latency]
  | .clear => []

/-- The samples recorded since the last `clear`, in order. -/
def sinceClear (calls : List Call) : List (BitVec 64) := calls.foldl since []

/-- The histogram against the samples `xs` recorded since the last `clear`: `write_pos_` and
`count_` count them, the last `capacity_` of them sit in their slots, `min_` is the least of
`INT64_MAX` and them, `max_` the greatest of 0 and them, and `sum_` their sum. -/
structure Window (h : LatencyHistogram) (xs : List (BitVec 64)) : Prop where
  pos : h.writePos = xs.length % h.capacity
  count : h.count = BitVec.ofNat 64 xs.length
  slots : ∀ j (lt : j < xs.length), xs.length ≤ j + h.capacity → h.samples (j % h.capacity) = xs[j]
  min : h.min ∈ durationMax :: xs ∧ ∀ y ∈ durationMax :: xs, h.min.toInt ≤ y.toInt
  max : h.max ∈ (0 : BitVec 64) :: xs ∧ ∀ y ∈ (0 : BitVec 64) :: xs, y.toInt ≤ h.max.toInt
  sum : h.sum = xs.sum

variable {h : LatencyHistogram} {xs : List (BitVec 64)}

theorem window_new (capacity : Nat) (positive : 0 < capacity) : Window (new capacity positive) [] :=
  ⟨(Nat.zero_mod _).symm,rfl,fun _ lt => absurd lt (Nat.not_lt_zero _),
    ⟨List.mem_singleton_self _,fun _ member => by rw [List.mem_singleton.mp member]; exact le_rfl⟩,
    ⟨List.mem_singleton_self _,fun _ member => by rw [List.mem_singleton.mp member]; exact le_rfl⟩,rfl⟩

theorem Window.clear (_ : Window h xs) : Window h.clear [] :=
  ⟨(Nat.zero_mod _).symm,rfl,fun _ lt => absurd lt (Nat.not_lt_zero _),
    ⟨List.mem_singleton_self _,fun _ member => by rw [List.mem_singleton.mp member]; exact le_rfl⟩,
    ⟨List.mem_singleton_self _,fun _ member => by rw [List.mem_singleton.mp member]; exact le_rfl⟩,rfl⟩

/-- The running extremum `std::min(min_, x)` of a list extended by `x`. -/
theorem least_concat {m x : BitVec 64} {S : List (BitVec 64)} (least : m ∈ S ∧ ∀ y ∈ S, m.toInt ≤ y.toInt) :
    (if x.slt m then x else m) ∈ S ++ [x] ∧ ∀ y ∈ S ++ [x], (if x.slt m then x else m).toInt ≤ y.toInt := by
  by_cases lower : x.slt m
  · rw [if_pos lower]
    have below : x.toInt < m.toInt := by simpa [BitVec.slt] using lower
    refine ⟨List.mem_append_right _ (List.mem_singleton_self _),fun y member => ?_⟩
    rcases List.mem_append.mp member with old | new
    · exact below.le.trans (least.2 y old)
    · rw [List.mem_singleton.mp new]
  · rw [if_neg lower]
    have above : m.toInt ≤ x.toInt := by simpa [BitVec.slt] using lower
    refine ⟨List.mem_append_left _ least.1,fun y member => ?_⟩
    rcases List.mem_append.mp member with old | new
    · exact least.2 y old
    · rw [List.mem_singleton.mp new]; exact above

/-- The running extremum `std::max(max_, x)` of a list extended by `x`. -/
theorem greatest_concat {m x : BitVec 64} {S : List (BitVec 64)} (greatest : m ∈ S ∧ ∀ y ∈ S, y.toInt ≤ m.toInt) :
    (if m.slt x then x else m) ∈ S ++ [x] ∧ ∀ y ∈ S ++ [x], y.toInt ≤ (if m.slt x then x else m).toInt := by
  by_cases higher : m.slt x
  · rw [if_pos higher]
    have below : m.toInt < x.toInt := by simpa [BitVec.slt] using higher
    refine ⟨List.mem_append_right _ (List.mem_singleton_self _),fun y member => ?_⟩
    rcases List.mem_append.mp member with old | new
    · exact (greatest.2 y old).trans below.le
    · rw [List.mem_singleton.mp new]
  · rw [if_neg higher]
    have above : x.toInt ≤ m.toInt := by simpa [BitVec.slt] using higher
    refine ⟨List.mem_append_left _ greatest.1,fun y member => ?_⟩
    rcases List.mem_append.mp member with old | new
    · exact greatest.2 y old
    · rw [List.mem_singleton.mp new]; exact above

theorem Window.record (window : Window h xs) (latency : BitVec 64) :
    Window (h.record latency) (xs ++ [latency]) := by
  obtain ⟨pos,count,slots,least,greatest,sum⟩ := window
  have grown : (xs ++ [latency]).length = xs.length + 1 := by simp
  refine ⟨?_,?_,fun j lt recent => ?_,?_,?_,?_⟩
  · show (h.writePos + 1) % h.capacity = (xs ++ [latency]).length % h.capacity
    rw [grown,pos,Nat.mod_add_mod]
  · show h.count + 1 = _
    rw [grown,count]
    exact BitVec.ofNat_add_ofNat _ 1
  · rw [grown] at lt recent
    change xs.length + 1 ≤ j + h.capacity at recent
    show Function.update h.samples h.writePos latency (j % h.capacity) = _
    rcases Nat.lt_or_ge j xs.length with old | last
    · have apart := mod_ne_of_lt (r := j) (i := 0) (n := xs.length - j) (by omega)
        (show xs.length - j < h.capacity by omega)
      rw [Nat.add_zero,Nat.add_sub_cancel' old.le] at apart
      rw [Function.update_noteq (pos ▸ apart),slots j old (by omega),List.getElem_append_left old]
    · have same : j = xs.length := by omega
      subst same
      rw [← pos,Function.update_same,List.getElem_concat_length _ _ _ rfl]
  · simpa only [List.cons_append] using least_concat least
  · simpa only [List.cons_append] using greatest_concat greatest
  · show h.sum + latency = _
    rw [sum,List.sum_append,List.sum_singleton]

/-- Every run of calls keeps the window of the samples since the last `clear`. -/
theorem Window.run (window : Window h xs) (calls : List Call) : Window (h.run calls) (calls.foldl since xs) := by
  induction calls generalizing h xs with
  | nil => exact window
  | cons call calls ih =>
    cases call with
    | record latency => exact ih (window.record latency)
    | clear => exact ih window.clear

theorem capacity_run (h : LatencyHistogram) (calls : List Call) : (h.run calls).capacity = h.capacity := by
  induction calls generalizing h with
  | nil => rfl
  | cons call calls ih => cases call <;> exact ih _

/-- With fewer than `2^64` samples since `clear`, the first `min(count_, capacity_)` slots hold
the last `min(count_, capacity_)` of them, in some order. -/
theorem Window.window_perm (window : Window h xs) (fits : xs.length < 2^64) :
    ((List.range (Nat.min h.count.toNat h.capacity)).map h.samples).Perm
      (xs.drop (xs.length - Nat.min xs.length h.capacity)) := by
  rw [window.count,BitVec.toNat_ofNat,Nat.mod_eq_of_lt fits,
    drop_eq_map_range' xs _ (Nat.sub_le _ _),Nat.sub_sub_self (Nat.min_le_left _ _)]
  refine ((window_slots xs.length h.capacity).symm.map h.samples).trans (List.Perm.of_eq ?_)
  rw [List.map_map]
  refine List.map_congr_left fun j member => ?_
  rw [List.mem_range'_1] at member
  have := Nat.min_le_left xs.length h.capacity
  have := Nat.min_le_right xs.length h.capacity
  rw [Function.comp_apply,window.slots j (by omega) (by omega),List.getD_eq_getElem?_getD,
    List.getElem?_eq_getElem (by omega),Option.getD_some]

/-- `compute_stats` reads `min_`, `max_` and `count_` also when `count_` is 0. -/
theorem Window.computeStats (window : Window h xs) (fits : xs.length < 2^64) :
    h.computeStats = ⟨h.min,h.max,h.count⟩ := by
  by_cases zero : h.count = 0
  · have empty : xs = [] := by
      rw [window.count,BitVec.toNat_eq,BitVec.toNat_ofNat,Nat.mod_eq_of_lt fits] at zero
      exact List.eq_nil_of_length_eq_zero zero
    have least := window.min.1
    have greatest := window.max.1
    rw [empty,List.mem_singleton] at least greatest
    rw [LatencyHistogram.computeStats,if_pos zero,least,greatest,zero]
  · rw [LatencyHistogram.computeStats,if_neg zero]

/-- Along every sequence of `record` and `clear` calls from `LatencyHistogram(capacity)`, with
fewer than `2^64` records since the last `clear`: `count_` is the number of those records, and
the vector `compute_stats` sorts holds exactly the last `min(count_, capacity_)` of them, never
a sample from before the `clear`, sorted by `<` on `int64_t`. -/
theorem histogram_window (capacity : Nat) (positive : 0 < capacity) (calls : List Call)
    (fits : (sinceClear calls).length < 2^64) :
    ((new capacity positive).run calls).count.toNat = (sinceClear calls).length ∧
    ((new capacity positive).run calls).sortedSamples.Perm
      ((sinceClear calls).drop ((sinceClear calls).length - Nat.min (sinceClear calls).length capacity)) ∧
    ((new capacity positive).run calls).sortedSamples.Pairwise fun a b => a.toInt ≤ b.toInt := by
  have window : Window ((new capacity positive).run calls) (sinceClear calls) := (window_new capacity positive).run calls
  refine ⟨by rw [window.count,BitVec.toNat_ofNat,Nat.mod_eq_of_lt fits],?_,?_⟩
  · have perm := window.window_perm fits
    have cap : ((new capacity positive).run calls).capacity = capacity := capacity_run _ calls
    rw [cap] at perm
    rw [sortedSamples,cap]
    exact (List.mergeSort_perm _ _).trans perm
  · refine (List.sorted_mergeSort (fun a b c first second => ?_) (fun a b => ?_) _).imp fun ordered => ?_
    · simp only [BitVec.sle,decide_eq_true_eq] at first second ⊢
      omega
    · simp only [BitVec.sle,Bool.or_eq_true,decide_eq_true_eq]
      omega
    · simpa [BitVec.sle] using ordered

theorem histogram_window_after_clear :
    0 < 2 ∧ (sinceClear [.record 5,.record 6,.clear,.record 7,.record 2,.record 9]).length < 2^64 ∧
    (((new 2 (by decide)).run [.record 5,.record 6,.clear,.record 7,.record 2,.record 9]).count.toNat = (sinceClear [.record 5,.record 6,.clear,.record 7,.record 2,.record 9]).length ∧
    ((new 2 (by decide)).run [.record 5,.record 6,.clear,.record 7,.record 2,.record 9]).sortedSamples.Perm
      ((sinceClear [.record 5,.record 6,.clear,.record 7,.record 2,.record 9]).drop
        ((sinceClear [.record 5,.record 6,.clear,.record 7,.record 2,.record 9]).length - Nat.min (sinceClear [.record 5,.record 6,.clear,.record 7,.record 2,.record 9]).length 2)) ∧
    ((new 2 (by decide)).run [.record 5,.record 6,.clear,.record 7,.record 2,.record 9]).sortedSamples.Pairwise fun a b => a.toInt ≤ b.toInt) :=
  ⟨by decide,by decide,histogram_window 2 (by decide) [.record 5,.record 6,.clear,.record 7,.record 2,.record 9] (by decide)⟩

/-- Along every such sequence, `compute_stats()` reports as `count` the number of records since
the last `clear`, as `min_ns` the least of `INT64_MAX` and those samples, and as `max_ns` the
greatest of 0 and them (0 when every sample is negative); `sum_`, which `mean_ns` divides, is
their sum modulo `2^64`. -/
theorem histogram_stats (capacity : Nat) (positive : 0 < capacity) (calls : List Call)
    (fits : (sinceClear calls).length < 2^64) :
    (computeStats ((new capacity positive).run calls)).count = BitVec.ofNat 64 (sinceClear calls).length ∧
    ((computeStats ((new capacity positive).run calls)).minNs ∈ durationMax :: sinceClear calls ∧
      ∀ y ∈ durationMax :: sinceClear calls, (computeStats ((new capacity positive).run calls)).minNs.toInt ≤ y.toInt) ∧
    ((computeStats ((new capacity positive).run calls)).maxNs ∈ (0 : BitVec 64) :: sinceClear calls ∧
      ∀ y ∈ (0 : BitVec 64) :: sinceClear calls, y.toInt ≤ (computeStats ((new capacity positive).run calls)).maxNs.toInt) ∧
    ((new capacity positive).run calls).sum = (sinceClear calls).sum := by
  have window : Window ((new capacity positive).run calls) (sinceClear calls) := (window_new capacity positive).run calls
  rw [window.computeStats fits]
  exact ⟨window.count,window.min,window.max,window.sum⟩

theorem histogram_stats_after_clear :
    0 < 2 ∧ (sinceClear [.record 5,.record 6,.clear,.record 7,.record 2,.record 9]).length < 2^64 ∧
    ((computeStats ((new 2 (by decide)).run [.record 5,.record 6,.clear,.record 7,.record 2,.record 9])).count = BitVec.ofNat 64 (sinceClear [.record 5,.record 6,.clear,.record 7,.record 2,.record 9]).length ∧
    ((computeStats ((new 2 (by decide)).run [.record 5,.record 6,.clear,.record 7,.record 2,.record 9])).minNs ∈ durationMax :: sinceClear [.record 5,.record 6,.clear,.record 7,.record 2,.record 9] ∧
      ∀ y ∈ durationMax :: sinceClear [.record 5,.record 6,.clear,.record 7,.record 2,.record 9],
        (computeStats ((new 2 (by decide)).run [.record 5,.record 6,.clear,.record 7,.record 2,.record 9])).minNs.toInt ≤ y.toInt) ∧
    ((computeStats ((new 2 (by decide)).run [.record 5,.record 6,.clear,.record 7,.record 2,.record 9])).maxNs ∈ (0 : BitVec 64) :: sinceClear [.record 5,.record 6,.clear,.record 7,.record 2,.record 9] ∧
      ∀ y ∈ (0 : BitVec 64) :: sinceClear [.record 5,.record 6,.clear,.record 7,.record 2,.record 9],
        y.toInt ≤ (computeStats ((new 2 (by decide)).run [.record 5,.record 6,.clear,.record 7,.record 2,.record 9])).maxNs.toInt) ∧
    ((new 2 (by decide)).run [.record 5,.record 6,.clear,.record 7,.record 2,.record 9]).sum = (sinceClear [.record 5,.record 6,.clear,.record 7,.record 2,.record 9]).sum) :=
  ⟨by decide,by decide,histogram_stats 2 (by decide) [.record 5,.record 6,.clear,.record 7,.record 2,.record 9] (by decide)⟩

end LatencyHistogram

end ExchangeSim
