import ExchangeSim.Lob.Invariant
import Mathlib.Data.List.InsertIdx

/-! `find_level` and `find_or_create_level` on a level vector sorted best first. Both start
from `lower_bound`, which on such a vector splits it into the levels better than the price
and the rest; the level of the price, if any, heads the rest. -/
namespace ExchangeSim

namespace OrderBook

open PriceLevel

theorem better_irrefl (s : Side) (p : Int) : ¬better s p p := by cases s <;> simp [better]

theorem better_trans {s : Side} {p q r : Int} : better s p q → better s q r → better s p r := by
  cases s <;> simp only [better] <;> omega

theorem better_total (s : Side) (p q : Int) : better s p q ∨ p = q ∨ better s q p := by
  cases s <;> simp only [better] <;> omega

@[simp] theorem before_iff (s : Side) (level : PriceLevel) (p : Int) :
    before (s == .buy) level p = true ↔ better s level.price p := by
  cases s <;> simp [before,better]

theorem insertIdx_length_append {α : Type} (A B : List α) (x : α) :
    (A ++ B).insertIdx A.length x = A ++ x :: B := by
  induction A with
  | nil => simp [List.insertIdx_zero]
  | cons a A ih => simp [List.insertIdx_succ_cons,ih]

@[simp] theorem getElem?_length_append {α : Type} (A B : List α) : (A ++ B)[A.length]? = B.head? := by
  rw [List.getElem?_append_right (Nat.le_refl _),Nat.sub_self]
  cases B <;> simp

theorem eraseIdx_length_append {α : Type} (A B : List α) (x : α) :
    (A ++ x :: B).eraseIdx A.length = A ++ B := by
  simp [List.eraseIdx_append_of_length_le]

theorem set_length_append {α : Type} (A B : List α) (x y : α) :
    (A ++ x :: B).set A.length y = A ++ y :: B := by
  simp

theorem getD_length_append {α : Type} (A B : List α) (x d : α) : (A ++ x :: B).getD A.length d = x := by
  rw [List.getD_eq_getElem?_getD,getElem?_length_append]
  rfl

variable {s : Side} {p : Int}

theorem lowerBound_append {A C : List PriceLevel} (ahead : ∀ x ∈ A, better s x.price p) :
    lowerBound (s == .buy) p (A ++ C) = A.length + lowerBound (s == .buy) p C := by
  induction A with
  | nil => simp
  | cons x A ih =>
    rw [List.cons_append,lowerBound,if_pos ((before_iff s x p).mpr (ahead x (by simp))),
      ih fun y member => ahead y (by simp [member])]
    simp only [List.length_cons]
    omega

theorem lowerBound_stop {x : PriceLevel} {C : List PriceLevel} (stop : ¬better s x.price p) :
    lowerBound (s == .buy) p (x :: C) = 0 := by
  rw [lowerBound,if_neg (by simpa using stop)]

/-- `lower_bound` splits any vector at the first level not better than `p`. -/
theorem lowerBound_split (levels : List PriceLevel) :
    ∃ A B, levels = A ++ B ∧ lowerBound (s == .buy) p levels = A.length ∧
      (∀ x ∈ A, better s x.price p) ∧ ∀ x ∈ B.head?, ¬better s x.price p := by
  induction levels with
  | nil => exact ⟨[],[],rfl,rfl,by simp,by simp⟩
  | cons x rest ih =>
    by_cases ahead : better s x.price p
    · obtain ⟨A,B,rfl,bound,inA,stop⟩ := ih
      refine ⟨x :: A,B,rfl,?_,?_,stop⟩
      · simp [lowerBound,ahead,bound]
      · simpa [ahead] using inA
    · exact ⟨[],x :: rest,rfl,lowerBound_stop ahead,by simp,by simpa using ahead⟩

/-- On a sorted vector, no level after the split is better than `p`. -/
theorem not_better_of_sorted {B : List PriceLevel}
    (sorted : B.Pairwise fun a b => better s a.price b.price)
    (stop : ∀ x ∈ B.head?, ¬better s x.price p) : ∀ x ∈ B, ¬better s x.price p := by
  cases B with
  | nil => simp
  | cons y B =>
    have first : ¬better s y.price p := stop y rfl
    rintro x (_ | ⟨_,member⟩)
    · exact first
    · exact fun ahead => first (better_trans (List.rel_of_pairwise_cons sorted member) ahead)

/-- `find_level` of the price of a level of a sorted vector finds that level. -/
theorem findLevel_position {A B : List PriceLevel} {x : PriceLevel}
    (sorted : (A ++ x :: B).Pairwise fun a b => better s a.price b.price) :
    findLevel (A ++ x :: B) x.price (s == .buy) = some A.length := by
  have ahead : ∀ y ∈ A, better s y.price x.price := fun y member =>
    (List.pairwise_append.mp sorted).2.2 y member x (by simp)
  simp only [findLevel,lowerBound_append ahead,lowerBound_stop (better_irrefl s x.price),
    Nat.add_zero,getElem?_length_append,List.head?_cons,if_pos]

/-- A fresh level priced `p` fits between the levels better than `p` and those worse. -/
theorem sorted_insert_between {A B : List PriceLevel}
    (sorted : (A ++ B).Pairwise fun a b => better s a.price b.price)
    (ahead : ∀ x ∈ A, better s x.price p) (worse : ∀ y ∈ B, better s p y.price) :
    (A ++ PriceLevel.new p :: B).Pairwise fun a b => better s a.price b.price := by
  obtain ⟨sortedA,sortedB,cross⟩ := List.pairwise_append.mp sorted
  refine List.pairwise_append.mpr ⟨sortedA,List.pairwise_cons.mpr ⟨worse,sortedB⟩,?_⟩
  rintro a inA b (_ | ⟨_,inB⟩)
  · exact ahead a inA
  · exact cross a inA b inB

/-- `find_or_create_level` on a sorted vector: the position of a level priced `p`, which
either was there or is a fresh level inserted where the vector stays sorted. -/
theorem findOrCreateLevel_spec {levels : List PriceLevel}
    (sorted : levels.Pairwise fun a b => better s a.price b.price) :
    ∃ A x B, (findOrCreateLevel levels p (s == .buy)).2 = A ++ x :: B ∧
      (findOrCreateLevel levels p (s == .buy)).1 = A.length ∧ x.price = p ∧
      (levels = A ++ x :: B ∨ x = PriceLevel.new p ∧ levels = A ++ B ∧
        (A ++ x :: B).Pairwise fun a b => better s a.price b.price) := by
  obtain ⟨A,B,rfl,bound,ahead,stop⟩ := lowerBound_split (s := s) (p := p) levels
  have after := not_better_of_sorted (List.pairwise_append.mp sorted).2.1 stop
  have insert := sorted_insert_between sorted ahead
  cases B with
  | nil =>
    rw [List.append_nil] at bound
    have found : findOrCreateLevel A p (s == .buy) = (A.length,A ++ [PriceLevel.new p]) := by
      simp only [findOrCreateLevel,bound,List.getElem?_eq_none (Nat.le_refl _),
        List.insertIdx_length_self]
    exact ⟨A,PriceLevel.new p,[],by simp only [List.append_nil,found],
      by simp only [List.append_nil,found],rfl,.inr ⟨rfl,rfl,insert (by simp)⟩⟩
  | cons y B =>
    by_cases found : y.price = p
    · have at_y : findOrCreateLevel (A ++ y :: B) p (s == .buy) = (A.length,A ++ y :: B) := by
        simp only [findOrCreateLevel,bound,getElem?_length_append,List.head?_cons,found,if_true]
      exact ⟨A,y,B,by rw [at_y],by rw [at_y],found,.inl rfl⟩
    · have worse : better s p y.price := by
        rcases better_total s y.price p with ahead | same | worse
        · exact absurd ahead (after y (by simp))
        · exact absurd same found
        · exact worse
      have before_y : findOrCreateLevel (A ++ y :: B) p (s == .buy) =
          (A.length,A ++ PriceLevel.new p :: y :: B) := by
        simp only [findOrCreateLevel,bound,getElem?_length_append,List.head?_cons,found,if_false,
          insertIdx_length_append]
      refine ⟨A,PriceLevel.new p,y :: B,by rw [before_y],by rw [before_y],rfl,.inr ⟨rfl,rfl,insert ?_⟩⟩
      rintro z (_ | ⟨_,inB⟩)
      · exact worse
      · exact better_trans worse (List.rel_of_pairwise_cons (List.pairwise_append.mp sorted).2.1 inB)

theorem split_of_getElem? {α : Type} {l : List α} {n : Nat} {x : α} (at_n : l[n]? = some x) :
    ∃ A B, l = A ++ x :: B ∧ A.length = n := by
  obtain ⟨bound,rfl⟩ := List.getElem?_eq_some_iff.mp at_n
  exact ⟨l.take n,l.drop (n + 1),by rw [← List.drop_eq_getElem_cons bound,List.take_append_drop],
    List.length_take_of_le bound.le⟩

section Lookup

variable {levels : List PriceLevel} {isBid : Bool} {n : Nat}

/-- `find_level` answers the lower bound, and only when the level there has the price. -/
theorem findLevel_some (found : findLevel levels p isBid = some n) :
    n = lowerBound isBid p levels ∧ ∃ x, levels[n]? = some x ∧ x.price = p := by
  simp only [findLevel] at found
  split at found
  · rename_i x at_it
    split_ifs at found with same
    cases found
    exact ⟨rfl,x,at_it,same⟩
  · cases found

theorem findOrCreateLevel_of_findLevel (found : findLevel levels p isBid = some n) :
    findOrCreateLevel levels p isBid = (n,levels) := by
  obtain ⟨rfl,x,at_n,same⟩ := findLevel_some found
  simp [findOrCreateLevel,at_n,same]

theorem findOrCreateLevel_of_missing (missing : findLevel levels p isBid = none) :
    findOrCreateLevel levels p isBid =
      (lowerBound isBid p levels,levels.insertIdx (lowerBound isBid p levels) (PriceLevel.new p)) := by
  simp only [findLevel] at missing
  simp only [findOrCreateLevel]
  cases at_it : levels[lowerBound isBid p levels]? with
  | none => rfl
  | some x =>
    simp only [at_it] at missing ⊢
    split_ifs at missing ⊢
    rfl

/-- A position where `PriceLevel{p}` can go with the vector staying sorted is the lower bound
of `p`: the levels before it are better than `p`, those from it on worse. -/
theorem lowerBound_of_sorted_insert (bound : n ≤ levels.length)
    (sorted : (levels.insertIdx n (PriceLevel.new p)).Pairwise fun a b => better s a.price b.price) :
    lowerBound (s == .buy) p levels = n := by
  have taken : (levels.take n).length = n := List.length_take_of_le bound
  have split := insertIdx_length_append (levels.take n) (levels.drop n) (PriceLevel.new p)
  rw [taken,List.take_append_drop] at split
  rw [split] at sorted
  obtain ⟨-,after,before⟩ := List.pairwise_append.mp sorted
  have ahead : ∀ a ∈ levels.take n, better s a.price p := fun a inTake =>
    before a inTake _ (List.mem_cons_self _ _)
  rw [← List.take_append_drop n levels,lowerBound_append ahead,taken]
  cases dropped : levels.drop n with
  | nil => rfl
  | cons y rest =>
    have worse : better s p y.price := (List.pairwise_cons.mp (dropped ▸ after)).1 y (by simp)
    rw [lowerBound_stop fun ahead => better_irrefl s p (better_trans worse ahead),Nat.add_zero]

end Lookup

/-- `find_level` and `find_or_create_level` on a level vector sorted best first (by falling
price when `is_bid`, by rising price otherwise). `find_level` gives the position of the level
priced `p`, and `end()` when there is none. `find_or_create_level` returns that level with the
vector unchanged, or else inserts `PriceLevel{p}` between the other levels, which keep their
order, at the only position where the vector stays sorted. -/
theorem level_search (s : Side) (levels : List PriceLevel) (p : Int)
    (sorted : levels.Pairwise fun a b => better s a.price b.price) :
    (∀ n, findLevel levels p (s == .buy) = some n ↔ ∃ x, levels[n]? = some x ∧ x.price = p) ∧
    (findLevel levels p (s == .buy) = none ↔ ∀ x ∈ levels, x.price ≠ p) ∧
    (∀ n x, levels[n]? = some x → x.price = p → findOrCreateLevel levels p (s == .buy) = (n,levels)) ∧
    ((∀ x ∈ levels, x.price ≠ p) → ∃ A B, levels = A ++ B ∧
      findOrCreateLevel levels p (s == .buy) = (A.length,A ++ PriceLevel.new p :: B) ∧
      (A ++ PriceLevel.new p :: B).Pairwise (fun a b => better s a.price b.price) ∧
      ∀ n ≤ levels.length, (levels.insertIdx n (PriceLevel.new p)).Pairwise
        (fun a b => better s a.price b.price) → n = A.length) := by
  have some_iff : ∀ n, findLevel levels p (s == .buy) = some n ↔ ∃ x, levels[n]? = some x ∧ x.price = p :=
    fun n => ⟨fun found => (findLevel_some found).2,fun ⟨x,at_n,same⟩ => by
      obtain ⟨A,B,rfl,rfl⟩ := split_of_getElem? at_n
      rw [← same]
      exact findLevel_position sorted⟩
  have none_iff : findLevel levels p (s == .buy) = none ↔ ∀ x ∈ levels, x.price ≠ p := by
    constructor
    · intro missing x member same
      obtain ⟨n,at_n⟩ := List.mem_iff_getElem?.mp member
      simpa [missing] using (some_iff n).mpr ⟨x,at_n,same⟩
    · intro absent
      cases found : findLevel levels p (s == .buy) with
      | none => rfl
      | some n =>
        obtain ⟨x,at_n,same⟩ := (some_iff n).mp found
        exact absurd same (absent x (List.getElem?_mem at_n))
  refine ⟨some_iff,none_iff,fun n x at_n same =>
    findOrCreateLevel_of_findLevel ((some_iff n).mpr ⟨x,at_n,same⟩),fun absent => ?_⟩
  obtain ⟨A,B,rfl,bound,ahead,stop⟩ := lowerBound_split (s := s) (p := p) levels
  have worse : ∀ y ∈ B, better s p y.price := fun y member => by
    rcases better_total s y.price p with first | same | second
    · exact absurd first (not_better_of_sorted (List.pairwise_append.mp sorted).2.1 stop y member)
    · exact absurd same (absent y (by simp [member]))
    · exact second
  refine ⟨A,B,rfl,?_,sorted_insert_between sorted ahead worse,fun n fits inserted => ?_⟩
  · rw [findOrCreateLevel_of_missing (none_iff.mpr absent),bound,insertIdx_length_append]
  · rw [← bound,lowerBound_of_sorted_insert fits inserted]

theorem level_search_bids :
    [PriceLevel.new 101,PriceLevel.new 99].Pairwise (fun a b => better .buy a.price b.price) ∧
      findLevel [PriceLevel.new 101,PriceLevel.new 99] 100 (Side.buy == .buy) = none :=
  have sorted : [PriceLevel.new 101,PriceLevel.new 99].Pairwise (fun a b => better .buy a.price b.price) := by
    simp [better,PriceLevel.new]
  ⟨sorted,(level_search .buy _ 100 sorted).2.1.mpr (by simp [PriceLevel.new])⟩

end OrderBook

end ExchangeSim
