import ExchangeSim.Types

/-! The book `OrderBook` implements, without pool, levels or links: each side a list of
resting orders, best price first (bids falling, asks rising) and earlier arrival first
within a price, and the number of orders the pool can hold. A call walks the opposite list
from its head and a limit remainder joins its side behind every order of equal or better
price, unless the book already holds as many orders as the pool has slots. -/
namespace ExchangeSim

structure Resting where
  orderId : Nat
  traderId : Nat
  side : Side
  price : Int
  qty : Int
  deriving DecidableEq, Repr

structure Book where
  bids : List Resting
  asks : List Resting
  capacity : Nat
  deriving DecidableEq, Repr

/-- An incoming order; a market order has no limit. -/
structure Incoming where
  orderId : Nat
  traderId : Nat
  side : Side
  limit : Option Int
  deriving DecidableEq, Repr

/-- A public call of the book. -/
inductive Call where
  | addLimit (orderId traderId : Nat) (side : Side) (price qty : Int)
  | addMarket (orderId traderId : Nat) (side : Side) (qty : Int)
  | cancel (orderId : Nat)
  | modify (orderId : Nat) (newQty newPrice : Int)
  | clear
  deriving DecidableEq, Repr

namespace Book

/-- No order rests; the pool has `capacity` slots. -/
def empty (capacity : Nat) : Book := ⟨[],[],capacity⟩

def side (book : Book) : Side → List Resting
  | .buy => book.bids
  | .sell => book.asks

def setSide (book : Book) : Side → List Resting → Book
  | .buy, orders => { book with bids := orders }
  | .sell, orders => { book with asks := orders }

/-- `p` is strictly ahead of `q` on side `side`: higher for bids, lower for asks. -/
def ahead : Side → Int → Int → Bool
  | .buy, p, q => q < p
  | .sell, p, q => p < q

/-- The number of resting orders. -/
def size (book : Book) : Nat := book.bids.length + book.asks.length

/-- The resting order of an id. -/
def find (book : Book) (orderId : Nat) : Option Resting :=
  (book.bids ++ book.asks).find? fun order => order.orderId == orderId

/-- A maker at `price` can fill `incoming`: any maker for a market order, an ask at or
below a buy limit, a bid at or above a sell limit. -/
def crosses (incoming : Incoming) (price : Int) : Bool :=
  match incoming.limit, incoming.side with
  | none, _ => true
  | some limit, .buy => price ≤ limit
  | some limit, .sell => limit ≤ price

/-- The walk from the head: while quantity remains and the head crosses, fill
`min remaining qty` at the maker's price, take it off both quantities in `int64_t`, and drop a
maker left with a quantity `≤ 0`. A maker left with more has taken all that remained, which
ends the walk. -/
def walk (incoming : Incoming) : Int → List Resting → Int × List Trade × List Resting
  | remaining, [] => (remaining,[],[])
  | remaining, maker :: rest =>
    if remaining ≤ 0 ∨ crosses incoming maker.price = false then (remaining,[],maker :: rest)
    else
      let fill := min remaining maker.qty
      let trade : Trade :=
        ⟨maker.orderId,incoming.orderId,maker.traderId,incoming.traderId,maker.price,fill,incoming.side⟩
      if wrap64 (maker.qty - fill) ≤ 0 then
        let next := walk incoming (wrap64 (remaining - fill)) rest
        (next.1,trade :: next.2.1,next.2.2)
      else (wrap64 (remaining - fill),[trade],{ maker with qty := wrap64 (maker.qty - fill) } :: rest)

/-- `order` joins its side behind every order of equal or better price. -/
def insertBehind (side : Side) (order : Resting) : List Resting → List Resting
  | [] => [order]
  | other :: rest =>
    if ahead side order.price other.price then order :: other :: rest
    else other :: insertBehind side order rest

/-- A limit order: rejected if its id rests; otherwise the walk, then the remainder rests
unless the book is full. -/
def addLimit (book : Book) (orderId traderId : Nat) (side : Side) (price qty : Int) :
    OrderResponse × Book × List Trade :=
  if (book.find orderId).isSome then ({ orderId := orderId, result := .rejected },book,[])
  else
    let walked := walk ⟨orderId,traderId,side,some price⟩ qty (book.side (opposite side))
    let book := book.setSide (opposite side) walked.2.2
    let response : OrderResponse :=
      { orderId := orderId, tradeCount := walked.2.1.length, qtyFilled := wrap64 (qty - walked.1),
        qtyRemaining := walked.1 }
    if walked.1 ≤ 0 then ({ response with result := .fullyFilled },book,walked.2.1)
    else if book.size = book.capacity then ({ response with result := .rejected },book,walked.2.1)
    else
      ({ response with result := if walked.2.1.length > 0 then .partiallyFilled else .accepted },
        book.setSide side (insertBehind side ⟨orderId,traderId,side,price,walked.1⟩ (book.side side)),
        walked.2.1)

/-- A market order walks the opposite side whatever ids rest, and never rests. -/
def addMarket (book : Book) (orderId traderId : Nat) (side : Side) (qty : Int) :
    OrderResponse × Book × List Trade :=
  let walked := walk ⟨orderId,traderId,side,none⟩ qty (book.side (opposite side))
  ({ orderId := orderId, tradeCount := walked.2.1.length, qtyFilled := wrap64 (qty - walked.1),
      qtyRemaining := walked.1, result := if walked.1 ≤ 0 then .fullyFilled else .partiallyFilled },
    book.setSide (opposite side) walked.2.2,walked.2.1)

def cancel (book : Book) (orderId : Nat) : OrderResponse × Book :=
  match book.find orderId with
  | none => ({ orderId := orderId, result := .notFound },book)
  | some order =>
    ({ orderId := orderId, qtyRemaining := order.qty, result := .cancelled },
      book.setSide order.side ((book.side order.side).eraseP fun other => other.orderId == orderId))

/-- A new price re-adds at that price, a smaller quantity changes the order in place, and
any other quantity re-adds at the old price; a re-add loses the order's place. -/
def modify (book : Book) (orderId : Nat) (newQty newPrice : Int) :
    OrderResponse × Book × List Trade :=
  match book.find orderId with
  | none => ({ orderId := orderId, result := .notFound },book,[])
  | some order =>
    if newPrice ≠ 0 ∧ newPrice ≠ order.price then
      (book.cancel orderId).2.addLimit orderId order.traderId order.side newPrice newQty
    else if newQty < order.qty then
      ({ orderId := orderId, qtyRemaining := newQty, result := .modified },
        book.setSide order.side ((book.side order.side).map fun other =>
          if other.orderId = orderId then { other with qty := newQty } else other),[])
    else (book.cancel orderId).2.addLimit orderId order.traderId order.side order.price newQty

/-- Every order leaves; the pool keeps its slots. -/
def clear (book : Book) : Book := ⟨[],[],book.capacity⟩

@[simp] theorem side_setSide (book : Book) (s : Side) (orders : List Resting) :
    (book.setSide s orders).side s = orders := by cases s <;> rfl

@[simp] theorem side_setSide_opposite (book : Book) (s : Side) (orders : List Resting) :
    (book.setSide s orders).side (opposite s) = book.side (opposite s) := by cases s <;> rfl

@[simp] theorem side_opposite_setSide (book : Book) (s : Side) (orders : List Resting) :
    (book.setSide (opposite s) orders).side s = book.side s := by cases s <;> rfl

@[simp] theorem setSide_capacity (book : Book) (s : Side) (orders : List Resting) :
    (book.setSide s orders).capacity = book.capacity := by cases s <;> rfl

@[simp] theorem setSide_self (book : Book) (s : Side) : book.setSide s (book.side s) = book := by
  cases s <;> rfl

/-- A book is its two sides and its capacity. -/
theorem ext_side {book book' : Book} (s : Side) (same : book.side s = book'.side s)
    (other : book.side (opposite s) = book'.side (opposite s)) (capacity : book.capacity = book'.capacity) :
    book = book' := by
  obtain ⟨bids,asks,c⟩ := book
  obtain ⟨bids',asks',c'⟩ := book'
  cases s <;> simp_all [side,opposite]

/-- `order` goes behind the orders it is not ahead of and before those it is ahead of. -/
theorem insertBehind_split {side : Side} {order : Resting} {P Q : List Resting}
    (skip : ∀ other ∈ P, ahead side order.price other.price = false)
    (behind : ∀ other ∈ Q, ahead side order.price other.price = true) :
    insertBehind side order (P ++ Q) = P ++ order :: Q := by
  induction P with
  | nil =>
    cases Q with
    | nil => rfl
    | cons other Q => simp [insertBehind,behind other (List.mem_cons_self _ _)]
  | cons other P ih =>
    rw [List.cons_append,insertBehind,if_neg (by simp [skip other (List.mem_cons_self _ _)]),
      ih fun o member => skip o (List.mem_cons_of_mem _ member),List.cons_append]

/-- What a call returns to its caller, if anything, and the trades it reports, in order. -/
def perform (book : Book) : Call → (Option OrderResponse × List Trade) × Book
  | .addLimit orderId traderId side price qty =>
    let r := book.addLimit orderId traderId side price qty
    ((some r.1,r.2.2),r.2.1)
  | .addMarket orderId traderId side qty =>
    let r := book.addMarket orderId traderId side qty
    ((some r.1,r.2.2),r.2.1)
  | .cancel orderId =>
    let r := book.cancel orderId
    ((some r.1,[]),r.2)
  | .modify orderId newQty newPrice =>
    let r := book.modify orderId newQty newPrice
    ((some r.1,r.2.2),r.2.1)
  | .clear => ((none,[]),book.clear)

/-- The outputs of a sequence of calls and the book they leave. -/
def run (book : Book) : List Call → List (Option OrderResponse × List Trade) × Book
  | [] => ([],book)
  | call :: calls =>
    let rest := (book.perform call).2.run calls
    ((book.perform call).1 :: rest.1,rest.2)

variable {incoming : Incoming} {remaining : Int}

theorem walk_stop (spent : remaining ≤ 0) (orders : List Resting) :
    walk incoming remaining orders = (remaining,[],orders) := by
  cases orders with
  | nil => rfl
  | cons maker rest => simp [walk,spent]

/-- One fill against a crossing head. -/
theorem walk_fill (going : 0 < remaining) {maker : Resting} (crossing : crosses incoming maker.price = true)
    (rest : List Resting) :
    walk incoming remaining (maker :: rest) =
      if wrap64 (maker.qty - min remaining maker.qty) ≤ 0 then
        ((walk incoming (wrap64 (remaining - min remaining maker.qty)) rest).1,
          ⟨maker.orderId,incoming.orderId,maker.traderId,incoming.traderId,maker.price,
            min remaining maker.qty,incoming.side⟩ ::
            (walk incoming (wrap64 (remaining - min remaining maker.qty)) rest).2.1,
          (walk incoming (wrap64 (remaining - min remaining maker.qty)) rest).2.2)
      else (wrap64 (remaining - min remaining maker.qty),
        [⟨maker.orderId,incoming.orderId,maker.traderId,incoming.traderId,maker.price,
          min remaining maker.qty,incoming.side⟩],
        { maker with qty := wrap64 (maker.qty - min remaining maker.qty) } :: rest) := by
  rw [walk,if_neg (by simp [crossing,not_le.mpr going])]

/-- The walk keeps a suffix of the list, its head possibly with a smaller quantity, so it
keeps any order on prices. -/
theorem walk_pairwise {P : Int → Int → Prop} :
    ∀ (remaining : Int) (orders : List Resting), orders.Pairwise (fun a b => P a.price b.price) →
      (walk incoming remaining orders).2.2.Pairwise fun a b => P a.price b.price
  | _, [], _ => List.Pairwise.nil
  | remaining, maker :: rest, sorted => by
    unfold walk
    dsimp only
    split_ifs
    · exact sorted
    · exact walk_pairwise _ rest (List.pairwise_cons.mp sorted).2
    · exact List.pairwise_cons.mpr (List.pairwise_cons.mp sorted)

/-- The walk fills the head of the list first: its makers are a prefix of the list, each
trade crosses the incoming order, is at its maker's price and takes at most the maker's
quantity. -/
theorem walk_makers : ∀ (remaining : Int) (orders : List Resting),
    (walk incoming remaining orders).2.1.map Trade.makerOrderId <+: orders.map Resting.orderId ∧
      ∀ trade ∈ (walk incoming remaining orders).2.1, crosses incoming trade.price = true ∧
        ∃ maker ∈ orders, maker.orderId = trade.makerOrderId ∧ maker.price = trade.price ∧ trade.qty ≤ maker.qty
  | _, [] => ⟨ List.nil_prefix,by simp [walk]⟩
  | remaining, maker :: rest => by
    have first : ¬(remaining ≤ 0 ∨ crosses incoming maker.price = false) →
        crosses incoming maker.price = true ∧ ∃ other ∈ maker :: rest, other.orderId = maker.orderId ∧
          other.price = maker.price ∧ min remaining maker.qty ≤ other.qty := fun going =>
      ⟨by simpa using (not_or.mp going).2,maker,List.mem_cons_self _ _,rfl,rfl,min_le_right _ _⟩
    unfold walk
    dsimp only
    split_ifs with stop
    · simp
    · obtain ⟨front,each⟩ := walk_makers (wrap64 (remaining - min remaining maker.qty)) rest
      refine ⟨List.cons_prefix_cons.mpr ⟨rfl,front⟩,fun trade member => ?_⟩
      rcases List.mem_cons.mp member with rfl | member
      · exact first stop
      · obtain ⟨crossing,other,inRest,same⟩ := each trade member
        exact ⟨crossing,other,List.mem_cons_of_mem _ inRest,same⟩
    · refine ⟨List.cons_prefix_cons.mpr ⟨rfl, List.nil_prefix⟩,fun trade member => ?_⟩
      rw [List.mem_singleton.mp member]
      exact first stop

/-- What `add_limit` does to the book and the trades: nothing when the id rests; otherwise the
walk of the opposite side, after which a positive remainder may rest behind its equals. -/
theorem addLimit_cases (book : Book) (orderId traderId : Nat) (side : Side) (price qty : Int)
    {walked : Int × List Trade × List Resting}
    (walked_eq : walk ⟨orderId,traderId,side,some price⟩ qty (book.side (opposite side)) = walked) :
    (book.addLimit orderId traderId side price qty).2 = (book,[]) ∨
      (book.addLimit orderId traderId side price qty).2 = (book.setSide (opposite side) walked.2.2,walked.2.1) ∨
      0 < walked.1 ∧ (book.addLimit orderId traderId side price qty).2 =
        ((book.setSide (opposite side) walked.2.2).setSide side
          (insertBehind side ⟨orderId,traderId,side,price,walked.1⟩
            ((book.setSide (opposite side) walked.2.2).side side)),walked.2.1) := by
  unfold addLimit
  dsimp only
  rw [walked_eq]
  split
  · exact .inl rfl
  · split
    · exact .inr (.inl rfl)
    · split
      · exact .inr (.inl rfl)
      · exact .inr (.inr ⟨not_le.mp ‹_›,rfl⟩)

/-- What `modify` does to the book and the trades: nothing when the id does not rest;
otherwise a re-add after the cancel, at the new price or the old one, or a smaller quantity in
place. -/
theorem modify_cases (book : Book) (orderId : Nat) (newQty newPrice : Int) :
    (book.modify orderId newQty newPrice).2 = (book,[]) ∨
      ∃ order, book.find orderId = some order ∧
        ((∃ price, (book.modify orderId newQty newPrice).2 =
          ((book.cancel orderId).2.addLimit orderId order.traderId order.side price newQty).2) ∨
        newQty < order.qty ∧ (book.modify orderId newQty newPrice).2 =
          (book.setSide order.side ((book.side order.side).map fun other =>
            if other.orderId = orderId then { other with qty := newQty } else other),[])) := by
  unfold modify
  split
  · exact .inl rfl
  · rename_i order found
    refine .inr ⟨order,found,?_⟩
    split
    · exact .inl ⟨newPrice,rfl⟩
    · split
      · exact .inr ⟨‹_›,rfl⟩
      · exact .inl ⟨order.price,rfl⟩

/-- An `add_limit` reports no trade or the trades of its walk. -/
theorem addLimit_trades (book : Book) (orderId traderId : Nat) (side : Side) (price qty : Int) :
    (book.addLimit orderId traderId side price qty).2.2 = [] ∨
      (book.addLimit orderId traderId side price qty).2.2 =
        (walk ⟨orderId,traderId,side,some price⟩ qty (book.side (opposite side))).2.1 := by
  rcases addLimit_cases book orderId traderId side price qty rfl with same | same | ⟨-,same⟩ <;>
    simp only [same,true_or,or_true]

section Sorted

/-- Side `s` best first: no order is strictly ahead of an order before it. -/
def SideSorted (s : Side) (orders : List Resting) : Prop :=
  orders.Pairwise fun first later => ahead s later.price first.price = false

/-- Each side best first. -/
def Sorted (book : Book) : Prop := ∀ s, SideSorted s (book.side s)

variable {s : Side} {book : Book}

theorem ahead_asymm {p q : Int} (first : ahead s p q = true) : ahead s q p = false := by
  cases s <;> simp [ahead] at * <;> omega

theorem ahead_of_not_ahead {p q r : Int} (first : ahead s p q = true) (second : ahead s r q = false) :
    ahead s r p = false := by
  cases s <;> simp [ahead] at * <;> omega

theorem mem_insertBehind {order other : Resting} :
    ∀ {orders : List Resting}, other ∈ insertBehind s order orders ↔ other = order ∨ other ∈ orders
  | [] => by simp [insertBehind]
  | first :: rest => by
    unfold insertBehind
    split_ifs
    · simp
    · simp only [List.mem_cons,mem_insertBehind]
      exact or_left_comm

theorem SideSorted.insertBehind {order : Resting} :
    ∀ {orders : List Resting}, SideSorted s orders → SideSorted s (insertBehind s order orders)
  | [], _ => List.pairwise_singleton _ _
  | first :: rest, sorted => by
    obtain ⟨behind,sorted⟩ := List.pairwise_cons.mp sorted
    unfold Book.insertBehind
    split_ifs with before
    · refine List.pairwise_cons.mpr ⟨fun other member => ?_,List.pairwise_cons.mpr ⟨behind,sorted⟩⟩
      rcases List.mem_cons.mp member with rfl | member
      · exact ahead_asymm before
      · exact ahead_of_not_ahead before (behind other member)
    · refine List.pairwise_cons.mpr ⟨fun other member => ?_,SideSorted.insertBehind sorted⟩
      rcases mem_insertBehind.mp member with rfl | member
      · simpa using before
      · exact behind other member

theorem Sorted.setSide (sorted : Sorted book) (s : Side) {orders : List Resting} (side : SideSorted s orders) :
    Sorted (book.setSide s orders) := by
  intro t
  cases s <;> cases t
  · exact side
  · exact sorted .sell
  · exact sorted .buy
  · exact side

theorem Sorted.walk (sorted : Sorted book) (incoming : Incoming) (remaining : Int) (s : Side) :
    Sorted (book.setSide s (Book.walk incoming remaining (book.side s)).2.2) :=
  sorted.setSide s (walk_pairwise (P := fun first later => ahead s later first = false) _ _ (sorted s))

theorem Sorted.addLimit (sorted : Sorted book) (orderId traderId : Nat) (side : Side) (price qty : Int) :
    Sorted (book.addLimit orderId traderId side price qty).2.1 := by
  have walked := sorted.walk ⟨orderId,traderId,side,some price⟩ qty (opposite side)
  rcases addLimit_cases book orderId traderId side price qty rfl with same | same | ⟨-,same⟩ <;> rw [same]
  · exact sorted
  · exact walked
  · exact walked.setSide side (SideSorted.insertBehind (walked side))

theorem Sorted.addMarket (sorted : Sorted book) (orderId traderId : Nat) (side : Side) (qty : Int) :
    Sorted (book.addMarket orderId traderId side qty).2.1 :=
  sorted.walk _ qty (opposite side)

theorem Sorted.cancel (sorted : Sorted book) (orderId : Nat) : Sorted (book.cancel orderId).2 := by
  unfold Book.cancel
  split
  · exact sorted
  · exact sorted.setSide _ ((sorted _).sublist (List.eraseP_sublist _))

theorem Sorted.modify (sorted : Sorted book) (orderId : Nat) (newQty newPrice : Int) :
    Sorted (book.modify orderId newQty newPrice).2.1 := by
  rcases modify_cases book orderId newQty newPrice with same | ⟨order,-,⟨price,same⟩ | ⟨-,same⟩⟩ <;> rw [same]
  · exact sorted
  · exact (sorted.cancel orderId).addLimit _ _ _ _ _
  · refine sorted.setSide _ (List.pairwise_map.mpr ((sorted _).imp fun {first later} apart => ?_))
    split_ifs <;> exact apart

theorem Sorted.perform (sorted : Sorted book) : ∀ call, Sorted (book.perform call).2
  | .addLimit orderId traderId side price qty => sorted.addLimit orderId traderId side price qty
  | .addMarket orderId traderId side qty => sorted.addMarket orderId traderId side qty
  | .cancel orderId => sorted.cancel orderId
  | .modify orderId newQty newPrice => sorted.modify orderId newQty newPrice
  | .clear => fun t => by cases t <;> exact List.Pairwise.nil

theorem Sorted.run : ∀ {book : Book}, Sorted book → ∀ calls, Sorted (book.run calls).2
  | _, sorted, [] => sorted
  | _, sorted, call :: calls => (sorted.perform call).run calls

theorem sorted_empty (capacity : Nat) : Sorted (empty capacity) := fun t => by
  cases t <;> exact List.Pairwise.nil

end Sorted

section Positive

/-- Every resting order has quantity left. -/
def Positive (book : Book) : Prop := ∀ s, ∀ order ∈ book.side s, 0 < order.qty

variable {book : Book}

theorem Positive.setSide (positive : Positive book) (s : Side) {orders : List Resting}
    (left : ∀ order ∈ orders, 0 < order.qty) : Positive (book.setSide s orders) := by
  intro t
  cases s <;> cases t
  · exact left
  · exact positive .sell
  · exact positive .buy
  · exact left

/-- Against makers with quantity left, every fill is positive and every maker kept keeps
quantity left. -/
theorem walk_positive : ∀ (remaining : Int) (orders : List Resting), (∀ order ∈ orders, 0 < order.qty) →
    (∀ trade ∈ (walk incoming remaining orders).2.1, 0 < trade.qty) ∧
      ∀ order ∈ (walk incoming remaining orders).2.2, 0 < order.qty
  | _, [], _ => by simp [walk]
  | remaining, maker :: rest, left => by
    have head := left maker (List.mem_cons_self _ _)
    have tail : ∀ order ∈ rest, 0 < order.qty := fun order member => left order (List.mem_cons_of_mem _ member)
    unfold walk
    dsimp only
    split_ifs with stop
    · exact ⟨by simp,left⟩
    · have going := not_le.mp (not_or.mp stop).1
      obtain ⟨trades,makers⟩ := walk_positive (wrap64 (remaining - min remaining maker.qty)) rest tail
      refine ⟨fun trade member => ?_,makers⟩
      rcases List.mem_cons.mp member with rfl | member
      · exact lt_min going head
      · exact trades trade member
    · have going := not_le.mp (not_or.mp stop).1
      refine ⟨fun trade member => ?_,fun order member => ?_⟩
      · rw [List.mem_singleton.mp member]
        exact lt_min going head
      · rcases List.mem_cons.mp member with rfl | member
        · exact not_le.mp ‹_›
        · exact tail order member

theorem Positive.walk (positive : Positive book) (incoming : Incoming) (remaining : Int) (s : Side) :
    Positive (book.setSide s (Book.walk incoming remaining (book.side s)).2.2) ∧
      ∀ trade ∈ (Book.walk incoming remaining (book.side s)).2.1, 0 < trade.qty :=
  ⟨positive.setSide s (walk_positive remaining _ (positive s)).2,(walk_positive remaining _ (positive s)).1⟩

/-- `add_limit` keeps every resting quantity positive, and trades positive quantities. -/
theorem Positive.addLimit (positive : Positive book) (orderId traderId : Nat) (side : Side)
    (price qty : Int) :
    Positive (book.addLimit orderId traderId side price qty).2.1 ∧
      ∀ trade ∈ (book.addLimit orderId traderId side price qty).2.2, 0 < trade.qty := by
  obtain ⟨walked,fills⟩ := positive.walk ⟨orderId,traderId,side,some price⟩ qty (opposite side)
  rcases addLimit_cases book orderId traderId side price qty rfl with same | same | ⟨left,same⟩ <;> rw [same]
  · exact ⟨positive,nofun⟩
  · exact ⟨walked,fills⟩
  · refine ⟨walked.setSide side fun order member => ?_,fills⟩
    rcases mem_insertBehind.mp member with rfl | member
    · exact left
    · exact walked side order member

theorem Positive.addMarket (positive : Positive book) (orderId traderId : Nat) (side : Side) (qty : Int) :
    Positive (book.addMarket orderId traderId side qty).2.1 ∧
      ∀ trade ∈ (book.addMarket orderId traderId side qty).2.2, 0 < trade.qty :=
  positive.walk _ qty (opposite side)

theorem Positive.cancel (positive : Positive book) (orderId : Nat) : Positive (book.cancel orderId).2 := by
  unfold Book.cancel
  split
  · exact positive
  · exact positive.setSide _ fun order member => positive _ order ((List.eraseP_sublist _).subset member)

/-- A `modify` to a positive quantity keeps every resting quantity positive. -/
theorem Positive.modify (positive : Positive book) (orderId : Nat) {newQty : Int} (left : 0 < newQty)
    (newPrice : Int) :
    Positive (book.modify orderId newQty newPrice).2.1 ∧
      ∀ trade ∈ (book.modify orderId newQty newPrice).2.2, 0 < trade.qty := by
  rcases modify_cases book orderId newQty newPrice with same | ⟨order,-,⟨price,same⟩ | ⟨-,same⟩⟩ <;> rw [same]
  · exact ⟨positive,nofun⟩
  · exact (positive.cancel orderId).addLimit _ _ _ _ _
  · refine ⟨positive.setSide _ fun order member => ?_,nofun⟩
    obtain ⟨other,inSide,rfl⟩ := List.mem_map.mp member
    split_ifs
    · exact left
    · exact positive _ other inSide

/-- Against makers with quantity left, a walk from an `int64_t` quantity subtracts without
wrapping, so it fills at most that quantity. -/
theorem walk_filled : ∀ (remaining : Int) (orders : List Resting), (∀ order ∈ orders, 0 < order.qty) →
    remaining < 2^63 → ((walk incoming remaining orders).2.1.map Trade.qty).sum ≤ max remaining 0
  | _, [], _, _ => by simp [walk]
  | remaining, maker :: rest, left, fits => by
    have head := left maker (List.mem_cons_self _ _)
    unfold walk
    dsimp only
    split_ifs with stop
    · simp
    · have exact : wrap64 (remaining - min remaining maker.qty) = remaining - min remaining maker.qty :=
        wrap64_of_mem (by omega) (by omega)
      have later := walk_filled (wrap64 (remaining - min remaining maker.qty)) rest
        (fun order member => left order (List.mem_cons_of_mem _ member)) (by rw [exact]; omega)
      rw [exact] at later ⊢
      simp only [List.map_cons,List.sum_cons]
      omega
    · simp only [List.map_cons,List.map_nil,List.sum_cons,List.sum_nil]
      omega

theorem Positive.addLimit_filled (positive : Positive book) (orderId traderId : Nat) (side : Side)
    (price : Int) {qty : Int} (fits : qty < 2^63) :
    ((book.addLimit orderId traderId side price qty).2.2.map Trade.qty).sum ≤ max qty 0 := by
  rcases addLimit_cases book orderId traderId side price qty rfl with same | same | ⟨-,same⟩ <;> rw [same]
  · simp
  all_goals exact walk_filled qty _ (positive (opposite side)) fits

theorem Positive.addMarket_filled (positive : Positive book) (orderId traderId : Nat) (side : Side)
    {qty : Int} (fits : qty < 2^63) :
    ((book.addMarket orderId traderId side qty).2.2.map Trade.qty).sum ≤ max qty 0 :=
  walk_filled qty _ (positive (opposite side)) fits

theorem Positive.modify_filled (positive : Positive book) (orderId : Nat) {newQty : Int} (fits : newQty < 2^63)
    (newPrice : Int) :
    ((book.modify orderId newQty newPrice).2.2.map Trade.qty).sum ≤ max newQty 0 := by
  rcases modify_cases book orderId newQty newPrice with same | ⟨order,-,⟨price,same⟩ | ⟨-,same⟩⟩ <;> rw [same]
  · simp
  · exact (positive.cancel orderId).addLimit_filled _ _ _ _ fits
  · simp

end Positive

end Book

end ExchangeSim
