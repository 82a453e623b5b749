import Mathlib.Data.BitVec

/-! Value types of `ces`: sides, order types and results, the pool-resident `Order`,
`Trade`, `OrderResponse` and the queue's `OrderEvent` (`types.hpp`, `order.hpp`).
Prices and quantities are `int64_t` there and `Int` here, and an `int64_t` sum, difference or
product is the `wrap64` of the exact one. -/
namespace ExchangeSim

inductive Side where
  | buy
  | sell
  deriving DecidableEq, Repr, Inhabited

def opposite : Side → Side
  | .buy => .sell
  | .sell => .buy

inductive OrderType where
  | newLimit
  | newMarket
  | cancel
  | modify
  deriving DecidableEq, Repr, Inhabited

inductive OrderResult where
  | accepted
  | partiallyFilled
  | fullyFilled
  | cancelled
  | modified
  | rejected
  | notFound
  deriving DecidableEq, Repr, Inhabited

/-- The value an `int64_t` expression takes when its exact value is `x`: two's complement wraps
it into `[-2^63, 2^63)`. Signed overflow is undefined in C++; the compiled code wraps. The
bounds are written as numerals (`2^63` and `2^64`) so that evaluating it costs no power. -/
def wrap64 (x : Int) : Int := (x + 9223372036854775808) % 18446744073709551616 - 9223372036854775808

theorem wrap64_of_mem {x : Int} (low : -2^63 ≤ x) (high : x < 2^63) : wrap64 x = x := by
  unfold wrap64; omega

theorem wrap64_mem (x : Int) : -2^63 ≤ wrap64 x ∧ wrap64 x < 2^63 := by
  unfold wrap64; omega

/-- Wrapping depends only on the value modulo 2^64. -/
theorem wrap64_congr {x y : Int} (same : x % 2^64 = y % 2^64) : wrap64 x = wrap64 y := by
  unfold wrap64; omega

theorem wrap64_emod (x : Int) : wrap64 x % 2^64 = x % 2^64 := by
  unfold wrap64; omega

@[simp] theorem wrap64_zero : wrap64 0 = 0 := rfl

@[simp] theorem wrap64_wrap64 (x : Int) : wrap64 (wrap64 x) = wrap64 x := by
  unfold wrap64; omega

theorem wrap64_wrap64_add (x y : Int) : wrap64 (wrap64 x + y) = wrap64 (x + y) := by
  unfold wrap64; omega

theorem wrap64_wrap64_sub (x y : Int) : wrap64 (wrap64 x - y) = wrap64 (x - y) := by
  unfold wrap64; omega

/-- Two positions less than a turn of a ring of `c` slots apart fall in different slots. -/
theorem mod_ne_of_lt {r i n c : Nat} (lt : i < n) (within : n < c) : (r + i) % c ≠ (r + n) % c := by
  intro same
  have := Nat.sub_mod_eq_zero_of_mod_eq same.symm
  rw [show r + n - (r + i) = n - i by omega,Nat.mod_eq_of_lt (by omega)] at this
  omega

/-- `INVALID_POOL_INDEX` (`ObjectPool::INVALID_INDEX`): the end of every list of slots. -/
def invalidPoolIndex : Nat := 4294967295

def invalidOrderId : Nat := 18446744073709551615

def invalidTraderId : Nat := 4294967295

/-- An order in the pool, with its intrusive links. The creation timestamp is not
read by any modelled function and is left out. -/
structure Order where
  orderId : Nat
  traderId : Nat
  side : Side
  price : Int
  qtyRemaining : Int
  qtyOriginal : Int
  nextIdx : Nat
  prevIdx : Nat
  deriving DecidableEq, Repr

instance : Inhabited Order :=
  ⟨⟨invalidOrderId,invalidTraderId,.buy,0,0,0,invalidPoolIndex,invalidPoolIndex⟩⟩

/-- The constructor `Order(id, trader, s, p, qty)`: both quantities start at `qty`. -/
def Order.create (orderId traderId : Nat) (side : Side) (price qty : Int) : Order :=
  ⟨orderId,traderId,side,price,qty,qty,invalidPoolIndex,invalidPoolIndex⟩

structure Trade where
  makerOrderId : Nat
  takerOrderId : Nat
  makerTraderId : Nat
  takerTraderId : Nat
  price : Int
  qty : Int
  takerSide : Side
  deriving DecidableEq, Repr

structure OrderResponse where
  result : OrderResult := .rejected
  orderId : Nat := invalidOrderId
  qtyFilled : Int := 0
  qtyRemaining : Int := 0
  tradeCount : Nat := 0
  deriving DecidableEq, Repr

def OrderResponse.success (response : OrderResponse) : Bool :=
  response.result != .rejected && response.result != .notFound

/-- A queue element. `enqueue_time` only feeds the latency histogram and is left out. -/
structure OrderEvent where
  type : OrderType
  orderId : Nat
  traderId : Nat
  side : Side
  price : Int
  qty : Int
  deriving DecidableEq, Repr

/-- `OrderEvent{}`: the value of a value-initialised queue slot. -/
instance : Inhabited OrderEvent := ⟨⟨.newLimit,invalidOrderId,invalidTraderId,.buy,0,0⟩⟩

namespace OrderEvent

def newLimit (id trader : Nat) (side : Side) (price qty : Int) : OrderEvent :=
  ⟨.newLimit,id,trader,side,price,qty⟩

def newMarket (id trader : Nat) (side : Side) (qty : Int) : OrderEvent :=
  ⟨.newMarket,id,trader,side,0,qty⟩

def cancel (id : Nat) : OrderEvent :=
  ⟨.cancel,id,invalidTraderId,.buy,0,0⟩

def modify (id : Nat) (newQty newPrice : Int) : OrderEvent :=
  ⟨.modify,id,invalidTraderId,.buy,newPrice,newQty⟩

end OrderEvent

end ExchangeSim
