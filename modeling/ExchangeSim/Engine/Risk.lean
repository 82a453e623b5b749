import ExchangeSim.Engine.Accounts

/-! `RiskChecker` (`risk.hpp`): the pre-trade gate. The engine always hands it its own
accounts, so the branch for a null `accounts_` is not reachable from the engine and is left
out, as is `max_position`, which `check` never reads. The limits are `int64_t` values, and the
notional `price * qty` is an `int64_t` product, which wraps. -/
namespace ExchangeSim

inductive RiskResult where
  | passed
  | invalidPrice
  | invalidQty
  | exceedsMaxOrderValue
  | exceedsMaxPosition
  | insufficientBalance
  | unknownTrader
  deriving DecidableEq, Repr

structure RiskConfig where
  maxOrderValue : Int := 1000000000
  maxOrderQty : Int := 100000
  maxPrice : Int := 1000000
  minPrice : Int := 1
  checkBalance : Bool := true
  int64 : ∀ limit ∈ [maxOrderValue,maxOrderQty,maxPrice,minPrice], -2^63 ≤ limit ∧ limit < 2^63 := by decide
  deriving DecidableEq, Repr

namespace RiskConfig

/-- `RiskChecker::check`: cancels pass; the price range (limit and modify only), the
quantity range, the notional cap and, for a buy, the balance of `event.trader_id`, in this
order. -/
def check (config : RiskConfig) (accounts : Accounts) (event : OrderEvent) : RiskResult :=
  if event.type = .cancel then .passed
  else if (event.type = .newLimit ∨ event.type = .modify) ∧
      (event.price < config.minPrice ∨ event.price > config.maxPrice) then .invalidPrice
  else if event.qty ≤ 0 ∨ event.qty > config.maxOrderQty then .invalidQty
  else
    let notional := wrap64 (event.price * event.qty)
    if notional > config.maxOrderValue then .exceedsMaxOrderValue
    else if config.checkBalance = true ∧ event.side = .buy ∧
        accounts.hasSufficientBalance event.traderId notional = false then
      .insufficientBalance
    else .passed

variable {config : RiskConfig} {accounts : Accounts} {event : OrderEvent}

theorem maxOrderQty_lt (config : RiskConfig) : config.maxOrderQty < 2^63 :=
  (config.int64 _ (by simp)).2

/-- What an event that passes and is not a cancel satisfies. -/
theorem check_passed (passed : config.check accounts event = .passed) (order : event.type ≠ .cancel) :
    0 < event.qty ∧ event.qty ≤ config.maxOrderQty ∧ wrap64 (event.price * event.qty) ≤ config.maxOrderValue ∧
      ((event.type = .newLimit ∨ event.type = .modify) → config.minPrice ≤ event.price ∧
        event.price ≤ config.maxPrice) ∧
      (config.checkBalance = true → event.side = .buy →
        accounts.hasSufficientBalance event.traderId (wrap64 (event.price * event.qty)) = true) := by
  unfold check at passed
  simp only [if_neg order] at passed
  split_ifs at passed with price qty value balance
  refine ⟨by omega,by omega,by omega,fun limit => by have := not_and.mp price limit; omega,
    fun enabled buy => ?_⟩
  simpa [enabled,buy] using balance

/-- A buy that passes with the balance check on was checked against an existing account of
`event.trader_id` holding at least its notional. -/
theorem balance_of_passed (passed : config.check accounts event = .passed) (order : event.type ≠ .cancel)
    (enabled : config.checkBalance = true) (buy : event.side = .buy) :
    ∃ acc, accounts.get event.traderId = some acc ∧ wrap64 (event.price * event.qty) ≤ acc.balance.toInt := by
  have sufficient := (check_passed passed order).2.2.2.2 enabled buy
  unfold Accounts.hasSufficientBalance at sufficient
  split at sufficient
  · exact absurd sufficient Bool.false_ne_true
  · exact ⟨_,‹_›,of_decide_eq_true sufficient⟩

end RiskConfig

end ExchangeSim
