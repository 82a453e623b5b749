import ExchangeSim.Types
import Mathlib.Algebra.BigOperators.Group.List
import Mathlib.Tactic.Abel

/-! `Accounts` (`accounts.cpp`): a vector of accounts searched by trader id. The stripe
mutexes only serialise calls and are left out, as is the second, locked scan of
`get_or_create`, which sees what the first one saw in a sequential run. Balances, positions
and counters change by `fetch_add` and `fetch_sub`, whose arithmetic is that of `BitVec 64`. -/
namespace ExchangeSim

structure Account where
  traderId : Nat
  balance : BitVec 64
  position : BitVec 64
  tradeCount : BitVec 64
  volume : BitVec 64
  deriving DecidableEq, Repr

/-- `Account(id, initial_balance)`. -/
def Account.create (traderId : Nat) (initialBalance : BitVec 64) : Account :=
  ⟨traderId,initialBalance,0,0,0⟩

structure Accounts where
  accounts : List Account
  maxTraders : Nat
  deriving DecidableEq, Repr

namespace Accounts

/-- `Accounts(max_traders, stripe_count)`. -/
def new (maxTraders : Nat) : Accounts := ⟨[],maxTraders⟩

/-- `get`: the first account of the id. -/
def get (accs : Accounts) (traderId : Nat) : Option Account :=
  accs.accounts.find? fun acc => acc.traderId == traderId

/-- A write through the pointer `get` returns. -/
def update (traderId : Nat) (f : Account → Account) : List Account → List Account
  | [] => []
  | acc :: rest => if acc.traderId = traderId then f acc :: rest else acc :: update traderId f rest

def createAccount (accs : Accounts) (traderId : Nat) (initialBalance : BitVec 64) : Bool × Accounts :=
  if accs.accounts.any fun acc => acc.traderId == traderId then (false,accs)
  else if accs.accounts.length ≥ accs.maxTraders then (false,accs)
  else (true,{ accs with accounts := accs.accounts ++ [Account.create traderId initialBalance] })

/-- `get_or_create`: the account found, the one appended, or `nullptr` at capacity. -/
def getOrCreate (accs : Accounts) (traderId : Nat) (initialBalance : BitVec 64) :
    Option Account × Accounts :=
  match accs.get traderId with
  | some acc => (some acc,accs)
  | none =>
    if accs.accounts.length ≥ accs.maxTraders then (none,accs)
    else
      (some (Account.create traderId initialBalance),
        { accs with accounts := accs.accounts ++ [Account.create traderId initialBalance] })

/-- `apply_trade`: nothing when an account is missing; otherwise the four balance and position
updates in the order the source makes them, then both parties' counters. -/
def applyTrade (accs : Accounts) (makerId takerId : Nat) (takerSide : Side) (price qty : Int) :
    Accounts :=
  match accs.get makerId, accs.get takerId with
  | some _, some _ =>
    let notional := BitVec.ofInt 64 (price * qty)
    let qtyVal := BitVec.ofInt 64 qty
    let accounts := match takerSide with
      | .buy => accs.accounts
        |> update takerId (fun a => { a with balance := a.balance - notional })
        |> update takerId (fun a => { a with position := a.position + qtyVal })
        |> update makerId (fun a => { a with balance := a.balance + notional })
        |> update makerId (fun a => { a with position := a.position - qtyVal })
      | .sell => accs.accounts
        |> update takerId (fun a => { a with balance := a.balance + notional })
        |> update takerId (fun a => { a with position := a.position - qtyVal })
        |> update makerId (fun a => { a with balance := a.balance - notional })
        |> update makerId (fun a => { a with position := a.position + qtyVal })
    let accounts := accounts
      |> update makerId (fun a => { a with tradeCount := a.tradeCount + 1 })
      |> update makerId (fun a => { a with volume := a.volume + qtyVal })
      |> update takerId (fun a => { a with tradeCount := a.tradeCount + 1 })
      |> update takerId (fun a => { a with volume := a.volume + qtyVal })
    { accs with accounts := accounts }
  | _, _ => accs

def adjustBalance (accs : Accounts) (traderId : Nat) (amount : BitVec 64) : Bool × Accounts :=
  match accs.get traderId with
  | none => (false,accs)
  | some _ =>
    let accounts := update traderId (fun a => { a with balance := a.balance + amount }) accs.accounts
    (true,{ accs with accounts := accounts })

/-- `has_sufficient_balance`, comparing as `int64`. -/
def hasSufficientBalance (accs : Accounts) (traderId : Nat) (requiredAmount : Int) : Bool :=
  match accs.get traderId with
  | none => false
  | some acc => decide (requiredAmount ≤ acc.balance.toInt)

def getBalance (accs : Accounts) (traderId : Nat) : Int :=
  ((accs.get traderId).map fun acc => acc.balance.toInt).getD 0

def getPosition (accs : Accounts) (traderId : Nat) : Int :=
  ((accs.get traderId).map fun acc => acc.position.toInt).getD 0

def size (accs : Accounts) : Nat := accs.accounts.length

def clear (accs : Accounts) : Accounts := { accs with accounts := [] }

/-- The calls a sequential run makes. -/
inductive Call where
  | createAccount (traderId : Nat) (initialBalance : BitVec 64)
  | getOrCreate (traderId : Nat) (initialBalance : BitVec 64)
  | applyTrade (makerId takerId : Nat) (takerSide : Side) (price qty : Int)
  | adjustBalance (traderId : Nat) (amount : BitVec 64)
  | clear
  deriving DecidableEq, Repr

def step (accs : Accounts) : Call → Accounts
  | .createAccount traderId initialBalance => (accs.createAccount traderId initialBalance).2
  | .getOrCreate traderId initialBalance => (accs.getOrCreate traderId initialBalance).2
  | .applyTrade makerId takerId takerSide price qty => accs.applyTrade makerId takerId takerSide price qty
  | .adjustBalance traderId amount => (accs.adjustBalance traderId amount).2
  | .clear => accs.clear

/-- What the balances are owed after a call: the running total since the last `clear` of the
initial balances of the accounts created and the amounts of successful `adjust_balance`s. -/
def credited (accs : Accounts) (total : BitVec 64) : Call → BitVec 64
  | .createAccount traderId initialBalance =>
    if (accs.createAccount traderId initialBalance).1 then total + initialBalance else total
  | .getOrCreate traderId initialBalance =>
    if accs.get traderId = none ∧ (accs.getOrCreate traderId initialBalance).1.isSome then
      total + initialBalance
    else total
  | .applyTrade .. => total
  | .adjustBalance traderId amount =>
    if (accs.adjustBalance traderId amount).1 then total + amount else total
  | .clear => 0

/-- A run of calls, with the credited total beside the table. -/
def run : Accounts × BitVec 64 → List Call → Accounts × BitVec 64
  | state, [] => state
  | (accs,total), call :: rest => run (accs.step call,accs.credited total call) rest

@[simp] theorem length_update (f : Account → Account) (traderId : Nat) :
    ∀ L : List Account, (update traderId f L).length = L.length
  | [] => rfl
  | a :: rest => by
    by_cases here : a.traderId = traderId <;> simp [update,here,length_update f traderId rest]

/-- A write moves the sum of a field by what it changes in the account it finds. -/
theorem sum_update (f : Account → Account) (traderId : Nat) (g : Account → BitVec 64) :
    ∀ L : List Account, ((update traderId f L).map g).sum =
      (L.map g).sum + (((L.find? fun a => a.traderId == traderId).map fun a => g (f a) - g a).getD 0)
  | [] => by simp [update]
  | a :: rest => by
    by_cases here : a.traderId = traderId
    · simp [update,here]; abel
    · simp [update,here,sum_update f traderId g rest]; abel

section Update

variable {f : Account → Account} (keep : ∀ a, (f a).traderId = a.traderId) (traderId : Nat)
include keep

theorem find?_update (j : Nat) : ∀ L : List Account,
    (update traderId f L).find? (fun a => a.traderId == j) =
      if j = traderId then (L.find? fun a => a.traderId == traderId).map f
      else L.find? fun a => a.traderId == j
  | [] => by simp [update]
  | a :: rest => by
    by_cases here : a.traderId = traderId
    · by_cases same : j = traderId
      · subst same; simp [update,here,keep]
      · have other : traderId ≠ j := Ne.symm same
        simp [update,here,keep,same,other]
    · have ih := find?_update j rest
      by_cases hit : a.traderId = j
      · subst hit; simp [update,here,Ne.symm here]
      · simp [update,here,hit,ih]

theorem traderIds_update : ∀ L : List Account,
    (update traderId f L).map Account.traderId = L.map Account.traderId
  | [] => rfl
  | a :: rest => by
    by_cases here : a.traderId = traderId <;> simp [update,here,keep,traderIds_update rest]

end Update

theorem get_eq_none {accs : Accounts} {traderId : Nat} :
    accs.get traderId = none ↔ traderId ∉ accs.accounts.map Account.traderId := by
  simp [get,List.find?_eq_none]

/-- The table's invariant over any run: each trader id at most once, within capacity. -/
structure Valid (accs : Accounts) : Prop where
  distinct : (accs.accounts.map Account.traderId).Nodup
  bounded : accs.accounts.length ≤ accs.maxTraders

/-- The sum of all positions, as the atomics add. -/
def positions (accs : Accounts) : BitVec 64 := (accs.accounts.map Account.position).sum

/-- The sum of all balances, as the atomics add. -/
def balances (accs : Accounts) : BitVec 64 := (accs.accounts.map Account.balance).sum

theorem valid_new (maxTraders : Nat) : Valid (new maxTraders) := ⟨List.nodup_nil,Nat.zero_le _⟩

@[simp] theorem maxTraders_step (accs : Accounts) (call : Call) :
    (accs.step call).maxTraders = accs.maxTraders := by
  cases call <;> simp only [step,createAccount,getOrCreate,applyTrade,adjustBalance,clear] <;>
    split <;> (try split) <;> rfl

theorem Valid.append (valid : Valid accs) {traderId : Nat} (fresh : traderId ∉ accs.accounts.map Account.traderId)
    (room : ¬accs.accounts.length ≥ accs.maxTraders) (initialBalance : BitVec 64) :
    Valid { accs with accounts := accs.accounts ++ [Account.create traderId initialBalance] } := by
  refine ⟨?_,by simp; omega⟩
  rw [List.map_append,List.nodup_append]
  exact ⟨valid.distinct,by simp,by simpa [Account.create] using fresh⟩

theorem Valid.of_ids (valid : Valid accs) {L : List Account}
    (same : L.map Account.traderId = accs.accounts.map Account.traderId) :
    Valid { accs with accounts := L } :=
  ⟨same ▸ valid.distinct,by
    have := congrArg List.length same
    simp only [List.length_map] at this
    exact this ▸ valid.bounded⟩

theorem Valid.step (valid : Valid accs) : ∀ call, Valid (accs.step call)
  | .createAccount traderId initialBalance => by
    simp only [Accounts.step,createAccount]
    split_ifs with found full
    · exact valid
    · exact valid
    · exact valid.append (by simpa using found) full initialBalance
  | .getOrCreate traderId initialBalance => by
    simp only [Accounts.step,getOrCreate]
    split
    · exact valid
    · rename_i missing
      split_ifs with full
      · exact valid
      · exact valid.append (get_eq_none.mp missing) full initialBalance
  | .applyTrade makerId takerId takerSide price qty => by
    simp only [Accounts.step,applyTrade]
    split
    · exact valid.of_ids (by cases takerSide <;> simp [traderIds_update])
    · exact valid
  | .adjustBalance traderId amount => by
    simp only [Accounts.step,adjustBalance]
    split
    · exact valid
    · exact valid.of_ids (by simp [traderIds_update])
  | .clear => ⟨List.nodup_nil,Nat.zero_le _⟩

/-- The amount `x` with the sign it has for a buyer: what a buy pays and the position it
gains. -/
def bought : Side → BitVec 64 → BitVec 64
  | .buy, x => x
  | .sell, x => -x

variable {accs : Accounts} {makerId takerId : Nat} {takerSide : Side} {price qty : Int}

theorem applyTrade_missing (missing : accs.get makerId = none ∨ accs.get takerId = none) :
    accs.applyTrade makerId takerId takerSide price qty = accs := by
  unfold applyTrade
  rcases missing with none | none <;> simp [none]

theorem get_applyTrade_taker (apart : makerId ≠ takerId) (maker : (accs.get makerId).isSome) :
    (accs.applyTrade makerId takerId takerSide price qty).get takerId =
      (accs.get takerId).map fun a => { a with
        balance := a.balance - bought takerSide (BitVec.ofInt 64 (price * qty)),
        position := a.position + bought takerSide (BitVec.ofInt 64 qty),
        tradeCount := a.tradeCount + 1, volume := a.volume + BitVec.ofInt 64 qty } := by
  obtain ⟨m,maker⟩ := Option.isSome_iff_exists.mp maker
  cases taker : accs.get takerId with
  | none => simp [applyTrade_missing (.inr taker),taker]
  | some t =>
    simp only [get] at maker taker
    cases takerSide <;> simp [applyTrade,get,find?_update,maker,taker,apart,Ne.symm apart,sub_eq_add_neg,bought]

theorem get_applyTrade_maker (apart : makerId ≠ takerId) (taker : (accs.get takerId).isSome) :
    (accs.applyTrade makerId takerId takerSide price qty).get makerId =
      (accs.get makerId).map fun a => { a with
        balance := a.balance + bought takerSide (BitVec.ofInt 64 (price * qty)),
        position := a.position - bought takerSide (BitVec.ofInt 64 qty),
        tradeCount := a.tradeCount + 1, volume := a.volume + BitVec.ofInt 64 qty } := by
  obtain ⟨t,taker⟩ := Option.isSome_iff_exists.mp taker
  cases maker : accs.get makerId with
  | none => simp [applyTrade_missing (.inl maker),maker]
  | some m =>
    simp only [get] at maker taker
    cases takerSide <;> simp [applyTrade,get,find?_update,maker,taker,apart,Ne.symm apart,sub_eq_add_neg,bought]

theorem get_applyTrade_self :
    (accs.applyTrade takerId takerId takerSide price qty).get takerId =
      (accs.get takerId).map fun a => { a with
        tradeCount := a.tradeCount + 1 + 1, volume := a.volume + BitVec.ofInt 64 qty + BitVec.ofInt 64 qty } := by
  cases taker : accs.get takerId with
  | none => simp [applyTrade_missing (.inr taker),taker]
  | some t =>
    simp only [get] at taker
    cases takerSide <;> simp [applyTrade,get,find?_update,taker]

theorem get_applyTrade_other {j : Nat} (maker : j ≠ makerId) (taker : j ≠ takerId) :
    (accs.applyTrade makerId takerId takerSide price qty).get j = accs.get j := by
  unfold applyTrade
  split
  · cases takerSide <;> simp [get,find?_update,maker,taker]
  · rfl

/-- `apply_trade` keeps the sum of the balances: what one party pays, the other receives. -/
theorem balances_applyTrade (accs : Accounts) (makerId takerId : Nat) (takerSide : Side) (price qty : Int) :
    (accs.applyTrade makerId takerId takerSide price qty).balances = accs.balances := by
  unfold applyTrade
  split
  · rename_i maker taker
    simp only [get] at maker taker
    by_cases same : makerId = takerId
    · subst same
      cases takerSide <;> simp [balances,sum_update,find?_update,maker,taker]
    · cases takerSide <;> simp [balances,sum_update,find?_update,maker,taker,same,Ne.symm same]
  · rfl

theorem positions_applyTrade (accs : Accounts) (makerId takerId : Nat) (takerSide : Side) (price qty : Int) :
    (accs.applyTrade makerId takerId takerSide price qty).positions = accs.positions := by
  unfold applyTrade
  split
  · rename_i maker taker
    simp only [get] at maker taker
    by_cases same : makerId = takerId
    · subst same
      cases takerSide <;> simp [positions,sum_update,find?_update,maker,taker]
    · cases takerSide <;> simp [positions,sum_update,find?_update,maker,taker,same,Ne.symm same]
  · rfl

/-- One call moves the sum of the balances by what `credited` adds. -/
theorem balances_step (accs : Accounts) : ∀ call, (accs.step call).balances = accs.credited accs.balances call
  | .createAccount traderId initialBalance => by
    by_cases found : (accs.accounts.any fun acc => acc.traderId == traderId) = true
    · simp [Accounts.step,credited,createAccount,found]
    by_cases full : accs.accounts.length ≥ accs.maxTraders
    · simp [Accounts.step,credited,createAccount,found,full]
    · simp [Accounts.step,credited,createAccount,found,full,balances,Account.create]
  | .getOrCreate traderId initialBalance => by
    cases found : accs.get traderId
    · by_cases full : accs.accounts.length ≥ accs.maxTraders
      · simp [Accounts.step,credited,getOrCreate,found,full]
      · simp [Accounts.step,credited,getOrCreate,found,full,balances,Account.create]
    · simp [Accounts.step,credited,getOrCreate,found]
  | .applyTrade makerId takerId takerSide price qty => balances_applyTrade accs makerId takerId takerSide price qty
  | .adjustBalance traderId amount => by
    cases found : accs.get traderId
    · simp [Accounts.step,credited,adjustBalance,found]
    · simp only [get] at found
      simp [Accounts.step,credited,adjustBalance,get,balances,sum_update,found]
  | .clear => rfl

/-- No call but `clear` moves the sum of the positions, and `clear` empties the table. -/
theorem positions_step {accs : Accounts} (zero : accs.positions = 0) : ∀ call, (accs.step call).positions = 0
  | .createAccount traderId initialBalance => by
    simp only [Accounts.step,createAccount]
    split_ifs
    · exact zero
    · exact zero
    · simpa [positions,Account.create] using zero
  | .getOrCreate traderId initialBalance => by
    simp only [Accounts.step,getOrCreate]
    split
    · exact zero
    · split_ifs
      · exact zero
      · simpa [positions,Account.create] using zero
  | .applyTrade makerId takerId takerSide price qty =>
    (positions_applyTrade accs makerId takerId takerSide price qty).trans zero
  | .adjustBalance traderId amount => by
    simp only [Accounts.step,adjustBalance]
    split
    · exact zero
    · rename_i found
      simp only [get] at found
      simpa [positions,sum_update,found] using zero
  | .clear => rfl

/-- What holds throughout a run: the table is `Valid`, the positions sum to zero and the
balances to the credited total. -/
structure Conserved (state : Accounts × BitVec 64) : Prop where
  valid : Valid state.1
  positions : state.1.positions = 0
  balances : state.1.balances = state.2

theorem Conserved.step {accs : Accounts} {total : BitVec 64} (conserved : Conserved (accs,total))
    (call : Call) : Conserved (accs.step call,accs.credited total call) :=
  ⟨conserved.valid.step call,positions_step conserved.positions call,
    (balances_step accs call).trans (by rw [conserved.balances])⟩

theorem Conserved.run : ∀ {state : Accounts × BitVec 64} (calls : List Call), Conserved state →
    Conserved (Accounts.run state calls)
  | _, [] => id
  | (_,_), call :: rest => fun conserved => Conserved.run rest (conserved.step call)

/-- Over any run from an empty table the ids stay distinct and within capacity, the positions
sum to zero and the balances to the credited total, all modulo 2^64. `apply_trade` moves the
two parties' balances and positions by opposite amounts, nets to nothing on a self-trade,
touches no third account and does nothing when an account is missing. -/
theorem accounts_conservation (maxTraders : Nat) (calls : List Call) :
    Conserved (run (new maxTraders,0) calls) ∧
    ∀ (accs : Accounts) (makerId takerId : Nat) (takerSide : Side) (price qty : Int),
      (accs.get makerId = none ∨ accs.get takerId = none →
        accs.applyTrade makerId takerId takerSide price qty = accs) ∧
      (makerId = takerId →
        ((accs.applyTrade makerId takerId takerSide price qty).get takerId).map (fun a => (a.balance,a.position)) =
          (accs.get takerId).map fun a => (a.balance,a.position)) ∧
      (makerId ≠ takerId → (accs.get makerId).isSome → (accs.get takerId).isSome →
        ((accs.applyTrade makerId takerId takerSide price qty).get takerId).map (fun a => (a.balance,a.position)) =
          (accs.get takerId).map (fun a => (a.balance - bought takerSide (BitVec.ofInt 64 (price * qty)),
            a.position + bought takerSide (BitVec.ofInt 64 qty))) ∧
        ((accs.applyTrade makerId takerId takerSide price qty).get makerId).map (fun a => (a.balance,a.position)) =
          (accs.get makerId).map (fun a => (a.balance + bought takerSide (BitVec.ofInt 64 (price * qty)),
            a.position - bought takerSide (BitVec.ofInt 64 qty)))) ∧
      ∀ j, j ≠ makerId → j ≠ takerId → (accs.applyTrade makerId takerId takerSide price qty).get j = accs.get j :=
  ⟨Conserved.run calls ⟨valid_new maxTraders,rfl,rfl⟩,fun _ _ _ _ _ _ =>
    ⟨applyTrade_missing,
      fun same => by subst same; simp [get_applyTrade_self,Option.map_map,Function.comp_def],
      fun apart maker taker => ⟨by simp [get_applyTrade_taker apart maker,Option.map_map,Function.comp_def],
        by simp [get_applyTrade_maker apart taker,Option.map_map,Function.comp_def]⟩,
      fun _ maker taker => get_applyTrade_other maker taker⟩⟩

example : (((new 2).step (.createAccount 0 1000)).step (.createAccount 1 1000)).applyTrade 0 1 .buy 100 5 =
    ⟨[⟨0,1500,-5,1,5⟩,⟨1,500,5,1,5⟩],2⟩ := by
  decide

end Accounts

end ExchangeSim
