import Mathlib.Data.Nat.Digits
import ExchangeSim.Types

/-! `parse_csv` of the replay tool (`replay_from_csv.cpp`). `std::getline` cuts the file into
lines and each line into comma-separated tokens. The header line is skipped, as are empty lines,
lines starting with `#`, and lines whose first token does not start with `L`, `M` or `C`. The
fields are converted by `std::stoull`, `std::stoul` (cast to `uint32_t`) and `std::stoll` in
base 10; a field that is missing or empty keeps the default of `CsvOrder order;`, which is 0 for
the ids, the price and the quantity and leaves the side unassigned. A conversion that fails
throws out of `parse_csv`, and the tool does not catch it. -/
namespace ExchangeSim

namespace ReplayCsv

/-- The pieces that successive `std::getline(stream, piece, delim)` calls extract once `piece`
has been read: each piece that `delim` ends, and the last one unless it is empty (a call that
reaches the end having extracted nothing fails). -/
def getlinesFrom (delim : Char) (piece : List Char) : List Char → List (List Char)
  | [] => if piece.isEmpty then [] else [piece]
  | c :: rest => if c = delim then piece :: getlinesFrom delim [] rest else getlinesFrom delim (piece ++ [c]) rest

def getlines (delim : Char) (chars : List Char) : List (List Char) := getlinesFrom delim [] chars

def isSpace (c : Char) : Bool :=
  c = ' ' || c = '\t' || c = '\n' || c = '\x0b' || c = '\x0c' || c = '\r'

def leadingDigits : List Char → List Nat
  | c :: rest => if c.isDigit then (c.toNat - '0'.toNat) :: leadingDigits rest else []
  | [] => []

def decimalValue (digits : List Nat) : Nat := digits.foldl (fun value d => 10 * value + d) 0

def sign : List Char → Bool × List Char
  | '-' :: rest => (true,rest)
  | '+' :: rest => (false,rest)
  | chars => (false,chars)

/-- What `strtoull` and `strtoll` read of a token in base 10: white space, an optional sign and
the digits after it, as the sign and the magnitude; `none` when no digit follows, where they
convert nothing. -/
def scan (token : List Char) : Option (Bool × Nat) :=
  match sign (token.dropWhile isSpace) with
  | (negative,body) => if (leadingDigits body).isEmpty then none else some (negative,decimalValue (leadingDigits body))

inductive Failure where
  | invalidArgument (function : String)
  | outOfRange (function : String)
  deriving DecidableEq, Repr

/-- `std::stoull` and `std::stoul`, whose `unsigned long` has 64 bits: a `-` negates the
magnitude modulo `2^64`, and a magnitude past `2^64 - 1` is out of range. -/
def toUnsigned (function : String) (token : List Char) : Except Failure Nat :=
  match scan token with
  | none => .error (.invalidArgument function)
  | some (negative,value) =>
    if value < 2^64 then .ok (if negative then (2^64 - value) % 2^64 else value) else .error (.outOfRange function)

def stoull (token : List Char) : Except Failure Nat := toUnsigned "stoull" token

def stoul (token : List Char) : Except Failure Nat := toUnsigned "stoul" token

def stoll (token : List Char) : Except Failure Int :=
  match scan token with
  | none => .error (.invalidArgument "stoll")
  | some (negative,value) =>
    if negative then (if value ≤ 2^63 then .ok (-value) else .error (.outOfRange "stoll"))
    else if value < 2^63 then .ok value else .error (.outOfRange "stoll")

/-- `CsvOrder`; `side` is `none` while unassigned, as `CsvOrder order;` leaves it. -/
structure CsvOrder where
  type : OrderType
  orderId : Nat := 0
  traderId : Nat := 0
  side : Option Side := none
  price : Int := 0
  qty : Int := 0
  deriving DecidableEq, Repr

def typeOf : List Char → Option OrderType
  | 'L' :: _ => some .newLimit
  | ['M'] => some .modify
  | 'M' :: _ => some .newMarket
  | 'C' :: _ => some .cancel
  | _ => none

def field (tokens : List (List Char)) (k : Nat) : Option (List Char) := tokens[k]?.filter fun token => !token.isEmpty

def convertField {α : Type} (convert : List Char → Except Failure α) (tokens : List (List Char)) (k : Nat)
    (default : α) : Except Failure α :=
  match field tokens k with
  | some token => convert token
  | none => .ok default

/-- The loop body on one line's tokens; `none` for a line it skips. -/
def parseTokens (tokens : List (List Char)) : Except Failure (Option CsvOrder) :=
  match tokens.head?.bind typeOf with
  | none => .ok none
  | some type => do
    let orderId ← convertField stoull tokens 1 0
    let traderId ← convertField (fun token => (stoul token).map (· % 2^32)) tokens 2 0
    let price ← convertField stoll tokens 4 0
    let qty ← convertField stoll tokens 5 0
    pure (some ⟨type,orderId,traderId,(field tokens 3).map fun token => if token.head? = some 'B' then .buy else .sell,
      price,qty⟩)

/-- The `while (std::getline(file, line))` loop over the lines after the header. -/
def parseLines : List (List Char) → Except Failure (List CsvOrder)
  | [] => .ok []
  | line :: lines =>
    if line.isEmpty || line.head? == some '#' then parseLines lines
    else do
      let parsed ← parseTokens (getlines ',' line)
      let rest ← parseLines lines
      pure (parsed.toList ++ rest)

/-- `parse_csv` on the content of the opened file; its first line is the header. -/
def parseCsv (content : List Char) : Except Failure (List CsvOrder) := parseLines (getlines '\n' content).tail

def decimal (n : Nat) : List Char := if n = 0 then ['0'] else (Nat.digits 10 n).reverse.map Nat.digitChar

def signedDecimal (n : Int) : List Char := if n < 0 then '-' :: decimal n.natAbs else decimal n.natAbs

def typeToken : OrderType → List Char
  | .newLimit => ['L']
  | .newMarket => ['M','K','T']
  | .cancel => ['C']
  | .modify => ['M']

def sideToken : Option Side → List Char
  | some .buy => ['B']
  | some .sell => ['S']
  | none => []

/-- A line of the format in the tool's header comment, `type,order_id,trader_id,side,price,qty`. -/
def CsvOrder.line (order : CsvOrder) : List Char :=
  typeToken order.type ++ ',' :: decimal order.orderId ++ ',' :: decimal order.traderId ++ ',' :: sideToken order.side ++
    ',' :: signedDecimal order.price ++ ',' :: signedDecimal order.qty

/-- The orders that format carries: ids within `uint64_t` and `uint32_t`, a side, and a price
and a quantity within `int64_t`. -/
structure CsvOrder.Valid (order : CsvOrder) : Prop where
  orderId : order.orderId < 2^64
  traderId : order.traderId < 2^32
  side : order.side.isSome
  price : -2^63 ≤ order.price ∧ order.price < 2^63
  qty : -2^63 ≤ order.qty ∧ order.qty < 2^63

section Lines

variable {delim : Char} {chunk : List Char}

theorem getlinesFrom_delim (fresh : delim ∉ chunk) (piece rest : List Char) :
    getlinesFrom delim piece (chunk ++ delim :: rest) = (piece ++ chunk) :: getlinesFrom delim [] rest := by
  induction chunk generalizing piece with
  | nil => simp [getlinesFrom]
  | cons c chunk ih =>
    have other : c ≠ delim := fun same => fresh (same ▸ List.mem_cons_self _ _)
    rw [List.cons_append,getlinesFrom,if_neg other,ih (fun member => fresh (List.mem_cons_of_mem _ member)),
      List.append_assoc,List.singleton_append]

theorem getlinesFrom_last (fresh : delim ∉ chunk) (piece : List Char) (nonempty : piece ++ chunk ≠ []) :
    getlinesFrom delim piece chunk = [piece ++ chunk] := by
  induction chunk generalizing piece with
  | nil => simpa [getlinesFrom] using nonempty
  | cons c chunk ih =>
    have other : c ≠ delim := fun same => fresh (same ▸ List.mem_cons_self _ _)
    rw [getlinesFrom,if_neg other,ih (fun member => fresh (List.mem_cons_of_mem _ member)) _ (by simp),
      List.append_assoc,List.singleton_append]

end Lines

theorem digitChar_digit : ∀ d, d < 10 → (Nat.digitChar d).isDigit = true ∧ (Nat.digitChar d).toNat - '0'.toNat = d := by
  decide

theorem leadingDigits_digits : ∀ (ds : List Nat), (∀ d ∈ ds, d < 10) → leadingDigits (ds.map Nat.digitChar) = ds
  | [], _ => rfl
  | d :: ds, small => by
    obtain ⟨digit,value⟩ := digitChar_digit d (small d (List.mem_cons_self _ _))
    rw [List.map_cons,leadingDigits,if_pos digit,value,
      leadingDigits_digits ds fun e member => small e (List.mem_cons_of_mem _ member)]

theorem decimalValue_reverse (ds : List Nat) : decimalValue ds.reverse = Nat.ofDigits 10 ds := by
  rw [decimalValue,List.foldl_reverse]
  induction ds with
  | nil => rfl
  | cons d ds ih => rw [List.foldr_cons,ih,Nat.ofDigits_cons,Nat.add_comm]

theorem decimal_spec (n : Nat) :
    ∃ c rest, decimal n = c :: rest ∧ c.isDigit = true ∧ leadingDigits (decimal n) ≠ [] ∧
      decimalValue (leadingDigits (decimal n)) = n := by
  by_cases zero : n = 0
  · subst zero
    exact ⟨'0',[],rfl,rfl,by decide,rfl⟩
  · have small : ∀ d ∈ (Nat.digits 10 n).reverse, d < 10 := fun d member =>
      Nat.digits_lt_base (by decide) (List.mem_reverse.mp member)
    have read : leadingDigits (decimal n) = (Nat.digits 10 n).reverse := by
      rw [decimal,if_neg zero,leadingDigits_digits _ small]
    obtain ⟨d,ds,split⟩ := List.exists_cons_of_ne_nil
      (List.reverse_ne_nil_iff.mpr (Nat.digits_ne_nil_iff_ne_zero.mpr zero))
    refine ⟨Nat.digitChar d,ds.map Nat.digitChar,by rw [decimal,if_neg zero,split,List.map_cons],
      (digitChar_digit d (small d (split ▸ List.mem_cons_self _ _))).1,by rw [read,split]; exact List.cons_ne_nil _ _,?_⟩
    rw [read,decimalValue_reverse,Nat.ofDigits_digits]

theorem isSpace_of_isDigit {c : Char} (digit : c.isDigit = true) : isSpace c = false := by
  simp only [isSpace,Bool.or_eq_false_iff,decide_eq_false_iff_not]
  refine ⟨⟨⟨⟨⟨?_,?_⟩,?_⟩,?_⟩,?_⟩,?_⟩ <;> rintro rfl <;> exact absurd digit (by decide)

theorem sign_of_isDigit {c : Char} (digit : c.isDigit = true) (rest : List Char) : sign (c :: rest) = (false,c :: rest) := by
  unfold sign
  split
  · rename_i same
    obtain ⟨rfl,-⟩ := List.cons_eq_cons.mp same
    exact absurd digit (by decide)
  · rename_i same
    obtain ⟨rfl,-⟩ := List.cons_eq_cons.mp same
    exact absurd digit (by decide)
  · rfl

theorem scan_decimal (negative : Bool) (n : Nat) :
    scan ((if negative then ['-'] else []) ++ decimal n) = some (negative,n) := by
  obtain ⟨c,rest,split,digit,nonempty,value⟩ := decimal_spec n
  rw [split] at nonempty value ⊢
  cases negative
  · rw [if_neg Bool.false_ne_true,List.nil_append,scan,
      List.dropWhile_cons_of_neg (by rw [isSpace_of_isDigit digit]; decide),sign_of_isDigit digit]
    simp only [List.isEmpty_iff,nonempty,if_false,value]
  · rw [if_pos rfl,List.singleton_append,scan,List.dropWhile_cons_of_neg (by decide)]
    simp only [sign,List.isEmpty_iff,nonempty,if_false,value]

theorem isDigit_of_mem_decimal {n : Nat} {c : Char} (member : c ∈ decimal n) : c.isDigit = true := by
  unfold decimal at member
  split at member
  · rw [List.mem_singleton.mp member]; rfl
  · obtain ⟨d,inDigits,rfl⟩ := List.mem_map.mp member
    exact (digitChar_digit d (Nat.digits_lt_base (by decide) (List.mem_reverse.mp inDigits))).1

theorem not_mem_decimal {n : Nat} {c : Char} (other : c.isDigit = false) : c ∉ decimal n := fun member => by
  rw [isDigit_of_mem_decimal member] at other
  cases other

theorem not_mem_signedDecimal {n : Int} {c : Char} (other : c.isDigit = false) (notMinus : c ≠ '-') :
    c ∉ signedDecimal n := by
  unfold signedDecimal
  split
  · exact List.not_mem_cons_of_ne_of_not_mem notMinus (not_mem_decimal other)
  · exact not_mem_decimal other

theorem signedDecimal_eq (n : Int) : signedDecimal n = (if decide (n < 0) then ['-'] else []) ++ decimal n.natAbs := by
  by_cases negative : n < 0 <;> simp [signedDecimal,negative]

theorem signedDecimal_ne_nil (n : Int) : signedDecimal n ≠ [] := by
  obtain ⟨c,rest,split,-⟩ := decimal_spec n.natAbs
  rw [signedDecimal_eq,split]
  exact List.append_ne_nil_of_right_ne_nil _ (List.cons_ne_nil _ _)

theorem toUnsigned_decimal (function : String) {n : Nat} (small : n < 2^64) : toUnsigned function (decimal n) = .ok n := by
  rw [toUnsigned,show scan (decimal n) = some (false,n) from scan_decimal false n]
  simp only [small,if_true,Bool.false_eq_true,if_false]

theorem stoll_signedDecimal {n : Int} (within : -2^63 ≤ n ∧ n < 2^63) : stoll (signedDecimal n) = .ok n := by
  rw [stoll,signedDecimal_eq,scan_decimal]
  by_cases negative : n < 0
  · rw [decide_eq_true negative]
    dsimp only
    rw [if_pos rfl,if_pos (by omega)]
    exact congrArg Except.ok (by omega)
  · rw [decide_eq_false negative]
    dsimp only
    rw [if_neg Bool.false_ne_true,if_pos (by omega)]
    exact congrArg Except.ok (by omega)

theorem decimal_ne_nil (n : Nat) : decimal n ≠ [] := by
  obtain ⟨c,rest,split,-⟩ := decimal_spec n
  rw [split]
  exact List.cons_ne_nil _ _

theorem typeOf_typeToken (type : OrderType) : typeOf (typeToken type) = some type := by
  cases type <;> rfl

theorem comma_not_mem_typeToken (type : OrderType) : ',' ∉ typeToken type := by
  cases type <;> decide

theorem comma_not_mem_sideToken (side : Option Side) : ',' ∉ sideToken side := by
  rcases side with _ | _ | _ <;> decide

theorem getlines_line (order : CsvOrder) :
    getlines ',' order.line = [typeToken order.type,decimal order.orderId,decimal order.traderId,sideToken order.side,
      signedDecimal order.price,signedDecimal order.qty] := by
  have comma : ','.isDigit = false := by decide
  simp only [getlines,CsvOrder.line,List.append_assoc,List.cons_append]
  rw [getlinesFrom_delim (comma_not_mem_typeToken _),getlinesFrom_delim (not_mem_decimal comma),
    getlinesFrom_delim (not_mem_decimal comma),getlinesFrom_delim (comma_not_mem_sideToken _),
    getlinesFrom_delim (not_mem_signedDecimal comma (by decide)),
    getlinesFrom_last (not_mem_signedDecimal comma (by decide)) _ (signedDecimal_ne_nil _)]
  simp only [List.nil_append]

theorem convertField_of_field {α : Type} {convert : List Char → Except Failure α} {tokens : List (List Char)} {k : Nat}
    {token : List Char} (found : tokens[k]? = some token) (nonempty : token ≠ []) (default : α) :
    convertField convert tokens k default = convert token := by
  have full : token.isEmpty = false := by
    cases token with
    | nil => exact absurd rfl nonempty
    | cons _ _ => rfl
  rw [convertField,field,found,Option.filter_some,full]
  rfl

theorem parseTokens_line {order : CsvOrder} (valid : order.Valid) : parseTokens (getlines ',' order.line) = .ok (some order) := by
  obtain ⟨type,orderId,traderId,side,price,qty⟩ := order
  obtain ⟨small,smallTrader,hasSide,priceRange,qtyRange⟩ := valid
  obtain ⟨s,rfl⟩ := Option.isSome_iff_exists.mp hasSide
  rw [getlines_line,parseTokens]
  simp only [List.head?_cons,Option.some_bind,typeOf_typeToken]
  rw [convertField_of_field rfl (decimal_ne_nil _),convertField_of_field rfl (decimal_ne_nil _),
    convertField_of_field rfl (signedDecimal_ne_nil _),convertField_of_field rfl (signedDecimal_ne_nil _),
    stoull,toUnsigned_decimal _ small,stoul,toUnsigned_decimal _ (smallTrader.trans (by decide)),
    stoll_signedDecimal priceRange,stoll_signedDecimal qtyRange]
  have keep : traderId % 2^32 = traderId := Nat.mod_eq_of_lt smallTrader
  cases s
  · exact congrArg (fun t => Except.ok (some (CsvOrder.mk type orderId t (some .buy) price qty))) keep
  · exact congrArg (fun t => Except.ok (some (CsvOrder.mk type orderId t (some .sell) price qty))) keep

theorem line_kept (order : CsvOrder) : (order.line.isEmpty || order.line.head? == some '#') = false := by
  obtain ⟨type,_,_,_,_,_⟩ := order
  cases type <;> rfl

theorem newline_not_mem_line (order : CsvOrder) : '\n' ∉ order.line := by
  have newline : '\n'.isDigit = false := by decide
  have typeFree : '\n' ∉ typeToken order.type := by cases order.type <;> decide
  have sideFree : '\n' ∉ sideToken order.side := by rcases order.side with _ | _ | _ <;> decide
  simp [CsvOrder.line,typeFree,sideFree,not_mem_decimal newline,not_mem_signedDecimal newline]

theorem parseLines_lines : ∀ (orders : List CsvOrder), (∀ order ∈ orders, order.Valid) →
    parseLines (orders.map CsvOrder.line) = .ok orders
  | [], _ => rfl
  | order :: orders, valid => by
    rw [List.map_cons,parseLines,line_kept,if_neg Bool.false_ne_true,parseTokens_line (valid order (List.mem_cons_self _ _)),
      parseLines_lines orders fun other member => valid other (List.mem_cons_of_mem _ member)]
    rfl

theorem getlines_file {header : List Char} (noBreak : '\n' ∉ header) (orders : List CsvOrder) :
    getlines '\n' (header ++ '\n' :: orders.flatMap fun order => order.line ++ ['\n']) =
      header :: orders.map CsvOrder.line := by
  rw [getlines,getlinesFrom_delim noBreak,List.nil_append]
  congr 1
  induction orders with
  | nil => rfl
  | cons order orders ih =>
    rw [List.flatMap_cons,List.append_assoc,List.singleton_append,getlinesFrom_delim (newline_not_mem_line order),
      List.nil_append,ih,List.map_cons]

/-- `parse_csv` reads back every file written in the format of the tool's header comment: a
header line, then one line `type,order_id,trader_id,side,price,qty` per order, each with a side
and with its fields within their C++ types. -/
theorem parseCsv_round_trip (header : List Char) (noBreak : '\n' ∉ header) (orders : List CsvOrder)
    (valid : ∀ order ∈ orders, order.Valid) :
    parseCsv (header ++ '\n' :: orders.flatMap fun order => order.line ++ ['\n']) = .ok orders := by
  rw [parseCsv,getlines_file noBreak,List.tail_cons,parseLines_lines orders valid]

theorem parseCsv_round_trip_sample :
    '\n' ∉ ['t','y','p','e'] ∧
    (∀ order ∈ ([⟨.newLimit,1,0,some .buy,10000,100⟩,⟨.modify,1,0,some .sell,-5,75⟩] : List CsvOrder), order.Valid) ∧
    parseCsv (['t','y','p','e'] ++ '\n' ::
      ([⟨.newLimit,1,0,some .buy,10000,100⟩,⟨.modify,1,0,some .sell,-5,75⟩] : List CsvOrder).flatMap
        fun order => order.line ++ ['\n']) =
      .ok [⟨.newLimit,1,0,some .buy,10000,100⟩,⟨.modify,1,0,some .sell,-5,75⟩] :=
  have noBreak : '\n' ∉ ['t','y','p','e'] := by decide
  have valid : ∀ order ∈ ([⟨.newLimit,1,0,some .buy,10000,100⟩,⟨.modify,1,0,some .sell,-5,75⟩] : List CsvOrder),
      order.Valid := by
    intro order member
    rcases List.mem_pair.mp member with rfl | rfl <;> exact ⟨by decide,by decide,rfl,by decide,by decide⟩
  ⟨noBreak,valid,parseCsv_round_trip _ noBreak _ valid⟩

end ReplayCsv

end ExchangeSim
