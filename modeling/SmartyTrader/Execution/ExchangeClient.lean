import SmartyTrader.Core.Models
import SmartyTrader.Lib.Dict

set_option autoImplicit false

/-! # The exchange client of a venue executor

The part of a CCXT client the executor calls, over an arbitrary type `W` of worlds: a call
answers, or raises, and moves the world on. What the venue does between two calls is a step
of the world as well, so a client over some `W` is any venue behaviour at all. Payloads carry
the fields of the unified order structure that the executor reads.
-/

namespace SmartyTrader

open Lib

/-! ## Python's truth of optional values -/

/-- `x or default` on an optional number. -/
def orNumber (x : Option ℚ) (default : ℚ) : ℚ :=
  match x with
  | none => default
  | some q => if q = 0 then default else q

/-- `x or default` on an optional text. -/
def orText (x : Option String) (default : String) : String :=
  match x with
  | none => default
  | some s => if s = "" then default else s

/-! ## Order payloads -/

structure RawFee where
  cost : Option ℚ
  currency : Option String
  deriving DecidableEq

/-- The unified order structure. `infoId` is the id of the raw venue answer, and the times are
milliseconds since the epoch. A payload without a field carries `none`. -/
structure RawOrder where
  id : Option OrderId
  infoId : Option OrderId
  status : Option String
  filled : Option ℚ
  amount : Option ℚ
  average : Option ℚ
  price : Option ℚ
  fees : List RawFee
  fee : Option RawFee
  lastTradeTimestamp : Option ℤ
  lastUpdateTimestamp : Option ℤ
  updated : Option ℤ
  closedAt : Option ℤ
  timestamp : Option ℤ
  deriving DecidableEq

namespace RawOrder

/-- The payload without any field. -/
def empty : RawOrder :=
  ⟨none, none, none, none, none, none, none, [], none, none, none, none, none, none⟩

/-- `str(raw.get("id") or raw.get("info", {}).get("id") or "")`. -/
def orderId (raw : RawOrder) : OrderId := orText raw.id (orText raw.infoId "")

/-- `raw.get("average") or raw.get("price")`. -/
def fillPrice (raw : RawOrder) : Option ℚ := pyOr raw.average raw.price

/-- The reported fees: the list, or else the single one. -/
def feeEntries (raw : RawOrder) : List RawFee :=
  if raw.fees = [] then raw.fee.toList else raw.fees

end RawOrder

/-- Base half of a `BASE/QUOTE` pair; the whole text otherwise. -/
def baseCurrency (symbol : Symbol) : String :=
  upper (strip (String.ofList (symbol.toList.takeWhile (· ≠ '/'))))

/-- Quote half of a pair, empty without one. -/
def quoteCurrency (symbol : Symbol) : String :=
  upper (String.ofList
    (((symbol.toList.dropWhile (· ≠ '/')).drop 1).takeWhile (· ≠ '/')))

/-- `_fee_components`: the fees in base and in quote currency. Fees in a third currency and
entries without a positive cost are skipped. -/
def feeComponents (raw : RawOrder) (symbol : Symbol) : ℚ × ℚ :=
  let base := baseCurrency symbol
  let quote := quoteCurrency symbol
  raw.feeEntries.foldl (fun acc entry =>
    let cost := orNumber entry.cost 0
    let currency := upper (orText entry.currency "")
    if cost ≤ 0 then acc
    else if base ≠ "" ∧ currency = base then (acc.1 + cost, acc.2)
    else if quote ≠ "" ∧ currency = quote then (acc.1, acc.2 + cost)
    else acc) (0, 0)

/-- `_reported_fees`: a fee of zero is not reported. -/
def reportedFees (raw : RawOrder) (symbol : Symbol) : Option ℚ × Option ℚ :=
  let fees := feeComponents raw symbol
  (if fees.1 = 0 then none else some fees.1, if fees.2 = 0 then none else some fees.2)

/-- `_STATUS_MAP`, with an unknown text pending. -/
def statusOf (text : String) : OrderStatus :=
  if text = "closed" then .filled
  else if text = "canceled" ∨ text = "cancelled" ∨ text = "expired" then .cancelled
  else if text = "rejected" then .rejected
  else .pending

/-- `_resolve_status`: the stable status, quantity and reason. A cancelled or rejected order
that traded is a fill of what traded; a missing status is an acknowledgement. -/
def resolveStatus (raw : RawOrder) (requested : ℚ) : OrderStatus × ℚ × Option OrderReason :=
  let status := (raw.status.map statusOf).getD .pending
  let filled := orNumber raw.filled 0
  if status = .filled then
    (status, if filled = 0 then orNumber raw.amount requested else filled, none)
  else if (status = .cancelled ∨ status = .rejected) ∧ filled > 0 then
    (.filled, filled, some .partiallyFilled)
  else (status, orNumber raw.amount requested, none)

/-- The first positive time of a payload, in milliseconds. -/
def RawOrder.stamp (raw : RawOrder) : Option ℤ :=
  let keys := [raw.lastTradeTimestamp, raw.lastUpdateTimestamp, raw.updated, raw.closedAt,
    raw.timestamp]
  keys.findSome? (fun t => t.filter (· > 0))

/-- `_fill_time`: the first positive time of the payload, else now. -/
def fillTime (raw : RawOrder) (now : Time) : Time :=
  match raw.stamp with
  | some ms => ms * 1000
  | none => now

/-- The time of the payload can be converted: it is before the year 10000. -/
def RawOrder.Dated (raw : RawOrder) : Prop := ∀ ms ∈ raw.stamp, ms < 253402300800000

instance (raw : RawOrder) : Decidable raw.Dated :=
  inferInstanceAs (Decidable (∀ ms ∈ raw.stamp, ms < 253402300800000))

/-- `_fill_time` with its error: `datetime.fromtimestamp` raises past the year 9999. Of the text of
the error only the year is left out. -/
def datedFillTime (raw : RawOrder) (now : Time) : Except PyError Time :=
  if raw.Dated then .ok (fillTime raw now) else .error (.raised "year is out of range")

/-! ## Balances and markets -/

/-- One currency of a free balance: a number, or a record of amounts. -/
inductive BalanceEntry where
  | amount (value : ℚ)
  | nested (free total : Option ℚ)

/-- A free balance: a number, or entries by currency code. -/
inductive FreeBalance where
  | amount (value : ℚ)
  | entries (byCurrency : Dict String BalanceEntry)

/-- `float(entry)`, or the free (else the total) amount of a record. -/
def BalanceEntry.value : BalanceEntry → ℚ
  | .amount q => q
  | .nested (some free) _ => free
  | .nested none total => total.getD 0

/-- `_extract_quote_balance`. Currency codes are also compared without case. -/
def extractQuoteBalance (balance : Option FreeBalance) (quote : String) : ℚ :=
  match balance with
  | none => 0
  | some (.amount q) => q
  | some (.entries d) =>
      match d.get? quote with
      | some entry => entry.value
      | none =>
          match d.entries.find? (fun e => upper e.1 = upper quote) with
          | some e => e.2.value
          | none => 0

/-- The markets of the venue, with the minimum order amount of each. -/
abbrev Markets := Dict Symbol (Option ℚ)

inductive OrderType where
  | market
  | limit
  deriving DecidableEq

/-! ## Protective order payloads -/

inductive AlgoKind where
  | oco
  | conditional
  deriving DecidableEq

/-- A venue-side trigger order as listed or fetched. -/
structure RawAlgo where
  id : Option OrderId
  algoClOrdId : Option String
  clientOrderId : Option String
  state : Option String
  ordId : Option OrderId
  ordIdList : List OrderId
  actualSide : Option String
  deriving DecidableEq

/-- The payload without any field. -/
def RawAlgo.empty : RawAlgo := ⟨none, none, none, none, none, [], none⟩

/-! ## The client -/

/-- The calls of the executor. `fetchOrder`, `loadMarkets` and the precision helpers are
optional in the source; precision is a function of the loaded market data. A client without
`fetchOrder` raises in `fetchAlgo`, which is the same method. -/
structure ExchangeClient (W : Type) where
  createOrder : Symbol → OrderType → OrderSide → ℚ → Option ℚ → W →
    Except PyError (Option RawOrder) × W
  fetchOrder : Option (OrderId → Symbol → W → Except PyError (Option RawOrder) × W)
  cancelOrder : OrderId → Symbol → W → Except PyError Unit × W
  /-- Totals by currency code. -/
  fetchBalance : W → Except PyError (Option (Dict String (Option ℚ))) × W
  fetchFreeBalance : W → Except PyError (Option FreeBalance) × W
  /-- The `markets` attribute. -/
  markets : W → Option Markets
  loadMarkets : Option (W → Except PyError (Option Markets) × W)
  amountToPrecision : Option (Symbol → ℚ → Except PyError ℚ)
  priceToPrecision : Option (Symbol → ℚ → Except PyError ℚ)
  /-- Protective orders: `create_order`, `fetch_order`, `cancel_order` and the order lists
  with the parameters of trigger orders. The client order id starts with the text given. -/
  createAlgo : Symbol → AlgoKind → ℚ → Option ℚ → Option ℚ → String → W →
    Except PyError (Option OrderId) × W
  fetchAlgo : OrderId → Symbol → W → Except PyError (Option RawAlgo) × W
  cancelAlgo : OrderId → Symbol → W → Except PyError Unit × W
  fetchOpenAlgos : Symbol → AlgoKind → W → Except PyError (List RawAlgo) × W
  fetchClosedAlgos : Symbol → ℕ → AlgoKind → W → Except PyError (List RawAlgo) × W

end SmartyTrader
