import SmartyTrader.Lib.IntText

set_option autoImplicit false

/-! # Shared data models

The records the trading agent passes around: the signal of the decision engine, the verdict
of the risk engine, positions and portfolios, orders and their results. Prices, quantities
and money are exact rationals. A time is a number of microseconds since the epoch in UTC, and
the texts of reasons are constructors that carry the values the text is formatted with.
-/

namespace SmartyTrader

abbrev Symbol := String
abbrev DecisionId := ℕ
abbrev OrderId := String

/-- Microseconds since the epoch, UTC. -/
abbrev Time := ℤ

/-- The UTC calendar day a time falls on, as a day number. -/
def utcDay (t : Time) : ℤ := t / 86400000000

/-- Python's `a or b` on optional numbers: `None` and zero are false, and the last operand is
the result whatever it is. -/
def pyOr (a b : Option ℚ) : Option ℚ :=
  match a with
  | none => b
  | some x => if x = 0 then b else some x

/-- `str.isspace` of one character. -/
def isSpace (c : Char) : Bool :=
  let n := c.toNat
  (0x09 ≤ n ∧ n ≤ 0x0D) ∨ (0x1C ≤ n ∧ n ≤ 0x20) ∨ (0x2000 ≤ n ∧ n ≤ 0x200A) ∨
    n ∈ [0x85, 0xA0, 0x1680, 0x2028, 0x2029, 0x202F, 0x205F, 0x3000]

/-- `s.strip()`. -/
def strip (s : String) : String := String.ofList (Lib.CharTable.trim isSpace s.toList)

/-- `s.lower()` of ASCII letters: symbols, currencies and the names of venues have no others. -/
def lower (s : String) : String := String.ofList (s.toList.map Char.toLower)

/-- `s.upper()` of ASCII letters, as for `lower`. -/
def upper (s : String) : String := String.ofList (s.toList.map Char.toUpper)

theorem toUpper_toUpper (c : Char) : c.toUpper.toUpper = c.toUpper := by
  have hkeep : ∀ d : Char, ¬ ('a'.val ≤ d.val ∧ d.val ≤ 'z'.val) → d.toUpper = d := by
    intro d h
    unfold Char.toUpper
    rw [dif_neg h]
  by_cases h : 'a'.val ≤ c.val ∧ c.val ≤ 'z'.val
  · apply hkeep
    unfold Char.toUpper
    rw [dif_pos h]
    -- The capital of a small letter is no small letter.
    have hsmall : 97 ≤ c.val.toNat ∧ c.val.toNat ≤ 122 := h
    show ¬ (97 ≤ (c.val + 4294967264).toNat ∧ (c.val + 4294967264).toNat ≤ 122)
    rw [UInt32.toNat_add]
    simp only [UInt32.reduceToNat]
    omega
  · rw [hkeep c h, hkeep c h]

theorem upper_upper (s : String) : upper (upper s) = upper s := by
  unfold upper
  rw [String.toList_ofList, List.map_map]
  congr 2
  exact funext toUpper_toUpper

/-- The exceptions that leave a modelled function. -/
inductive PyError where
  /-- `ZeroDivisionError`. -/
  | zeroDivision
  /-- An exception of a client or a database, with its text. -/
  | raised (text : String)
  deriving DecidableEq

/-- `str(exc)`. -/
def PyError.text : PyError → String
  | .zeroDivision => "float division by zero"
  | .raised text => text

/-! ## The signal of the decision engine -/

inductive Action where
  | buy
  | sell
  | hold
  deriving DecidableEq

/-- Structured output of the decision engine. The bounds on `confidence` are those of the
field (`ge=0.0, le=1.0`). -/
structure TradeSignal where
  symbol : Symbol
  action : Action
  confidence : ℚ
  reasoning : String
  stopLoss : Option ℚ
  takeProfit : Option ℚ
  isFallback : Bool
  confidence_nonneg : 0 ≤ confidence
  confidence_le_one : confidence ≤ 1

/-! ## Positions and the portfolio -/

inductive PositionSide where
  | long
  | short
  deriving DecidableEq

/-- One held position. `quantity` is the absolute size, the direction lives in `side`. -/
structure Position where
  symbol : Symbol
  quantity : ℚ
  avgEntryPrice : ℚ
  currentPrice : ℚ
  side : PositionSide
  stopLoss : Option ℚ
  takeProfit : Option ℚ
  deriving DecidableEq

/-- `-1.0 if side == SHORT else 1.0`. -/
def PositionSide.direction : PositionSide → ℚ
  | .long => 1
  | .short => -1

/-- Unrealized profit; a short gains when the price falls below its entry. -/
def Position.pnl (p : Position) : ℚ :=
  (p.currentPrice - p.avgEntryPrice) * p.quantity * p.side.direction

/-- Market value, a liability for a short. -/
def Position.marketValue (p : Position) : ℚ :=
  p.quantity * p.currentPrice * p.side.direction

/-- The book as the risk engine sees it. `pendingValue` is cash committed to BUY orders that
the ledger has not booked yet: it counts in `totalValue` and is never spendable. -/
structure PortfolioState where
  cash : ℚ
  positions : List Position
  pendingValue : ℚ

/-- Sum of `quantity * current_price`, shorts as a liability. -/
def PortfolioState.positionValue (p : PortfolioState) : ℚ :=
  (p.positions.map Position.marketValue).sum

def PortfolioState.totalValue (p : PortfolioState) : ℚ :=
  p.cash + p.pendingValue + p.positionValue

def PortfolioState.unrealizedPnl (p : PortfolioState) : ℚ := (p.positions.map Position.pnl).sum

/-! ## Candles -/

/-- A single candle. A candle without a time cannot be placed on the clock. -/
structure OHLCV where
  timestamp : Option Time
  openPrice : ℚ
  high : ℚ
  low : ℚ
  close : ℚ
  volume : ℚ

/-! ## Market context -/

inductive EventKind where
  | macroEvent
  | earnings
  | delisting
  deriving DecidableEq

inductive EventImportance where
  | low
  | medium
  | high
  deriving DecidableEq

def EventImportance.rank : EventImportance → ℕ
  | .low => 0
  | .medium => 1
  | .high => 2

/-- A dated external event. `asset` is `none` for a market-wide one. -/
structure MarketEvent where
  source : String
  kind : EventKind
  time : Time
  title : String
  asset : Option String
  currency : Option String
  importance : EventImportance
  deriving DecidableEq

/-- What the risk engine reads of the context of one symbol at decision time. -/
structure SymbolContext where
  now : Time
  events : List MarketEvent
  notices : List MarketEvent

/-! ## Orders -/

inductive OrderSide where
  | buy
  | sell
  deriving DecidableEq

inductive OrderStatus where
  | filled
  | pending
  | cancelled
  | rejected
  deriving DecidableEq

/-- Why an order was not executed, or was executed in an unusual way. Each constructor is one
text of the source with the values it is formatted with. -/
inductive OrderReason where
  /-- `Cannot fill market {side} without price for {symbol}` -/
  | noPriceForMarket (side : OrderSide) (symbol : Symbol)
  /-- `Insufficient cash: need {total:.2f}, have {cash:.2f}` -/
  | insufficientCash (need available : ℚ)
  /-- `Insufficient position: need {quantity}, have {available}` -/
  | insufficientPosition (need available : ℚ)
  /-- `no {symbol} position tracked for this agent; sell not sent` -/
  | noPositionTracked (symbol : Symbol)
  /-- `quantity {quantity} below the venue minimum for {symbol}` -/
  | belowVenueMinimum (quantity : ℚ) (symbol : Symbol)
  /-- `partially filled; remainder cancelled at the venue` -/
  | partiallyFilled
  /-- `unfilled after order_ttl_seconds; cancelled at the venue` -/
  | unfilledAfterTtl
  /-- `venue stop-loss` -/
  | venueStopLoss
  /-- `venue take-profit` -/
  | venueTakeProfit
  /-- `venue protective order` -/
  | venueProtectiveOrder
  /-- `nothing tracked to sell (long-only: a SELL never opens a short)` -/
  | nothingTrackedToSell
  /-- `amount {quantity:g} rounds to zero at {decimals} decimals` -/
  | roundsToZero (quantity : ℚ) (decimals : ℕ)
  /-- `{instrument} trades in {currency} but the account is {account} …` -/
  | currencyMismatch (instrument currency account : String)
  /-- `partially filled; remainder cancelled at Saxo` -/
  | partiallyFilledSaxo
  /-- The `SubStatus` (or the status) of a dead Saxo order, as reported. -/
  | saxoStatus (text : String)
  deriving DecidableEq

/-- One entry decision's share of a closing sell's realized PnL. -/
structure ClosedEntry where
  entryDecisionId : Option DecisionId
  pnl : ℚ
  deriving DecidableEq

structure OrderResult where
  orderId : OrderId
  symbol : Symbol
  side : OrderSide
  quantity : ℚ
  price : Option ℚ
  status : OrderStatus
  filledAt : Option Time
  reason : Option OrderReason
  realizedPnl : Option ℚ
  closedEntries : List ClosedEntry
  feeBase : Option ℚ
  feeQuote : Option ℚ
  deriving DecidableEq

/-- The arguments of `place_order`. -/
structure OrderRequest where
  symbol : Symbol
  side : OrderSide
  quantity : ℚ
  price : Option ℚ
  decisionId : Option DecisionId
  stopLoss : Option ℚ
  takeProfit : Option ℚ
  deriving DecidableEq

/-- A result with the fields every branch sets, and the defaults for the others. -/
def OrderResult.basic (orderId : OrderId) (symbol : Symbol) (side : OrderSide) (quantity : ℚ)
    (price : Option ℚ) (status : OrderStatus) (reason : Option OrderReason) : OrderResult where
  orderId := orderId
  symbol := symbol
  side := side
  quantity := quantity
  price := price
  status := status
  filledAt := none
  reason := reason
  realizedPnl := none
  closedEntries := []
  feeBase := none
  feeQuote := none

end SmartyTrader
