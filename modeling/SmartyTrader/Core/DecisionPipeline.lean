import SmartyTrader.Core.Sizing
import SmartyTrader.Core.Sleeves

set_option autoImplicit false

/-! # The decision pipeline

One cycle for one symbol: mark the position to the last close, enforce the exit levels and
the time stop without asking the decision engine, and otherwise size, gate and send what the
engine answered. The executor is any implementation of the executor protocol
(`Executor`); what comes from outside (candles, the answer of the decision engine, stored
rows, clock readings) is the input of the cycle. The last section reduces a cycle to what it
does to the executor: some reads, and then at most one order of a known shape.
-/

namespace SmartyTrader

open Lib

/-- What one order may draw from outside: the hexadecimal text of a random identifier, and the
clock. -/
structure Stamp where
  uuid : String
  now : Time

/-- `uuid4().hex[:12]`. -/
def Stamp.shortId (stamp : Stamp) : String := String.ofList (stamp.uuid.toList.take 12)

/-- The executor protocol over the executor's own state. Optional hooks an executor lacks are
their defaults here: no working order, nothing pending, a price factor of one. -/
structure Executor (σ : Type) where
  getPositions : σ → Except PyError (List Position) × σ
  getCash : σ → Except PyError ℚ × σ
  placeOrder : σ → OrderRequest → Stamp → Except PyError OrderResult × σ
  updatePrice : σ → Symbol → ℚ → σ
  pendingBuyValue : σ → ℚ
  workingOrderSides : σ → Symbol → List OrderSide
  entryHooks : σ → EntryHooks
  costs : σ → CostModel
  buyPriceFactor : σ → ℚ

/-! ## Candle timing -/

/-- A recognized bar length, in microseconds. -/
structure Timeframe where
  delta : ℤ
  delta_pos : 0 < delta

/-- The closed bars: all of them, or all but the last one while that is still forming. -/
def closedBars (candles : List OHLCV) (timeframe : Option Timeframe) (now : Time) : List OHLCV :=
  match timeframe, candles.getLast? with
  | some tf, some last =>
      match last.timestamp with
      | some t => if t + tf.delta > now then candles.dropLast else candles
      | none => candles
  | _, _ => candles

def barCloseTime (candle : OHLCV) (timeframe : Option Timeframe) : Option Time :=
  match timeframe, candle.timestamp with
  | some tf, some t => some (t + tf.delta)
  | _, _ => none

/-! ## Inputs, results and state -/

/-- Candles as fetched, with the time of the fetch. -/
structure MarketSnapshot where
  candles : List OHLCV
  fetchedAt : Time

/-- Everything a cycle reads from outside. -/
structure CycleInput where
  symbol : Symbol
  timeframe : Option Timeframe
  /-- `provider.fetch_snapshot`. -/
  snapshot : Except PyError MarketSnapshot
  /-- `compute_indicators`: it raises or it does not. -/
  indicators : Except PyError Unit
  /-- `storage.get_decision_strategies`. -/
  metaRead : MetaRead
  /-- `storage.get_strategy_realized_pnl` of the deciding sleeve. -/
  sleeveRealized : Except PyError ℚ
  /-- `storage.get_recent_decisions(limit=1)`: the time of the newest row. -/
  lastDecision : Except PyError (Option Time)
  /-- `context_reader.for_symbol`; `none` without a reader. -/
  context : Option (Except String SymbolContext)
  /-- The answer of the decision engine. -/
  signal : TradeSignal
  /-- The row id of the stored decision, `none` when it was not stored. -/
  decisionId : Option DecisionId
  /-- Clock readings of the two checks that read it, and of the outcome. -/
  dailyNow : Time
  cooldownNow : Time
  outcomeNow : Time
  stamp : Stamp

/-- The answer with the symbol of the cycle, whatever symbol the answer names. -/
def CycleInput.ownSignal (input : CycleInput) : TradeSignal :=
  { input.signal with symbol := input.symbol }

@[simp] theorem CycleInput.ownSignal_symbol (input : CycleInput) :
    input.ownSignal.symbol = input.symbol := rfl

@[simp] theorem CycleInput.ownSignal_action (input : CycleInput) :
    input.ownSignal.action = input.signal.action := rfl

inductive RunError where
  /-- `Fetch failed: {exc}` -/
  | fetchFailed (err : PyError)
  /-- `No market data (empty candle series)` -/
  | emptyCandles
  /-- `Sleeve ownership read failed: {exc}` -/
  | sleeveOwnership (err : PyError)
  /-- `Indicator computation failed: {exc}` -/
  | indicators (err : PyError)
  /-- `Portfolio read failed: {exc}` -/
  | portfolioRead (err : PyError)
  /-- `Refused order without price (no usable market data)` -/
  | refusedWithoutPrice
  /-- `Execution failed: {exc}` -/
  | executionFailed (err : PyError)
  /-- `Exit-level close failed: {exc}` -/
  | exitCloseFailed (err : PyError)
  deriving DecidableEq

inductive SkipReason where
  /-- `held by sleeve {owner} (symbol lock)` -/
  | symbolLock (owner : String)
  /-- `awaiting new {timeframe} bar (last decision {last} UTC)` -/
  | awaitingNewBar (last : Time)
  /-- `{side} order already working at the venue` -/
  | sideWorking (side : OrderSide)
  /-- `exit order already working at the venue` -/
  | exitWorking
  deriving DecidableEq

/-- Record of one cycle. -/
structure PipelineResult where
  symbol : Symbol
  signal : Option TradeSignal
  riskResult : Option RiskResult
  orderResult : Option OrderResult
  error : Option RunError
  decisionId : Option DecisionId
  autoExit : Bool
  exitReason : Option ExitReason
  skipReason : Option SkipReason
  strategy : Option String

/-- A result that carries nothing but its symbol. -/
def PipelineResult.bare (symbol : Symbol) : PipelineResult :=
  ⟨symbol, none, none, none, none, none, false, none, none, none⟩

/-- How one pipeline is set up. -/
structure Pipeline where
  strategy : Option String
  decideOnNewBarOnly : Bool
  hasStorage : Bool

/-- The objects a pipeline works on. `agentEngine` is the agent's engine; with sleeves the
engine of a sleeve's pipeline is the one the book keeps for it. -/
structure PipelineState (σ : Type) where
  executor : σ
  agentEngine : RiskEngine
  book : Option SleeveBook
  lastDecisionAt : Dict (Option String × Symbol) Time

namespace PipelineState

variable {σ : Type}

/-- The engine of a pipeline. -/
def riskEngine (st : PipelineState σ) (p : Pipeline) : RiskEngine :=
  match st.book, p.strategy with
  | some b, some s => (b.engines.get? s).getD st.agentEngine
  | _, _ => st.agentEngine

/-- Write the engine of a pipeline back to where it lives. -/
def setRiskEngine (st : PipelineState σ) (p : Pipeline) (e : RiskEngine) : PipelineState σ :=
  match st.book, p.strategy with
  | some b, some s =>
      if b.engines.contains s then { st with book := some { b with engines := b.engines.set s e } }
      else { st with agentEngine := e }
  | _, _ => { st with agentEngine := e }

/-- `_record_outcome`: feed a closing fill to the streak of the sleeve that owned it. -/
def recordOutcome (st : PipelineState σ) (p : Pipeline) (strategy : Option String)
    (wasProfitable : Bool) (now : Time) : PipelineState σ :=
  match st.book with
  | some b =>
      match b.engine strategy with
      | some e => { st with book := some { b with
          engines := b.engines.set (b.spec strategy).name (e.recordOutcome wasProfitable now) } }
      | none => st.setRiskEngine p ((st.riskEngine p).recordOutcome wasProfitable now)
  | none => st.setRiskEngine p ((st.riskEngine p).recordOutcome wasProfitable now)

/-- Record the outcome of an order that closed something. -/
def recordFill (st : PipelineState σ) (p : Pipeline) (strategy : Option String)
    (order : OrderResult) (now : Time) : PipelineState σ :=
  match order.status, order.realizedPnl with
  | .filled, some pnl => st.recordOutcome p strategy (pnl ≥ 0) now
  | _, _ => st

end PipelineState

namespace Pipeline

variable {σ : Type} (ex : Executor σ) (p : Pipeline)

/-! ## The steps of a cycle -/

/-- Re-mark the symbol at the last close. -/
def markPositions (symbol : Symbol) (close : ℚ) (st : PipelineState σ) : PipelineState σ :=
  if close ≤ 0 then st else { st with executor := ex.updatePrice st.executor symbol close }

def orderWorking (s : σ) (symbol : Symbol) (side : OrderSide) : Bool :=
  side ∈ ex.workingOrderSides s symbol

/-- `_sleeve_ownership`: nothing without sleeves, else the owner or the error. -/
def sleeveOwnership (input : CycleInput) (st : PipelineState σ) :
    Except PyError (Option Ownership) × PipelineState σ :=
  match st.book with
  | none => (.ok none, st)
  | some b =>
      match ex.getPositions st.executor with
      | (.error err, s) => (.error err, { st with executor := s })
      | (.ok positions, s) =>
          let r := b.ownership input.metaRead (ex.entryHooks s) positions input.symbol
          (r.1, { st with executor := s, book := some r.2 })

/-- The owning sleeve's name, when the ownership could be read. -/
def ownerName (o : Except PyError (Option Ownership)) : Option String :=
  match o with
  | .ok (some ownership) => some ownership.strategy
  | _ => none

/-- The order that closes `position` at `mark`. -/
def closeRequest (position : Position) (mark : ℚ) : OrderRequest where
  symbol := position.symbol
  side := closingSide position
  quantity := position.quantity
  price := some mark
  decisionId := none
  stopLoss := none
  takeProfit := none

/-- `_close_for_exit`: close `position` without engine or gate, unless a close is already
working at the venue. -/
def closeForExit (input : CycleInput) (position : Position) (mark : ℚ) (reason : ExitReason)
    (owner : Option String) (st : PipelineState σ) : PipelineResult × PipelineState σ :=
  let base := { PipelineResult.bare input.symbol with
    autoExit := true
    exitReason := some reason }
  if orderWorking ex st.executor input.symbol (closingSide position) then
    ({ base with skipReason := some .exitWorking }, st)
  else
    match ex.placeOrder st.executor
      { closeRequest position mark with symbol := input.symbol } input.stamp with
    | (.error err, s) => ({ base with error := some (.exitCloseFailed err) },
        { st with executor := s })
    | (.ok order, s) =>
        ({ base with orderResult := some order },
          PipelineState.recordFill { st with executor := s } p owner order input.outcomeNow)

/-- `_check_exit_levels`: close the first position of the symbol that breaches a level. -/
def checkExitLevels (input : CycleInput) (mark : ℚ) (owner : Option String)
    (st : PipelineState σ) : Option PipelineResult × PipelineState σ :=
  if (st.riskEngine p).settings.enforceExitLevels = false ∨ mark ≤ 0 then (none, st)
  else
    match ex.getPositions st.executor with
    | (.error _, s) => (none, { st with executor := s })
    | (.ok positions, s) =>
        let st := { st with executor := s }
        match positions.findSome? (fun q =>
          if q.symbol = input.symbol ∧ q.quantity > 0 then
            (exitLevelBreach q mark).map (fun r => (q, r))
          else none) with
        | none => (none, st)
        | some (position, reason) =>
            let r := p.closeForExit ex input position mark reason owner st
            (some { r.1 with strategy := owner }, r.2)

/-- `_check_time_stop`: close a position its owner has held past its limit. -/
def checkTimeStop (input : CycleInput) (mark : ℚ) (fetchedAt : Time) (ownership : Ownership)
    (st : PipelineState σ) : Option PipelineResult × PipelineState σ :=
  match st.book with
  | none => (none, st)
  | some b =>
      if b.timeStopDue ownership fetchedAt = false ∨ mark ≤ 0 then (none, st)
      else
        match ex.getPositions st.executor with
        | (.error _, s) => (none, { st with executor := s })
        | (.ok positions, s) =>
            let st := { st with executor := s }
            match positions.find? (fun q => q.symbol = input.symbol ∧ q.quantity > 0) with
            | none => (none, st)
            | some position =>
                let r := p.closeForExit ex input position mark .timeStop
                  (some ownership.strategy) st
                (some { r.1 with strategy := some ownership.strategy }, r.2)

/-- The time of the last decision on the symbol, from memory or else from storage. A time found
in storage is remembered. -/
def lastDecision (input : CycleInput) (st : PipelineState σ) :
    Option Time × PipelineState σ :=
  let key := (p.strategy, input.symbol)
  match st.lastDecisionAt.get? key with
  | some t => (some t, st)
  | none =>
      match p.hasStorage, input.lastDecision with
      | true, .ok (some t) =>
          (some t, { st with lastDecisionAt := st.lastDecisionAt.set key t })
      | _, _ => (none, st)

/-- `_awaiting_new_bar`: the last decision, when it already covers the latest closed bar. -/
def awaitingNewBar (input : CycleInput) (closed : List OHLCV) (st : PipelineState σ) :
    Option Time × PipelineState σ :=
  match closed.getLast?.bind (fun bar => barCloseTime bar input.timeframe) with
  | none => (none, st)
  | some closeTime =>
      let last := p.lastDecision input st
      (last.1.filter (fun t => t ≥ closeTime), last.2)

/-- `read_portfolio`: positions, then cash, then the committed cash of pending BUYs. -/
def readPortfolio (s : σ) : Except PyError PortfolioState × σ :=
  match ex.getPositions s with
  | (.error err, s) => (.error err, s)
  | (.ok positions, s) =>
      match ex.getCash s with
      | (.error err, s) => (.error err, s)
      | (.ok cash, s) => (.ok ⟨cash, positions, max (ex.pendingBuyValue s) 0⟩, s)

/-- `_sleeve_portfolio`: the sleeve's own book once books are per sleeve. -/
def sleevePortfolio (input : CycleInput) (portfolio : PortfolioState) (st : PipelineState σ) :
    Except PyError (PortfolioState × Bool) × PipelineState σ :=
  match st.book, p.strategy with
  | some b, some s =>
      match b.allocation with
      | none => (.ok (portfolio, false), st)
      | some allocation =>
          let r := b.sleeveEquity input.metaRead (ex.entryHooks st.executor) s portfolio allocation
            input.sleeveRealized
          (r.1.map (fun book => (book, true)), { st with book := some r.2 })
  | _, _ => (.ok (portfolio, false), st)

/-- The proposed quantity of a BUY or a SELL with a usable price. -/
def plannedQuantity (st : PipelineState σ) (signal : TradeSignal)
    (book : PortfolioState) (price : ℚ) (cashCap : Option ℚ) : Option ℚ :=
  if signal.action ≠ .hold ∧ price ≠ 0 then
    let costs := sizingCostModel (ex.costs st.executor) (ex.buyPriceFactor st.executor)
    some (calculateQuantity signal book (st.riskEngine p).settings (some price)
      costs.buyCostFactor (some costs) cashCap)
  else none

/-- The verdict on a signal: the gate, then the agent-wide backstop of sleeves, then the event
guard. -/
def gate (input : CycleInput) (signal : TradeSignal) (portfolio book : PortfolioState)
    (planned : Option ℚ) (price : ℚ) (st : PipelineState σ) : RiskResult × PipelineState σ :=
  let r := (st.riskEngine p).evaluate signal book (planned.map (· * price)) (some price)
    input.dailyNow input.cooldownNow
  let st := st.setRiskEngine p r.2
  let (verdict, st) :=
    if st.book.isSome ∧ signal.action = .buy ∧ r.1 = .approved then
      let limit := (st.book.map (fun b => b.settings.backstopMaxDrawdownPct)).getD 0
      let b := st.agentEngine.checkBackstop portfolio.totalValue limit
      (b.1, { st with agentEngine := b.2 })
    else (r.1, st)
  match input.context with
  | none => (verdict, st)
  | some c =>
      if signal.action = .buy ∧ verdict = .approved then
        ((st.riskEngine p).checkEventGuard signal c.toOption
          (match c with
            | .error text => some text
            | .ok _ => none), st)
      else (verdict, st)

/-- The order of an approved signal. -/
def signalRequest (input : CycleInput) (signal : TradeSignal) (quantity price : ℚ) :
    OrderRequest where
  symbol := input.symbol
  side := if signal.action = .buy then .buy else .sell
  quantity := quantity
  price := some price
  decisionId := input.decisionId
  stopLoss := signal.stopLoss
  takeProfit := signal.takeProfit

/-- Step 6: send an approved BUY or SELL. -/
def execute (input : CycleInput) (signal : TradeSignal) (planned : Option ℚ) (price : ℚ)
    (base : PipelineResult) (st : PipelineState σ) : PipelineResult × PipelineState σ :=
  match planned with
  | none => ({ base with error := some .refusedWithoutPrice }, st)
  | some quantity =>
      let req := signalRequest input signal quantity price
      if orderWorking ex st.executor input.symbol req.side then
        ({ base with skipReason := some (.sideWorking req.side) }, st)
      else
        match ex.placeOrder st.executor req input.stamp with
        | (.error err, s) => ({ base with error := some (.executionFailed err) },
            { st with executor := s })
        | (.ok order, s) =>
            ({ base with orderResult := some order },
              PipelineState.recordFill { st with executor := s } p p.strategy order
                input.outcomeNow)

/-- Remember when the symbol was last decided on. A fallback HOLD is not a decision: the next
cycle retries the bar. -/
def remember (input : CycleInput) (fetchedAt : Time) (st : PipelineState σ) : PipelineState σ :=
  if input.signal.isFallback then st
  else { st with lastDecisionAt := st.lastDecisionAt.set (p.strategy, input.symbol) fetchedAt }

/-- The result of a cycle that got a verdict. -/
def decided (input : CycleInput) (verdict : RiskResult) : PipelineResult :=
  { PipelineResult.bare input.symbol with
    signal := some input.ownSignal
    riskResult := some verdict
    decisionId := input.decisionId
    strategy := p.strategy }

/-- Steps 5 and 6 for the book that was read: size, gate, remember the decision, and execute. -/
def resolve (input : CycleInput) (portfolio book : PortfolioState) (cashCap : Option ℚ)
    (price : ℚ) (fetchedAt : Time) (st : PipelineState σ) : PipelineResult × PipelineState σ :=
  let signal := input.ownSignal
  let planned := p.plannedQuantity ex st signal book price cashCap
  let g := p.gate input signal portfolio book planned price st
  let st := p.remember input fetchedAt g.2
  if g.1 ≠ .approved ∨ signal.action = .hold then (p.decided input g.1, st)
  else p.execute ex input signal planned price (p.decided input g.1) st

/-- Step 3: read the book the signal is decided on. -/
def decide (input : CycleInput) (price : ℚ) (fetchedAt : Time) (st : PipelineState σ) :
    PipelineResult × PipelineState σ :=
  let bare := { PipelineResult.bare input.symbol with strategy := p.strategy }
  match readPortfolio ex st.executor with
  | (.error err, s) => ({ bare with error := some (.portfolioRead err) }, { st with executor := s })
  | (.ok portfolio, s) =>
      match p.sleevePortfolio ex input portfolio { st with executor := s } with
      | (.error err, st) => ({ bare with error := some (.portfolioRead err) }, st)
      | (.ok (book, own), st) =>
          p.resolve ex input portfolio book (if own then some portfolio.cash else none) price
            fetchedAt st

/-- Bar timing and indicators, then the decision. -/
def afterExits (input : CycleInput) (snapshot : MarketSnapshot) (mark : ℚ)
    (st : PipelineState σ) : PipelineResult × PipelineState σ :=
  let bare := { PipelineResult.bare input.symbol with strategy := p.strategy }
  let closed := closedBars snapshot.candles input.timeframe snapshot.fetchedAt
  let waiting := if p.decideOnNewBarOnly then p.awaitingNewBar input closed st else (none, st)
  match waiting.1 with
  | some t => ({ bare with skipReason := some (.awaitingNewBar t) }, waiting.2)
  | none =>
      match input.indicators with
      | .error err => ({ bare with error := some (.indicators err) }, waiting.2)
      | .ok _ => p.decide ex input mark snapshot.fetchedAt waiting.2

/-- `run`: one full cycle for one symbol. -/
def run (input : CycleInput) (st : PipelineState σ) : PipelineResult × PipelineState σ :=
  let bare := PipelineResult.bare input.symbol
  match input.snapshot with
  | .error err => ({ bare with error := some (.fetchFailed err) }, st)
  | .ok snapshot =>
      match snapshot.candles.getLast? with
      | none => ({ bare with error := some .emptyCandles }, st)
      | some last =>
          let mark := last.close
          let bare := { bare with strategy := p.strategy }
          let st := markPositions ex input.symbol mark st
          let o := sleeveOwnership ex input st
          match p.checkExitLevels ex input mark (ownerName o.1) o.2 with
          | (some r, st) => (r, st)
          | (none, st) =>
              match o.1 with
              | .error err => ({ bare with error := some (.sleeveOwnership err) }, st)
              | .ok none => p.afterExits ex input snapshot mark st
              | .ok (some o) =>
                  match p.checkTimeStop ex input mark snapshot.fetchedAt o st with
                  | (some r, st) => (r, st)
                  | (none, st) =>
                      if some o.strategy ≠ p.strategy then
                        ({ bare with skipReason := some (.symbolLock o.strategy) }, st)
                      else p.afterExits ex input snapshot mark st

/-- One position of `close_all_positions`. -/
def closeOne (owners : Dict Symbol String) (stamp : Stamp) (outcomeNow : Time)
    (position : Position) (st : PipelineState σ) :
    Except PyError (Option OrderResult) × PipelineState σ :=
  if position.quantity ≤ 0 ∨ position.currentPrice ≤ 0
      ∨ orderWorking ex st.executor position.symbol (closingSide position) then (.ok none, st)
  else
    match ex.placeOrder st.executor (closeRequest position position.currentPrice) stamp with
    | (.error err, s) => (.error err, { st with executor := s })
    | (.ok order, s) => (.ok (some order),
        PipelineState.recordFill { st with executor := s } p (owners.get? position.symbol) order
          outcomeNow)

/-- The loop of `close_all_positions`; an exception of the executor ends it. -/
def closeEach (owners : Dict Symbol String) (outcomeNow : Time) :
    List (Position × Stamp) → PipelineState σ →
      Except PyError (List (Symbol × OrderResult)) × PipelineState σ
  | [], st => (.ok [], st)
  | (position, stamp) :: rest, st =>
      match p.closeOne ex owners stamp outcomeNow position st with
      | (.error err, st) => (.error err, st)
      | (.ok order, st) =>
          match closeEach owners outcomeNow rest st with
          | (.error err, st) => (.error err, st)
          | (.ok closed, st) =>
              (.ok ((order.map (fun o => (position.symbol, o))).toList ++ closed), st)

/-- `close_all_positions`: close every open position at its mark. `stamps` are drawn one for
each position. -/
def closeAllPositions (read : MetaRead) (stamps : ℕ → Stamp) (outcomeNow : Time)
    (st : PipelineState σ) :
    Except PyError (List (Symbol × OrderResult)) × PipelineState σ :=
  match ex.getPositions st.executor with
  | (.error err, s) => (.error err, { st with executor := s })
  | (.ok positions, s) =>
      let st := { st with executor := s }
      let (owners, st) :=
        match st.book with
        | none => (Dict.empty, st)
        | some b =>
            match b.owners read (ex.entryHooks s) positions with
            | (.error _, b) => (Dict.empty, { st with book := some b })
            | (.ok owners, b) => (owners, { st with book := some b })
      p.closeEach ex owners outcomeNow
        (positions.mapIdx (fun i position => (position, stamps i))) st

end Pipeline

end SmartyTrader
