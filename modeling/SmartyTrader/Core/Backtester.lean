import SmartyTrader.Core.Context
import SmartyTrader.Core.DecisionPipeline
import SmartyTrader.Execution.PaperExecutor
import SmartyTrader.Lib.StableSort

set_option autoImplicit false

/-! # The decision-replay backtester

Stored decisions are run against the candles that followed, through the risk engine and the paper
executor of the live agent. Candles and decisions are merged into one timeline in which a bar
stands at its close, before the decisions of that time. The replay is one step for each event of
the timeline; the clock of the engine reads the time of the event.

The report computes its figures from the state at the end and is left out.
-/

namespace SmartyTrader

open Lib

/-! ## Inputs and state -/

/-- One stored decision to replay. -/
structure ReplayDecision where
  timestamp : Time
  symbol : Symbol
  action : Action
  confidence : ℚ
  stopLoss : Option ℚ
  takeProfit : Option ℚ
  confidence_nonneg : 0 ≤ confidence
  confidence_le_one : confidence ≤ 1

/-- What a backtester is built with. Without `events` there is no event guard. -/
structure ReplayConfig where
  riskSettings : RiskSettings
  initialCash : ℚ
  costs : CostModel
  events : Option (List MarketEvent)
  eventGuardSince : Option Time

/-- The candles of each symbol, in the order the symbols were given. -/
abbrev CandleSet := Dict Symbol (List OHLCV)

inductive ReplayEvent where
  | candle (symbol : Symbol) (bar : OHLCV)
  | decision (d : ReplayDecision)

/-- An event of the timeline. -/
structure TimelineEvent where
  time : Time
  event : ReplayEvent

structure SymbolStats where
  trades : ℕ
  wins : ℕ
  losses : ℕ
  realizedPnl : ℚ
  deriving DecidableEq

/-- An order that was sent to the executor. -/
structure PlacedOrder where
  time : Time
  symbol : Symbol
  side : OrderSide
  quantity : ℚ
  /-- The price of the order, before slippage. -/
  price : ℚ
  deriving DecidableEq

/-- The state of the replay: the fields of the backtester, the equity curve, and the orders sent
so far. -/
structure ReplayState where
  engine : RiskEngine
  executor : PaperExecutor
  winAmounts : List ℚ
  lossAmounts : List ℚ
  autoExits : ℕ
  riskRejected : ℕ
  holds : ℕ
  eventBlocked : ℕ
  perSymbol : Dict Symbol SymbolStats
  /-- The latest close of each symbol, for the symbols that are not held. -/
  lastClose : Dict Symbol ℚ
  equityCurve : List (Time × ℚ)
  placed : List PlacedOrder

namespace ReplayState

/-- Wins and losses are counted with their amounts. -/
def wins (s : ReplayState) : ℕ := s.winAmounts.length
def losses (s : ReplayState) : ℕ := s.lossAmounts.length

/-- `_portfolio_state`. -/
def portfolio (s : ReplayState) : PortfolioState := ⟨s.executor.cash, s.executor.getPositions, 0⟩

/-- `_mark_price`: an open position's price, else the last candle. -/
def markPrice (s : ReplayState) (symbol : Symbol) : Option ℚ :=
  match s.executor.getPositions.find? (fun p => p.symbol = symbol) with
  | some position =>
      if position.currentPrice > 0 then some position.currentPrice else s.lastClose.get? symbol
  | none => s.lastClose.get? symbol

/-- `_record_closed_trade`. -/
def recordClosedTrade (s : ReplayState) (symbol : Symbol) (pnl : ℚ) : ReplayState :=
  let stats := (s.perSymbol.get? symbol).getD ⟨0, 0, 0, 0⟩
  let stats := { stats with
    trades := stats.trades + 1
    realizedPnl := stats.realizedPnl + pnl }
  if pnl ≥ 0 then
    { s with
      perSymbol := s.perSymbol.set symbol { stats with wins := stats.wins + 1 }
      winAmounts := s.winAmounts ++ [pnl] }
  else
    { s with
      perSymbol := s.perSymbol.set symbol { stats with losses := stats.losses + 1 }
      lossAmounts := s.lossAmounts ++ [pnl] }

end ReplayState

/-! ## The timeline -/

/-- Where a candle stands: at its close, or at its open when the bar length is unknown. -/
def closedAt (timeframe : Option Timeframe) (opened : Time) : Time :=
  match timeframe with
  | some tf => opened + tf.delta
  | none => opened

namespace TimelineEvent

/-- The event of a candle, when it has a time and a price. -/
def ofCandle (timeframe : Option Timeframe) (symbol : Symbol) (bar : OHLCV) :
    Option TimelineEvent :=
  match bar.timestamp with
  | none => none
  | some opened =>
      if bar.close ≤ 0 then none else some ⟨closedAt timeframe opened, .candle symbol bar⟩

def ofDecision (d : ReplayDecision) : TimelineEvent := ⟨d.timestamp, .decision d⟩

/-- A bar that closes exactly at a decision is known to it. -/
def rank (e : TimelineEvent) : ℕ :=
  match e.event with
  | .candle _ _ => 0
  | .decision _ => 1

/-- What the timeline is sorted by. -/
def key (e : TimelineEvent) : Time ×ₗ ℕ := toLex (e.time, e.rank)

end TimelineEvent

/-- The candle events, symbol by symbol. -/
def candleEvents (timeframe : Option Timeframe) (candles : CandleSet) : List TimelineEvent :=
  candles.entries.flatMap fun entry =>
    entry.2.filterMap (TimelineEvent.ofCandle timeframe entry.1)

/-- `_build_timeline`. -/
def buildTimeline (decisions : List ReplayDecision) (candles : CandleSet)
    (timeframe : Option Timeframe) : List TimelineEvent :=
  sortBy TimelineEvent.key
    (candleEvents timeframe candles ++ decisions.map TimelineEvent.ofDecision)

/-! ## Events -/

namespace ReplayConfig

/-- `_event_context`: the calendar a live BUY at this moment would have seen. -/
def eventContext (cfg : ReplayConfig) (d : ReplayDecision) : Option SymbolContext :=
  match cfg.events with
  | none => none
  | some stored =>
      if d.action ≠ .buy ∨ (∃ since ∈ cfg.eventGuardSince, d.timestamp < since) then none
      else
        let asset := baseAsset d.symbol
        let stored := sortBy MarketEvent.time stored
        let events := stored.filter fun e =>
          d.timestamp - eventLookback ≤ e.time ∧ e.time ≤ d.timestamp + eventLookback
            ∧ (e.kind = .macroEvent ∨ (e.kind = .earnings ∧ e.asset = some asset))
        let notices := stored.filter fun e =>
          e.kind = .delisting ∧ e.asset = some asset ∧ e.time ≤ d.timestamp + days 1
        some ⟨d.timestamp, events, notices⟩

end ReplayConfig

/-- The signal of a replayed decision. -/
def ReplayDecision.signal (d : ReplayDecision) : TradeSignal where
  symbol := d.symbol
  action := d.action
  confidence := d.confidence
  reasoning := "replay"
  stopLoss := d.stopLoss
  takeProfit := d.takeProfit
  isFallback := false
  confidence_nonneg := d.confidence_nonneg
  confidence_le_one := d.confidence_le_one

/-- The event guard of a replayed decision: there is none without a context. -/
def ReplayConfig.guard (cfg : ReplayConfig) (engine : RiskEngine) (d : ReplayDecision) :
    RiskResult :=
  match cfg.eventContext d with
  | none => .approved
  | some context => engine.checkEventGuard d.signal (some context) none

/-- The text of an exit reason. -/
def ExitReason.text : ExitReason → String
  | .stopLoss => "stop_loss"
  | .takeProfit => "take_profit"
  | .timeStop => "time_stop"
  | .closeAll => "close_all"

theorem exitConfidence_nonneg : (0 : ℚ) ≤ 0 := le_rfl

theorem exitConfidence_le_one : (0 : ℚ) ≤ 1 := zero_le_one

/-- The signal of an exit level. -/
def exitSignal (symbol : Symbol) (reason : ExitReason) : TradeSignal where
  symbol := symbol
  action := .sell
  confidence := 0
  reasoning := "replay exit level: " ++ reason.text
  stopLoss := none
  takeProfit := none
  isFallback := false
  confidence_nonneg := exitConfidence_nonneg
  confidence_le_one := exitConfidence_le_one

namespace ReplayState

variable (cfg : ReplayConfig) (draws : ℕ → Stamp) (time : Time)

/-- `_fill`. The `n`-th order draws its id and its fill time from `draws n`; an exception of the
executor ends the replay. -/
def fill (signal : TradeSignal) (side : OrderSide) (quantity price : ℚ) (s : ReplayState) :
    Except PyError ReplayState :=
  let req : OrderRequest :=
    { symbol := signal.symbol
      side := side
      quantity := quantity
      price := some price
      decisionId := none
      stopLoss := signal.stopLoss
      takeProfit := signal.takeProfit }
  let stamp := draws s.placed.length
  match s.executor.placeOrder req ("paper-" ++ stamp.shortId) stamp.now with
  | (.error err, _) => .error err
  | (.ok order, executor) =>
      let s := { s with
        executor := executor
        placed := s.placed ++ [⟨time, signal.symbol, side, quantity, price⟩] }
      match order.status, order.realizedPnl with
      | .filled, some pnl =>
          let s := s.recordClosedTrade signal.symbol pnl
          .ok { s with engine := s.engine.recordOutcome (pnl ≥ 0) time }
      | _, _ => .ok s

/-- The marks a candle sets. -/
def marked (symbol : Symbol) (close : ℚ) (s : ReplayState) : ReplayState :=
  { s with
    lastClose := s.lastClose.set symbol close
    executor := s.executor.updatePrice symbol close }

/-- `_on_candle`: mark the symbol at the close of the bar, and enforce its exit levels. -/
def onCandle (symbol : Symbol) (bar : OHLCV) (s : ReplayState) : Except PyError ReplayState :=
  if bar.close ≤ 0 then .ok s
  else
    let s := s.marked symbol bar.close
    if cfg.riskSettings.enforceExitLevels = false then .ok s
    else
      match s.executor.getPositions.find? (fun p => p.symbol = symbol ∧ p.quantity > 0) with
      | none => .ok s
      | some position =>
          match exitLevelBreach position bar.close with
          | none => .ok s
          | some reason =>
              fill draws time (exitSignal symbol reason) .sell position.quantity bar.close
                { s with autoExits := s.autoExits + 1 }

/-- The size of a replayed decision at a price. -/
def plannedSize (d : ReplayDecision) (price : ℚ) (s : ReplayState) : ℚ :=
  calculateQuantity d.signal s.portfolio cfg.riskSettings (some price)
    s.executor.costs.buyCostFactor (some s.executor.costs) none

/-- The gate of a replayed decision. -/
def gate (d : ReplayDecision) (price : ℚ) (s : ReplayState) : RiskResult × RiskEngine :=
  s.engine.evaluate d.signal s.portfolio (some (s.plannedSize cfg d price * price)) (some price)
    time time

/-- `_on_decision`. -/
def onDecision (d : ReplayDecision) (s : ReplayState) : Except PyError ReplayState :=
  if d.action = .hold then .ok { s with holds := s.holds + 1 }
  else
    match s.markPrice d.symbol with
    | none => .ok { s with riskRejected := s.riskRejected + 1 }
    | some price =>
        if price ≤ 0 then .ok { s with riskRejected := s.riskRejected + 1 }
        else
          let quantity := s.plannedSize cfg d price
          let risk := s.gate cfg time d price
          let s := { s with engine := risk.2 }
          if risk.1 ≠ .approved then .ok { s with riskRejected := s.riskRejected + 1 }
          else
            if cfg.guard s.engine d ≠ .approved then
              .ok { s with
                riskRejected := s.riskRejected + 1
                eventBlocked := s.eventBlocked + 1 }
            else
              fill draws time d.signal (if d.action = .buy then .buy else .sell) quantity price s

/-- Feed the equity after an event to the daily tracker and the curve. -/
def recordEquity (s : ReplayState) : ReplayState :=
  let value := s.portfolio.totalValue
  { s with
    engine := s.engine.updateDailyValue value time
    equityCurve := s.equityCurve ++ [(time, value)] }

end ReplayState

namespace ReplayConfig

variable (cfg : ReplayConfig) (draws : ℕ → Stamp)

/-- One event of the timeline. -/
def step (s : ReplayState) (e : TimelineEvent) : Except PyError ReplayState :=
  (match e.event with
    | .candle symbol bar => s.onCandle cfg draws e.time symbol bar
    | .decision d => s.onDecision cfg draws e.time d).map (ReplayState.recordEquity e.time)

/-- The state before the first event; the curve starts at the time of the first event. -/
def start (timeline : List TimelineEvent) : ReplayState where
  engine := RiskEngine.create cfg.riskSettings
  executor := PaperExecutor.create cfg.initialCash cfg.costs
  winAmounts := []
  lossAmounts := []
  autoExits := 0
  riskRejected := 0
  holds := 0
  eventBlocked := 0
  perSymbol := Dict.empty
  lastClose := Dict.empty
  equityCurve := timeline.head?.toList.map fun e => (e.time, cfg.initialCash)
  placed := []

/-- The events of a list, one after the other. -/
def process (events : List TimelineEvent) (s : ReplayState) : Except PyError ReplayState :=
  events.foldlM (cfg.step draws) s

/-- `replay`, up to the state its report is built from. -/
def replay (decisions : List ReplayDecision) (candles : CandleSet)
    (timeframe : Option Timeframe) : Except PyError ReplayState :=
  let timeline := buildTimeline decisions candles timeframe
  cfg.process draws timeline (cfg.start timeline)

/-- The same replay stopped after the last event at or before `stop`. -/
def replayUntil (stop : Time) (decisions : List ReplayDecision) (candles : CandleSet)
    (timeframe : Option Timeframe) : Except PyError ReplayState :=
  let timeline := buildTimeline decisions candles timeframe
  cfg.process draws (timeline.takeWhile (fun e => e.time ≤ stop)) (cfg.start timeline)

end ReplayConfig

/-- `_dedupe_consecutive` on exact values: drop a point that repeats the one before it. -/
def dedupeConsecutive (points : List (Time × ℚ)) : List (Time × ℚ) :=
  points.foldl (fun out point =>
    match out.getLast? with
    | none => out ++ [point]
    | some last =>
        if |point.2 - last.2| > 1 / 1000000000000 ∨ point.1 ≠ last.1 then out ++ [point] else out) []

/-! ## No look-ahead

Nothing after a time reaches what the replay does up to it: the timeline up to the time is the
timeline of the bars and the decisions up to it.
-/

/-- When a bar closes. -/
def OHLCV.closeTime (bar : OHLCV) (tf : Timeframe) : Option Time :=
  bar.timestamp.map (fun opened => opened + tf.delta)

/-- The bar has closed by a time. -/
def OHLCV.ClosedBy (bar : OHLCV) (tf : Timeframe) (time : Time) : Bool :=
  (bar.closeTime tf).any (fun closed => closed ≤ time)

/-- The bars of a candle set that have closed by a time, each with its symbol. -/
def CandleSet.closedBy (candles : CandleSet) (tf : Timeframe) (time : Time) :
    List (Symbol × OHLCV) :=
  candles.entries.flatMap fun entry =>
    (entry.2.filter (fun bar => bar.ClosedBy tf time)).map (fun bar => (entry.1, bar))

/-- The decisions made by a time. -/
def decidedBy (decisions : List ReplayDecision) (time : Time) : List ReplayDecision :=
  decisions.filter (fun d => d.timestamp ≤ time)

/-- The event of a candle is kept up to a time when its bar has closed by it. -/
theorem ofCandle_filter (tf : Timeframe) (symbol : Symbol) (bar : OHLCV) (time : Time) :
    (TimelineEvent.ofCandle (some tf) symbol bar).filter (fun e => decide (e.time ≤ time))
      = if bar.ClosedBy tf time then TimelineEvent.ofCandle (some tf) symbol bar else none := by
  unfold TimelineEvent.ofCandle OHLCV.ClosedBy OHLCV.closeTime
  cases bar.timestamp with
  | none => rfl
  | some opened =>
      by_cases hclose : bar.close ≤ 0
      · simp [hclose]
      · simp [hclose, closedAt, Option.filter]

theorem candleEvents_filter (tf : Timeframe) (candles : CandleSet) (time : Time) :
    (candleEvents (some tf) candles).filter (fun e => e.time ≤ time)
      = (candles.closedBy tf time).filterMap
        (fun entry => TimelineEvent.ofCandle (some tf) entry.1 entry.2) := by
  unfold candleEvents CandleSet.closedBy
  rw [List.filter_flatMap, List.filterMap_flatMap]
  refine List.flatMap_congr fun entry _ => ?_
  rw [List.filter_filterMap, List.filterMap_map, List.filterMap_filter]
  refine List.filterMap_congr fun bar _ => ?_
  exact ofCandle_filter tf entry.1 bar time

theorem sorted_buildTimeline (decisions : List ReplayDecision) (candles : CandleSet)
    (timeframe : Option Timeframe) :
    (buildTimeline decisions candles timeframe).Pairwise (fun a b => a.time ≤ b.time) :=
  (sorted_sortBy TimelineEvent.key _).imp fun hab =>
    (Prod.Lex.le_iff.mp hab).elim le_of_lt fun h => le_of_eq h.1

/-- The timeline up to a time, from the bars and the decisions up to it. -/
theorem buildTimeline_takeWhile (decisions : List ReplayDecision) (candles : CandleSet)
    (tf : Timeframe) (time : Time) :
    (buildTimeline decisions candles (some tf)).takeWhile (fun e => e.time ≤ time)
      = sortBy TimelineEvent.key
        ((candles.closedBy tf time).filterMap
            (fun entry => TimelineEvent.ofCandle (some tf) entry.1 entry.2)
          ++ (decidedBy decisions time).map TimelineEvent.ofDecision) := by
  rw [takeWhile_sorted TimelineEvent.time (sorted_buildTimeline decisions candles (some tf))]
  unfold buildTimeline
  rw [filter_sortBy, List.filter_append, candleEvents_filter, List.filter_map]
  rfl

namespace ReplayState

variable (cfg : ReplayConfig) (draws : ℕ → Stamp) (time : Time)

/-- The two states differ in the counters and the engine only. -/
structure SameBook (s s' : ReplayState) : Prop where
  executor : s'.executor = s.executor
  lastClose : s'.lastClose = s.lastClose
  equityCurve : s'.equityCurve = s.equityCurve
  placed : s'.placed = s.placed

theorem sameBook_recordClosedTrade (s : ReplayState) (symbol : Symbol) (pnl : ℚ) :
    SameBook s (s.recordClosedTrade symbol pnl) := by
  unfold recordClosedTrade
  dsimp only
  split_ifs <;> exact ⟨rfl, rfl, rfl, rfl⟩

/-- The request of an order of the replay. -/
def request (signal : TradeSignal) (side : OrderSide) (quantity price : ℚ) : OrderRequest where
  symbol := signal.symbol
  side := side
  quantity := quantity
  price := some price
  decisionId := none
  stopLoss := signal.stopLoss
  takeProfit := signal.takeProfit

/-- An order changes the executor, is noted, and feeds the streak. -/
theorem fill_ok {signal : TradeSignal} {side : OrderSide} {quantity price : ℚ}
    {s s' : ReplayState} (h : s.fill draws time signal side quantity price = .ok s') :
    ∃ order, s.executor.placeOrder (request signal side quantity price)
        ("paper-" ++ (draws s.placed.length).shortId) (draws s.placed.length).now
          = (.ok order, s'.executor) ∧
      s'.lastClose = s.lastClose ∧ s'.equityCurve = s.equityCurve ∧
      s'.placed = s.placed ++ [⟨time, signal.symbol, side, quantity, price⟩] := by
  unfold fill at h
  dsimp only at h
  split at h
  · cases h
  · rename_i order executor hplace
    split at h
    · cases h
      obtain ⟨hex, hlast, hcurve, hplaced⟩ := sameBook_recordClosedTrade { s with
        executor := executor
        placed := s.placed ++ [⟨time, signal.symbol, side, quantity, price⟩] } signal.symbol _
      exact ⟨order, hex ▸ hplace, hlast, hcurve, hplaced⟩
    · cases h
      exact ⟨order, hplace, rfl, rfl, rfl⟩

/-- A candle is passed over, or it sets the marks, and may close the position of its symbol. -/
theorem onCandle_cases (symbol : Symbol) (bar : OHLCV) (s : ReplayState) :
    (bar.close ≤ 0 ∧ s.onCandle cfg draws time symbol bar = .ok s) ∨
    (0 < bar.close ∧
      (s.onCandle cfg draws time symbol bar = .ok (s.marked symbol bar.close) ∨
        ∃ position reason,
          (s.marked symbol bar.close).executor.getPositions.find?
            (fun p => p.symbol = symbol ∧ p.quantity > 0) = some position ∧
          exitLevelBreach position bar.close = some reason ∧
          s.onCandle cfg draws time symbol bar
            = fill draws time (exitSignal symbol reason) .sell position.quantity bar.close
              { s.marked symbol bar.close with autoExits := s.autoExits + 1 })) := by
  unfold onCandle
  by_cases hclose : bar.close ≤ 0
  · exact .inl ⟨hclose, if_pos hclose⟩
  · refine .inr ⟨not_le.mp hclose, ?_⟩
    rw [if_neg hclose]
    dsimp only
    split_ifs
    · exact .inl rfl
    · split
      · exact .inl rfl
      · rename_i position hposition
        split
        · exact .inl rfl
        · rename_i reason hreason
          exact .inr ⟨position, reason, hposition, hreason, rfl⟩

/-- A decision changes counters and engine only, or it sends one order at its mark. -/
theorem onDecision_cases (d : ReplayDecision) (s : ReplayState) :
    (∃ s', SameBook s s' ∧ s.onDecision cfg draws time d = .ok s') ∨
    ∃ price s₀, s.markPrice d.symbol = some price ∧ 0 < price ∧ SameBook s s₀ ∧
      s.onDecision cfg draws time d
        = s₀.fill draws time d.signal (if d.action = .buy then .buy else .sell)
          (s.plannedSize cfg d price) price := by
  unfold onDecision
  by_cases hhold : d.action = .hold
  · refine .inl ⟨_, ?_, if_pos hhold⟩
    exact ⟨rfl, rfl, rfl, rfl⟩
  · rw [if_neg hhold]
    cases hmark : s.markPrice d.symbol with
    | none =>
        refine .inl ⟨_, ?_, rfl⟩
        exact ⟨rfl, rfl, rfl, rfl⟩
    | some price =>
        by_cases hprice : price ≤ 0
        · refine .inl ⟨_, ?_, if_pos hprice⟩
          exact ⟨rfl, rfl, rfl, rfl⟩
        · simp only [if_neg hprice]
          split
          · refine .inl ⟨_, ?_, rfl⟩
            exact ⟨rfl, rfl, rfl, rfl⟩
          · split
            · refine .inl ⟨_, ?_, rfl⟩
              exact ⟨rfl, rfl, rfl, rfl⟩
            · exact .inr ⟨price, { s with engine := (s.gate cfg time d price).2 }, rfl,
                not_le.mp hprice, ⟨rfl, rfl, rfl, rfl⟩, rfl⟩

theorem onCandle_equity {symbol : Symbol} {bar : OHLCV} {s s' : ReplayState}
    (h : s.onCandle cfg draws time symbol bar = .ok s') : s'.equityCurve = s.equityCurve := by
  rcases onCandle_cases cfg draws time symbol bar s with
    ⟨-, hsame⟩ | ⟨-, hmarked | ⟨position, reason, -, -, hfill⟩⟩
  · rw [hsame] at h
    cases h
    rfl
  · rw [hmarked] at h
    cases h
    rfl
  · rw [hfill] at h
    obtain ⟨-, -, -, hcurve, -⟩ := fill_ok draws time h
    exact hcurve

theorem onDecision_equity {d : ReplayDecision} {s s' : ReplayState}
    (h : s.onDecision cfg draws time d = .ok s') : s'.equityCurve = s.equityCurve := by
  rcases onDecision_cases cfg draws time d s with ⟨t, hbook, hok⟩ | ⟨price, t, -, -, hbook, hfill⟩
  · rw [hok] at h
    cases h
    exact hbook.equityCurve
  · rw [hfill] at h
    obtain ⟨-, -, -, hcurve, -⟩ := fill_ok draws time h
    exact hcurve.trans hbook.equityCurve

end ReplayState

namespace ReplayConfig

variable (cfg : ReplayConfig) (draws : ℕ → Stamp)

theorem process_cons (e : TimelineEvent) (events : List TimelineEvent) (s : ReplayState) :
    cfg.process draws (e :: events) s = cfg.step draws s e >>= cfg.process draws events := rfl

theorem process_append (xs ys : List TimelineEvent) (s : ReplayState) :
    cfg.process draws (xs ++ ys) s = cfg.process draws xs s >>= cfg.process draws ys :=
  List.foldlM_append

/-- A step that does not raise runs the handler of its event and notes the equity. -/
theorem step_cases {s s' : ReplayState} {e : TimelineEvent} (h : cfg.step draws s e = .ok s') :
    (∃ symbol bar t, e.event = .candle symbol bar ∧
      s.onCandle cfg draws e.time symbol bar = .ok t ∧ s' = t.recordEquity e.time) ∨
    (∃ d t, e.event = .decision d ∧ s.onDecision cfg draws e.time d = .ok t ∧
      s' = t.recordEquity e.time) := by
  unfold step at h
  cases he : e.event with
  | candle symbol bar =>
      simp only [he] at h
      cases hc : s.onCandle cfg draws e.time symbol bar with
      | error err => rw [hc] at h; cases h
      | ok t =>
          rw [hc] at h
          cases h
          exact .inl ⟨symbol, bar, t, rfl, hc, rfl⟩
  | decision d =>
      simp only [he] at h
      cases hc : s.onDecision cfg draws e.time d with
      | error err => rw [hc] at h; cases h
      | ok t =>
          rw [hc] at h
          cases h
          exact .inr ⟨d, t, rfl, hc, rfl⟩

theorem step_equity {s s' : ReplayState} {e : TimelineEvent} (h : cfg.step draws s e = .ok s') :
    ∃ value, s'.equityCurve = s.equityCurve ++ [(e.time, value)] := by
  rcases cfg.step_cases draws h with ⟨symbol, bar, t, -, ht, rfl⟩ | ⟨d, t, -, ht, rfl⟩
  · exact ⟨_, by rw [← ReplayState.onCandle_equity cfg draws e.time ht]; rfl⟩
  · exact ⟨_, by rw [← ReplayState.onDecision_equity cfg draws e.time ht]; rfl⟩

/-- A point for each event, at its time. -/
theorem process_equity (events : List TimelineEvent) {s s' : ReplayState}
    (h : cfg.process draws events s = .ok s') :
    ∃ points : List (Time × ℚ), s'.equityCurve = s.equityCurve ++ points
      ∧ points.map Prod.fst = events.map TimelineEvent.time := by
  induction events generalizing s with
  | nil =>
      cases h
      exact ⟨[], (List.append_nil _).symm, rfl⟩
  | cons e rest ih =>
      rw [process_cons] at h
      cases hstep : cfg.step draws s e with
      | error err => rw [hstep] at h; cases h
      | ok t =>
          rw [hstep] at h
          obtain ⟨value, hvalue⟩ := cfg.step_equity draws hstep
          obtain ⟨points, hpoints, htimes⟩ := ih h
          refine ⟨(e.time, value) :: points, ?_, ?_⟩
          · rw [hpoints, hvalue, List.append_assoc]
            rfl
          · rw [List.map_cons, List.map_cons, htimes]

end ReplayConfig

/-- The points up to a time. -/
def pointsUpTo (stop : Time) (points : List (Time × ℚ)) : List (Time × ℚ) :=
  points.filter (fun point => point.1 ≤ stop)

/-- The state with the points of its curve up to a time. -/
def ReplayState.upTo (stop : Time) (s : ReplayState) : ReplayState :=
  { s with equityCurve := pointsUpTo stop s.equityCurve }

/-- Later points are kept or dropped behind the earlier ones. -/
theorem dedupeConsecutive_append (xs ys : List (Time × ℚ)) :
    ∃ kept, dedupeConsecutive (xs ++ ys) = dedupeConsecutive xs ++ kept
      ∧ ∀ point ∈ kept, point ∈ ys := by
  unfold dedupeConsecutive
  rw [List.foldl_append]
  generalize xs.foldl _ [] = out
  induction ys generalizing out with
  | nil => exact ⟨[], (List.append_nil out).symm, fun _ h => h⟩
  | cons y rest ih =>
      rw [List.foldl_cons]
      have hstep : ∃ kept, (match out.getLast? with
          | none => out ++ [y]
          | some last =>
              if |y.2 - last.2| > 1 / 1000000000000 ∨ y.1 ≠ last.1 then out ++ [y] else out)
            = out ++ kept ∧ ∀ point ∈ kept, point = y := by
        split
        · exact ⟨[y], rfl, fun _ h => List.mem_singleton.mp h⟩
        · split_ifs
          · exact ⟨[y], rfl, fun _ h => List.mem_singleton.mp h⟩
          · exact ⟨[], (List.append_nil out).symm, fun _ h => by cases h⟩
      obtain ⟨first, hfirst, hmem⟩ := hstep
      obtain ⟨kept, hkept, hrest⟩ := ih (out ++ first)
      refine ⟨first ++ kept, ?_, fun point hpoint => ?_⟩
      · rw [hfirst, hkept, List.append_assoc]
      · rcases List.mem_append.mp hpoint with h | h
        · rw [hmem point h]
          exact List.mem_cons_self
        · exact List.mem_cons_of_mem y (hrest point h)

theorem pointsUpTo_eq_nil {stop : Time} {points : List (Time × ℚ)}
    (h : ∀ point ∈ points, stop < point.1) : pointsUpTo stop points = [] := by
  refine List.filter_eq_nil_iff.mpr fun point hpoint => ?_
  simpa using h point hpoint

namespace ReplayConfig

variable (cfg : ReplayConfig) (draws : ℕ → Stamp)

/-- The replay goes on from where it was stopped, with points after that time only. -/
theorem replay_from (stop : Time) {decisions : List ReplayDecision} {candles : CandleSet}
    {timeframe : Option Timeframe} {final : ReplayState}
    (h : cfg.replay draws decisions candles timeframe = .ok final) :
    ∃ mid points, cfg.replayUntil draws stop decisions candles timeframe = .ok mid ∧
      final.equityCurve = mid.equityCurve ++ points ∧ ∀ point ∈ points, stop < point.1 := by
  unfold replay at h
  unfold replayUntil
  dsimp only at h ⊢
  have hsorted := sorted_buildTimeline decisions candles timeframe
  generalize buildTimeline decisions candles timeframe = timeline at h hsorted ⊢
  have hsplit := List.takeWhile_append_dropWhile (p := fun e : TimelineEvent => e.time ≤ stop)
    (l := timeline)
  have hrun : cfg.process draws (timeline.takeWhile fun e => e.time ≤ stop) (cfg.start timeline)
      >>= cfg.process draws (timeline.dropWhile fun e => e.time ≤ stop) = .ok final := by
    rw [← process_append, hsplit, h]
  cases hmid : cfg.process draws (timeline.takeWhile fun e => e.time ≤ stop)
      (cfg.start timeline) with
  | error err =>
      rw [hmid] at hrun
      cases hrun
  | ok mid =>
      rw [hmid] at hrun
      obtain ⟨points, hpoints, htimes⟩ := cfg.process_equity draws _ hrun
      refine ⟨mid, points, rfl, hpoints, fun point hpoint => ?_⟩
      have hmem : point.1 ∈ (timeline.dropWhile fun e => e.time ≤ stop).map TimelineEvent.time := by
        rw [← htimes]
        exact List.mem_map_of_mem hpoint
      obtain ⟨e, he, heq⟩ := List.mem_map.mp hmem
      rw [← heq]
      exact lt_of_mem_dropWhile TimelineEvent.time hsorted stop he

/-- Two replays with the same timeline up to a time: either there is none and both still stand at
their start, whose only point is later, or they are in the same state. -/
theorem replayUntil_alike {stop : Time} {decisions decisions' : List ReplayDecision}
    {candles candles' : CandleSet} {tf : Option Timeframe}
    (h : (buildTimeline decisions candles tf).takeWhile (fun e => e.time ≤ stop)
      = (buildTimeline decisions' candles' tf).takeWhile (fun e => e.time ≤ stop)) :
    (∃ curve curve' : List (Time × ℚ),
      (∀ point ∈ curve, stop < point.1) ∧ (∀ point ∈ curve', stop < point.1) ∧
      cfg.replayUntil draws stop decisions candles tf
        = .ok { cfg.start [] with equityCurve := curve } ∧
      cfg.replayUntil draws stop decisions' candles' tf
        = .ok { cfg.start [] with equityCurve := curve' }) ∨
    cfg.replayUntil draws stop decisions candles tf
      = cfg.replayUntil draws stop decisions' candles' tf := by
  unfold replayUntil
  dsimp only
  generalize buildTimeline decisions candles tf = timeline at h ⊢
  generalize buildTimeline decisions' candles' tf = timeline' at h ⊢
  -- the start point of a timeline without events up to the time is later
  have hlate : ∀ l : List TimelineEvent, l.takeWhile (fun e => e.time ≤ stop) = [] →
      ∀ point ∈ (cfg.start l).equityCurve, stop < point.1 := by
    intro l hl point hpoint
    cases l with
    | nil => cases hpoint
    | cons e rest =>
        rw [List.mem_singleton.mp hpoint]
        by_contra hle
        rw [List.takeWhile_cons_of_pos (by simpa using hle)] at hl
        cases hl
  -- the start point of a timeline with events up to the time is theirs
  have hstart : ∀ l : List TimelineEvent, l.takeWhile (fun e => e.time ≤ stop) ≠ [] →
      cfg.start l = cfg.start (l.takeWhile fun e => e.time ≤ stop) := by
    intro l hl
    cases l with
    | nil => rfl
    | cons e rest =>
        by_cases hle : e.time ≤ stop
        · rw [List.takeWhile_cons_of_pos (by simpa using hle)]
          rfl
        · exact absurd (List.takeWhile_cons_of_neg (by simpa using hle)) hl
  by_cases hnil : timeline.takeWhile (fun e => e.time ≤ stop) = []
  · refine .inl ⟨_, _, hlate timeline hnil, hlate timeline' (h ▸ hnil), ?_, ?_⟩
    · rw [hnil]
      rfl
    · rw [← h, hnil]
      rfl
  · right
    rw [hstart timeline hnil, hstart timeline' (h ▸ hnil), h]

/-- **No look-ahead.** Two replays whose bars and decisions agree up to a time are in the same
state then, with the same points on their equity curves up to it; the points stay what they are
whatever follows. -/
theorem no_look_ahead (tf : Timeframe) (stop : Time) (decisions decisions' : List ReplayDecision)
    (candles candles' : CandleSet) (hbars : candles.closedBy tf stop = candles'.closedBy tf stop)
    (hdecisions : decidedBy decisions stop = decidedBy decisions' stop) :
    (cfg.replayUntil draws stop decisions candles (some tf)).map (ReplayState.upTo stop)
        = (cfg.replayUntil draws stop decisions' candles' (some tf)).map
          (ReplayState.upTo stop) ∧
      ∀ final final', cfg.replay draws decisions candles (some tf) = .ok final →
        cfg.replay draws decisions' candles' (some tf) = .ok final' →
        pointsUpTo stop (dedupeConsecutive final.equityCurve)
          = pointsUpTo stop (dedupeConsecutive final'.equityCurve) := by
  have hpre : (buildTimeline decisions candles (some tf)).takeWhile (fun e => e.time ≤ stop)
      = (buildTimeline decisions' candles' (some tf)).takeWhile (fun e => e.time ≤ stop) := by
    rw [buildTimeline_takeWhile, buildTimeline_takeWhile, hbars, hdecisions]
  -- what comes after the time drops out of the points up to it
  have hdrop : ∀ curve points : List (Time × ℚ), (∀ point ∈ points, stop < point.1) →
      pointsUpTo stop (dedupeConsecutive (curve ++ points))
        = pointsUpTo stop (dedupeConsecutive curve) := by
    intro curve points hlate
    obtain ⟨kept, hkept, hmem⟩ := dedupeConsecutive_append curve points
    have hnil := pointsUpTo_eq_nil fun point hpoint => hlate point (hmem point hpoint)
    unfold pointsUpTo at hnil ⊢
    rw [hkept, List.filter_append, hnil, List.append_nil]
  rcases cfg.replayUntil_alike draws hpre with ⟨curve, curve', hc, hc', hr, hr'⟩ | heq
  · constructor
    · rw [hr, hr']
      unfold Except.map ReplayState.upTo
      dsimp only
      rw [pointsUpTo_eq_nil hc, pointsUpTo_eq_nil hc']
    · intro final final' hfinal hfinal'
      obtain ⟨mid, points, hmid, hcurve, hlate⟩ := cfg.replay_from draws stop hfinal
      obtain ⟨mid', points', hmid', hcurve', hlate'⟩ :=
        cfg.replay_from draws stop hfinal'
      rw [hr] at hmid
      rw [hr'] at hmid'
      cases hmid
      cases hmid'
      have hnil := hdrop [] (curve ++ points) fun point hpoint =>
        (List.mem_append.mp hpoint).elim (hc point) (hlate point)
      have hnil' := hdrop [] (curve' ++ points') fun point hpoint =>
        (List.mem_append.mp hpoint).elim (hc' point) (hlate' point)
      rw [hcurve, hcurve']
      exact hnil.trans hnil'.symm
  · refine ⟨by rw [heq], fun final final' hfinal hfinal' => ?_⟩
    obtain ⟨mid, points, hmid, hcurve, hlate⟩ := cfg.replay_from draws stop hfinal
    obtain ⟨mid', points', hmid', hcurve', hlate'⟩ := cfg.replay_from draws stop hfinal'
    rw [heq, hmid'] at hmid
    cases hmid
    rw [hcurve, hcurve', hdrop _ _ hlate, hdrop _ _ hlate']

/-- A daily bar with one price. -/
def flatBar (opened : Time) (price : ℚ) : OHLCV := ⟨some opened, price, price, price, price, 0⟩

/-- A bar of the first day and one of the second. -/
def twoBars (second : ℚ) : CandleSet :=
  Dict.empty.set "BTC/USDC" [flatBar 0 100, flatBar (days 1) second]

/-- A decision to buy at a certain time. -/
def buyAt (timestamp : Time) : ReplayDecision :=
  ⟨timestamp, "BTC/USDC", .buy, 1, none, none, zero_le_one, le_rfl⟩

/-- A decision of the first day is replayed alike, whether the price rises on the second day and
nothing is decided, or it falls and another decision follows. -/
theorem no_look_ahead_second_day :
    let cfg : ReplayConfig := ⟨RiskSettings.default, 1000, CostModel.free, none, none⟩
    let tf : Timeframe := ⟨days 1, by decide⟩
    (cfg.replayUntil (fun _ => ⟨"a", 0⟩) (days 1) [buyAt (days 1)] (twoBars 120) (some tf)).map
        (ReplayState.upTo (days 1))
      = (cfg.replayUntil (fun _ => ⟨"a", 0⟩) (days 1) [buyAt (days 1), buyAt (days 2)] (twoBars 80)
          (some tf)).map (ReplayState.upTo (days 1)) :=
  (no_look_ahead _ _ _ (days 1) [buyAt (days 1)] [buyAt (days 1), buyAt (days 2)] (twoBars 120)
    (twoBars 80) rfl rfl).1

end ReplayConfig

end SmartyTrader
