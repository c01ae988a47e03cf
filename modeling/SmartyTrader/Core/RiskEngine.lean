import SmartyTrader.Core.Settings

set_option autoImplicit false

/-! # Deterministic risk engine

The hard gates before every order. The engine keeps three trackers: the baseline of the
current UTC day, the streak of losses with its cooldown, and the high-water mark of equity.
Every method that reads the clock takes the reading as an argument. The checks of a BUY are
all run before the first verdict is looked at, so each of them moves its tracker even when an
earlier one rejects.
-/

namespace SmartyTrader

/-- Market value of the long position held in `symbol`. -/
def longExposure (portfolio : PortfolioState) (symbol : Symbol) : ℚ :=
  ((portfolio.positions.filter (fun p => p.symbol = symbol ∧ p.side = .long)).map
    (fun p => p.quantity * p.currentPrice)).sum

/-! ## Verdicts -/

/-- Why a signal was rejected. Each constructor is one text with its values. -/
inductive RiskReason where
  /-- `Confidence {confidence} below minimum {min_confidence}` -/
  | confidenceBelow (confidence minimum : ℚ)
  /-- `No open long position in {symbol} to sell …` -/
  | noLongPosition (symbol : Symbol)
  /-- `Max open positions ({max_open_positions}) reached` -/
  | maxOpenPositions (limit : ℤ)
  /-- `Portfolio value is zero or negative` -/
  | portfolioValueNotPositive
  /-- `Position in {symbol} already at max size ({existing} of cap {cap}, …)` -/
  | alreadyAtMaxSize (symbol : Symbol) (existing cap pct total : ℚ)
  /-- `Planned position {resulting} exceeds max position size {cap} …` -/
  | plannedPositionExceeds (resulting cap pct total existing : ℚ)
  /-- `Daily loss {pnl_pct} exceeds limit …` -/
  | dailyLoss (pnlPct limit : ℚ)
  /-- `Drawdown {drawdown_pct} exceeds limit … (peak equity {peak})` -/
  | drawdown (drawdownPct limit peak : ℚ)
  /-- `In cooldown until {remaining}` -/
  | inCooldown (untilTime : Time)
  /-- `Opening a position requires a stop-loss` -/
  | stopLossRequired
  /-- `Stop-loss {stop_loss} is not below the current price {current_price} …` -/
  | stopLossNotBelow (stopLoss price : ℚ)
  /-- `Take-profit {take_profit} is not above the current price {current_price} …` -/
  | takeProfitNotAbove (takeProfit price : ℚ)
  /-- `Stop distance {pct} exceeds risk.max_stop_distance_pct ({limit}) …` -/
  | stopDistance (pct limit : ℚ)
  /-- `Agent-wide backstop: drawdown {drawdown_pct} exceeds {limit_pct} …` -/
  | backstop (drawdownPct limit peak : ℚ)
  /-- `Event guard: market context unavailable ({error}) — no new entries` -/
  | contextUnavailable (error : String)
  /-- `Event guard: the venue announced a delisting of {asset} on {at} …` -/
  | delistingBlackout (asset : Option String) (time : Time)
  /-- `Event guard: {currency} {title} ({importance} impact) at {at} UTC …` -/
  | macroBlackout (currency : Option String) (title : String) (importance : EventImportance)
      (time : Time) (before after : ℤ)
  /-- `Event guard: {asset} earnings at {at} UTC …` -/
  | earningsBlackout (asset : Option String) (time : Time)
  /-- A reason composed by the sleeve layer, with its text. -/
  | sleeve (text : String)
  deriving DecidableEq

/-- The verdict of a check; a reason comes with a rejection and only with one. -/
inductive RiskResult where
  | approved
  | rejected (reason : RiskReason)
  deriving DecidableEq

/-- The first rejection of a list of checks. -/
def RiskResult.first : List RiskResult → RiskResult
  | [] => .approved
  | .approved :: rest => first rest
  | .rejected reason :: _ => .rejected reason

theorem RiskResult.first_eq_approved_iff (checks : List RiskResult) :
    RiskResult.first checks = .approved ↔ ∀ c ∈ checks, c = .approved := by
  induction checks with
  | nil => simp [RiskResult.first]
  | cons c cs ih =>
      cases c with
      | approved => simp [RiskResult.first, ih]
      | rejected reason => simp [RiskResult.first]

/-! ## Trackers -/

/-- Baseline of the current UTC day. `currentDate` is `none` before the first reading. -/
structure DailyLossTracker where
  startOfDayValue : Option ℚ
  currentDate : Option ℤ
  latestValue : Option ℚ
  deriving DecidableEq

namespace DailyLossTracker

def empty : DailyLossTracker := ⟨none, none, none⟩

def resetIfNewDay (t : DailyLossTracker) (value : ℚ) (now : Time) : DailyLossTracker :=
  if t.currentDate = some (utcDay now) then t
  else { t with currentDate := some (utcDay now), startOfDayValue := some value }

def restoreToday (t : DailyLossTracker) (value : ℚ) (now : Time) : DailyLossTracker :=
  { t with currentDate := some (utcDay now), startOfDayValue := some value }

def updateLatestValue (t : DailyLossTracker) (value : ℚ) : DailyLossTracker :=
  { t with latestValue := some value }

def dailyPnlPct (t : DailyLossTracker) : Option ℚ :=
  match t.startOfDayValue, t.latestValue with
  | some start, some latest => if start = 0 then none else some ((latest - start) / start)
  | _, _ => none

end DailyLossTracker

/-- Streak of losses and the cooldown it armed. -/
structure ConsecutiveLossTracker where
  consecutiveLosses : ℤ
  cooldownUntil : Option Time
  deriving DecidableEq

namespace ConsecutiveLossTracker

def empty : ConsecutiveLossTracker := ⟨0, none⟩

def inCooldown (t : ConsecutiveLossTracker) (now : Time) : Bool :=
  match t.cooldownUntil with
  | none => false
  | some u => now < u

def recordLoss (t : ConsecutiveLossTracker) (cooldownMinutes threshold : ℤ) (now : Time) :
    ConsecutiveLossTracker :=
  let losses := t.consecutiveLosses + 1
  { consecutiveLosses := losses
    cooldownUntil :=
      if losses ≥ threshold then some (now + minutes cooldownMinutes) else t.cooldownUntil }

def recordWin (_ : ConsecutiveLossTracker) : ConsecutiveLossTracker := ⟨0, none⟩

def restore (_ : ConsecutiveLossTracker) (losses : ℤ) (cooldownUntil : Option Time) :
    ConsecutiveLossTracker := ⟨losses, cooldownUntil⟩

end ConsecutiveLossTracker

/-- The engine: its live settings and its trackers. -/
structure RiskEngine where
  settings : RiskSettings
  dailyTracker : DailyLossTracker
  lossTracker : ConsecutiveLossTracker
  peakEquity : Option ℚ

namespace RiskEngine

def create (settings : RiskSettings) : RiskEngine :=
  ⟨settings, DailyLossTracker.empty, ConsecutiveLossTracker.empty, none⟩

/-- Raise the high-water mark if this value is a new peak. -/
def noteEquity (e : RiskEngine) (value : ℚ) : RiskEngine :=
  match e.peakEquity with
  | none => if value > 0 then { e with peakEquity := some value } else e
  | some peak => if value > 0 ∧ value > peak then { e with peakEquity := some value } else e

def seedPeakEquity (e : RiskEngine) (value : Option ℚ) : RiskEngine :=
  match value with
  | none => e
  | some v => e.noteEquity v

/-- Roll the day and note the value: what `update_daily_value` and the daily check share. -/
def observeDay (e : RiskEngine) (value : ℚ) (now : Time) : RiskEngine :=
  { e with dailyTracker := (e.dailyTracker.resetIfNewDay value now).updateLatestValue value }

def updateDailyValue (e : RiskEngine) (value : ℚ) (now : Time) : RiskEngine :=
  (e.observeDay value now).noteEquity value

def restoreDailyBaseline (e : RiskEngine) (value : ℚ) (now : Time) : RiskEngine :=
  { e with dailyTracker := e.dailyTracker.restoreToday value now }

def restoreLossStreak (e : RiskEngine) (losses : ℤ) (cooldownUntil : Option Time) : RiskEngine :=
  { e with lossTracker := e.lossTracker.restore losses cooldownUntil }

def recordOutcome (e : RiskEngine) (wasProfitable : Bool) (now : Time) : RiskEngine :=
  if wasProfitable then { e with lossTracker := e.lossTracker.recordWin }
  else
    { e with
      lossTracker := e.lossTracker.recordLoss e.settings.consecutiveLossesCooldownMinutes
        e.settings.consecutiveLossesThreshold now }

/-- The high-water mark, or `value` when there is none (or a zero one). -/
def peakOr (e : RiskEngine) (value : ℚ) : ℚ :=
  match e.peakEquity with
  | none => value
  | some peak => if peak = 0 then value else peak

def checkBackstop (e : RiskEngine) (value limitPct : ℚ) : RiskResult × RiskEngine :=
  if value ≤ 0 then (.approved, e)
  else
    let noted := e.noteEquity value
    let peak := noted.peakOr value
    let drawdownPct := (peak - value) / peak
    if drawdownPct > limitPct then (.rejected (.backstop drawdownPct limitPct peak), noted)
    else (.approved, noted)

/-! ## The event guard -/

def noticeBlackout (s : RiskSettings) (now : Time) (notice : MarketEvent) : Option RiskReason :=
  if notice.kind = .delisting ∧ notice.time - days 1 ≤ now
      ∧ now ≤ notice.time + days s.delistingBlackoutDays then
    some (.delistingBlackout notice.asset notice.time)
  else none

def eventBlackout (s : RiskSettings) (now : Time) (event : MarketEvent) : Option RiskReason :=
  if event.kind = .macroEvent ∧ event.importance.rank ≥ s.eventGuardMinImportance.rank then
    if event.time - minutes s.eventBlackoutBeforeMinutes ≤ now
        ∧ now ≤ event.time + minutes s.eventBlackoutAfterMinutes then
      some (.macroBlackout event.currency event.title event.importance event.time
        s.eventBlackoutBeforeMinutes s.eventBlackoutAfterMinutes)
    else none
  else if event.kind = .earnings then
    if event.time - days s.earningsBlackoutDaysBefore ≤ now
        ∧ now ≤ event.time + hours s.earningsBlackoutHoursAfter then
      some (.earningsBlackout event.asset event.time)
    else none
  else none

/-- Why new entries are blocked by calendar data. Notices come before events, and the first
one that blocks gives the reason. -/
def eventBlackoutReason (e : RiskEngine) (context : Option SymbolContext) : Option RiskReason :=
  match context with
  | none => none
  | some c =>
      if e.settings.eventGuardEnabled then
        (c.notices.findSome? (noticeBlackout e.settings c.now)).or
          (c.events.findSome? (eventBlackout e.settings c.now))
      else none

/-- Entry gate over market context. An unreadable context blocks entries. -/
def checkEventGuard (e : RiskEngine) (signal : TradeSignal) (context : Option SymbolContext)
    (contextError : Option String) : RiskResult :=
  if signal.action ≠ .buy ∨ e.settings.eventGuardEnabled = false then .approved
  else
    match contextError with
    | some error => .rejected (.contextUnavailable error)
    | none =>
        match e.eventBlackoutReason context with
        | none => .approved
        | some reason => .rejected reason

/-! ## Individual checks -/

def checkConfidence (e : RiskEngine) (signal : TradeSignal) : RiskResult :=
  if signal.confidence < e.settings.minConfidence then
    .rejected (.confidenceBelow signal.confidence e.settings.minConfidence)
  else .approved

def checkMaxPositions (e : RiskEngine) (signal : TradeSignal) (portfolio : PortfolioState) :
    RiskResult :=
  if signal.symbol ∉ portfolio.positions.map Position.symbol
      ∧ (portfolio.positions.length : ℤ) ≥ e.settings.maxOpenPositions then
    .rejected (.maxOpenPositions e.settings.maxOpenPositions)
  else .approved

/-- `1e-9` and `1e-6`, the relative tolerances of the caps. -/
def capTolerance : ℚ := 1 / 1000000000
def planTolerance : ℚ := 1 / 1000000

def checkPositionSize (e : RiskEngine) (signal : TradeSignal) (portfolio : PortfolioState)
    (plannedNotional : Option ℚ) : RiskResult :=
  let total := portfolio.totalValue
  if total ≤ 0 then .rejected .portfolioValueNotPositive
  else
    let cap := e.settings.maxPositionPct * total
    let existing := if signal.action = .buy then longExposure portfolio signal.symbol else 0
    if signal.action = .buy ∧ existing ≥ cap * (1 - capTolerance) then
      .rejected (.alreadyAtMaxSize signal.symbol existing cap e.settings.maxPositionPct total)
    else
      match plannedNotional with
      | none => .approved
      | some planned =>
          let resulting := existing + planned
          if resulting > cap * (1 + planTolerance) then
            .rejected (.plannedPositionExceeds resulting cap e.settings.maxPositionPct total
              existing)
          else .approved

/-- The day is rolled here as well, so the first check after midnight has today's baseline. -/
def checkDailyLoss (e : RiskEngine) (portfolio : PortfolioState) (now : Time) :
    RiskResult × RiskEngine :=
  let rolled := e.observeDay portfolio.totalValue now
  let threshold := e.settings.dailyLossLimitPct * (1 - capTolerance)
  match rolled.dailyTracker.dailyPnlPct with
  | none => (.approved, rolled)
  | some pnlPct =>
      if pnlPct ≤ -threshold then
        (.rejected (.dailyLoss pnlPct e.settings.dailyLossLimitPct), rolled)
      else (.approved, rolled)

def checkDrawdown (e : RiskEngine) (portfolio : PortfolioState) : RiskResult × RiskEngine :=
  let total := portfolio.totalValue
  if total ≤ 0 then (.approved, e)
  else
    let noted := e.noteEquity total
    let peak := noted.peakOr total
    let drawdownPct := (peak - total) / peak
    if drawdownPct > e.settings.maxDrawdownPct then
      (.rejected (.drawdown drawdownPct e.settings.maxDrawdownPct peak), noted)
    else (.approved, noted)

def checkCooldown (e : RiskEngine) (now : Time) : RiskResult :=
  match e.lossTracker.cooldownUntil with
  | none => .approved
  | some remaining =>
      if e.lossTracker.inCooldown now then .rejected (.inCooldown remaining) else .approved

def checkStopLoss (e : RiskEngine) (signal : TradeSignal) (currentPrice : Option ℚ) :
    RiskResult :=
  if signal.action ≠ .buy then .approved
  else
    match signal.stopLoss with
    | none => .rejected .stopLossRequired
    | some stopLoss =>
        match currentPrice with
        | none => .approved
        | some price =>
            if price > 0 then
              if stopLoss ≥ price then .rejected (.stopLossNotBelow stopLoss price)
              else if ∃ tp ∈ signal.takeProfit, tp ≤ price then
                .rejected (.takeProfitNotAbove (signal.takeProfit.getD 0) price)
              else if (price - stopLoss) / price > e.settings.maxStopDistancePct then
                .rejected (.stopDistance ((price - stopLoss) / price)
                  e.settings.maxStopDistancePct)
              else .approved
            else .approved

/-- SELL closes a held long. Only the confidence rule applies. -/
def evaluateExit (e : RiskEngine) (signal : TradeSignal) (portfolio : PortfolioState) :
    RiskResult :=
  if longExposure portfolio signal.symbol ≤ 0 then .rejected (.noLongPosition signal.symbol)
  else e.checkConfidence signal

/-- Check a signal against all rules. `now` is the clock reading of the daily check and
`later` the one of the cooldown check. -/
def evaluate (e : RiskEngine) (signal : TradeSignal) (portfolio : PortfolioState)
    (plannedNotional currentPrice : Option ℚ) (now later : Time) : RiskResult × RiskEngine :=
  match signal.action with
  | .hold => (.approved, e)
  | .sell => (e.evaluateExit signal portfolio, e)
  | .buy =>
      let confidence := e.checkConfidence signal
      let maxPositions := e.checkMaxPositions signal portfolio
      let positionSize := e.checkPositionSize signal portfolio plannedNotional
      let daily := e.checkDailyLoss portfolio now
      let drawdown := daily.2.checkDrawdown portfolio
      let cooldown := drawdown.2.checkCooldown later
      let stopLoss := drawdown.2.checkStopLoss signal currentPrice
      (.first [confidence, maxPositions, positionSize, daily.1, drawdown.1, cooldown, stopLoss],
        drawdown.2)

end RiskEngine

end SmartyTrader
