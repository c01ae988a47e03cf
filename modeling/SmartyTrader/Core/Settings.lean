import SmartyTrader.Core.Models

set_option autoImplicit false

/-! # Settings

The validated settings the modelled functions read. What a validator refuses is a proof field,
so a settings value that exists has passed its validator.
-/

namespace SmartyTrader

/-- Limits of the risk engine. Only the windows of the event guard are validated. -/
structure RiskSettings where
  maxPositionPct : ℚ
  dailyLossLimitPct : ℚ
  maxDrawdownPct : ℚ
  consecutiveLossesCooldownMinutes : ℤ
  consecutiveLossesThreshold : ℤ
  maxOpenPositions : ℤ
  minConfidence : ℚ
  maxStopDistancePct : ℚ
  riskPerTradePct : ℚ
  enforceExitLevels : Bool
  eventGuardEnabled : Bool
  eventBlackoutBeforeMinutes : ℤ
  eventBlackoutAfterMinutes : ℤ
  eventGuardMinImportance : EventImportance
  earningsBlackoutDaysBefore : ℤ
  earningsBlackoutHoursAfter : ℤ
  delistingBlackoutDays : ℤ
  eventBlackoutBeforeMinutes_nonneg : 0 ≤ eventBlackoutBeforeMinutes
  eventBlackoutAfterMinutes_nonneg : 0 ≤ eventBlackoutAfterMinutes
  earningsBlackoutDaysBefore_nonneg : 0 ≤ earningsBlackoutDaysBefore
  earningsBlackoutHoursAfter_nonneg : 0 ≤ earningsBlackoutHoursAfter
  delistingBlackoutDays_nonneg : 0 ≤ delistingBlackoutDays

/-- The defaults of the class. -/
def RiskSettings.default : RiskSettings where
  maxPositionPct := 1 / 10
  dailyLossLimitPct := 1 / 50
  maxDrawdownPct := 1 / 20
  consecutiveLossesCooldownMinutes := 60
  consecutiveLossesThreshold := 3
  maxOpenPositions := 5
  minConfidence := 3 / 5
  maxStopDistancePct := 1 / 4
  riskPerTradePct := 0
  enforceExitLevels := true
  eventGuardEnabled := true
  eventBlackoutBeforeMinutes := 120
  eventBlackoutAfterMinutes := 60
  eventGuardMinImportance := .high
  earningsBlackoutDaysBefore := 1
  earningsBlackoutHoursAfter := 24
  delistingBlackoutDays := 90
  eventBlackoutBeforeMinutes_nonneg := by decide
  eventBlackoutAfterMinutes_nonneg := by decide
  earningsBlackoutDaysBefore_nonneg := by decide
  earningsBlackoutHoursAfter_nonneg := by decide
  delistingBlackoutDays_nonneg := by decide

inductive ExitOrderType where
  | market
  | limit
  deriving DecidableEq

/-- How a venue executor prices and ages its orders. -/
structure VenueOrderSettings where
  entryOffsetPct : ℚ
  exitOrderType : ExitOrderType
  exitOffsetPct : ℚ
  orderTtlSeconds : ℚ
  protectiveOrders : Bool
  entryOffsetPct_nonneg : 0 ≤ entryOffsetPct
  entryOffsetPct_lt : entryOffsetPct < 1 / 20
  exitOffsetPct_nonneg : 0 ≤ exitOffsetPct
  exitOffsetPct_lt : exitOffsetPct < 1 / 20
  orderTtlSeconds_nonneg : 0 ≤ orderTtlSeconds

/-- The defaults of the class. -/
def VenueOrderSettings.default : VenueOrderSettings where
  entryOffsetPct := 1 / 500
  exitOrderType := .market
  exitOffsetPct := 1 / 200
  orderTtlSeconds := 600
  protectiveOrders := false
  entryOffsetPct_nonneg := by norm_num
  entryOffsetPct_lt := by norm_num
  exitOffsetPct_nonneg := by norm_num
  exitOffsetPct_lt := by norm_num
  orderTtlSeconds_nonneg := by norm_num

/-! ## Durations, in microseconds -/

def minutes (n : ℤ) : ℤ := n * 60000000
def hours (n : ℤ) : ℤ := n * 3600000000
def days (n : ℤ) : ℤ := n * 86400000000

end SmartyTrader
