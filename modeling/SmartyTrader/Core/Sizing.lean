import SmartyTrader.Core.Costs
import SmartyTrader.Core.RiskEngine
import SmartyTrader.Lib.Grid

set_option autoImplicit false

/-! # Shared trading rules

The rules the live pipeline and the replay share: when a mark breaches an exit level, which
side closes a position, and how large an order is. A BUY is the smallest of several budgets,
rounded down to whole multiples of `1e-8`; the last section says exactly when anything is left
after the rounding.
-/

namespace SmartyTrader

open Lib

/-- Which exit rule closed a position. -/
inductive ExitReason where
  | stopLoss
  | takeProfit
  | timeStop
  | closeAll
  deriving DecidableEq

/-- The level of `position` that `mark` breaches. A short is the mirror image of a long. -/
def exitLevelBreach (position : Position) (mark : ℚ) : Option ExitReason :=
  let stopped := position.stopLoss.any (fun sl =>
    if position.side = .short then mark ≥ sl else mark ≤ sl)
  let taken := position.takeProfit.any (fun tp =>
    if position.side = .short then mark ≤ tp else mark ≥ tp)
  if stopped then some .stopLoss else if taken then some .takeProfit else none

/-- The side that reduces a position. -/
def closingSide (position : Position) : OrderSide :=
  if position.side = .short then .buy else .sell

/-- The cost model for sizing: a venue's BUY price offset counts as slippage. -/
def sizingCostModel (model : CostModel) (buyPriceFactor : ℚ) : CostModel :=
  if h : buyPriceFactor > 1 then
    { model with
      slippagePct := (1 + model.slippagePct) * buyPriceFactor - 1
      slippagePct_nonneg := by
        have := model.slippagePct_nonneg
        nlinarith }
  else model

/-- Order sizes are whole multiples of `1e-8`. -/
def sizeUnit : ℚ := 1 / 100000000

theorem sizeUnit_pos : 0 < sizeUnit := by norm_num [sizeUnit]

/-- The reference price of a plan: the mark, else the stop, else one. -/
def planPrice (signal : TradeSignal) (currentPrice : Option ℚ) : ℚ :=
  let price :=
    match currentPrice with
    | some p => if p > 0 then some p else signal.stopLoss
    | none => signal.stopLoss
  match price with
  | some p => if p ≤ 0 then 1 else p
  | none => 1

/-- Value left under the per-position cap. -/
def maxPositionValue (signal : TradeSignal) (portfolio : PortfolioState)
    (settings : RiskSettings) : ℚ :=
  let cap := portfolio.totalValue * settings.maxPositionPct
  if signal.action = .buy then max 0 (cap - longExposure portfolio signal.symbol) else cap

/-- The size that loses the risk budget at the stop, when that rule is on. -/
def riskSize (signal : TradeSignal) (portfolio : PortfolioState) (settings : RiskSettings)
    (price : ℚ) : Option ℚ :=
  match signal.stopLoss with
  | none => none
  | some stopLoss =>
      if signal.action = .buy ∧ settings.riskPerTradePct > 0 ∧ stopLoss < price then
        some (portfolio.totalValue * settings.riskPerTradePct / (price - stopLoss))
      else none

/-- The cash a BUY may spend. -/
def spendable (portfolio : PortfolioState) (cashCap : Option ℚ) : ℚ :=
  max (match cashCap with
    | none => portfolio.cash
    | some cap => min portfolio.cash cap) 0

/-- The size the cash pays for, fees and slippage included. -/
def cashSize (cash price costFactor : ℚ) (costModel : Option CostModel) : ℚ :=
  let fillPrice :=
    match costModel with
    | some c => price * (1 + c.slippagePct)
    | none => price * max costFactor 1
  let affordable :=
    match costModel with
    | some c => c.maxAffordableFillNotional cash
    | none => cash
  if fillPrice > 0 then affordable / fillPrice else 0

/-- The long quantity held in a symbol. -/
def heldLong (portfolio : PortfolioState) (symbol : Symbol) : ℚ :=
  ((portfolio.positions.filter (fun p => p.symbol = symbol ∧ p.side = .long)).map
    Position.quantity).sum

/-- The size of a BUY before it is rounded down. -/
def buySize (signal : TradeSignal) (portfolio : PortfolioState) (settings : RiskSettings)
    (price costFactor : ℚ) (costModel : Option CostModel) (cashCap : Option ℚ) : ℚ :=
  let quantity := maxPositionValue signal portfolio settings / price
  let quantity :=
    match riskSize signal portfolio settings price with
    | some q => min quantity q
    | none => quantity
  min quantity (cashSize (spendable portfolio cashCap) price costFactor costModel)

/-- Position size. A SELL closes the whole long position, exactly. -/
def calculateQuantity (signal : TradeSignal) (portfolio : PortfolioState)
    (settings : RiskSettings) (currentPrice : Option ℚ) (costFactor : ℚ)
    (costModel : Option CostModel) (cashCap : Option ℚ) : ℚ :=
  let price := planPrice signal currentPrice
  let quantity :=
    if signal.action = .buy then
      buySize signal portfolio settings price costFactor costModel cashCap
    else maxPositionValue signal portfolio settings / price
  let held := heldLong portfolio signal.symbol
  if signal.action = .sell ∧ held > 0 then held else floorTo sizeUnit (max quantity 0)

/-! ## What sizing guarantees -/

theorem planPrice_of_pos (signal : TradeSignal) {price : ℚ} (h : 0 < price) :
    planPrice signal (some price) = price := by
  unfold planPrice
  simp only [gt_iff_lt, if_pos h, if_neg (not_le.mpr h)]

theorem calculateQuantity_buy {signal : TradeSignal} (hbuy : signal.action = .buy)
    (portfolio : PortfolioState) (settings : RiskSettings) {price : ℚ} (hp : 0 < price)
    (costFactor : ℚ) (costModel : Option CostModel) (cashCap : Option ℚ) :
    calculateQuantity signal portfolio settings (some price) costFactor costModel cashCap
      = floorTo sizeUnit
          (max (buySize signal portfolio settings price costFactor costModel cashCap) 0) := by
  unfold calculateQuantity
  simp only [hbuy, planPrice_of_pos signal hp, reduceCtorEq, false_and, if_false, if_true]

/-- A BUY is a whole number of units, and never negative. -/
theorem calculateQuantity_buy_grid {signal : TradeSignal} (hbuy : signal.action = .buy)
    (portfolio : PortfolioState) (settings : RiskSettings) {price : ℚ} (hp : 0 < price)
    (costFactor : ℚ) (costModel : Option CostModel) (cashCap : Option ℚ) :
    calculateQuantity signal portfolio settings (some price) costFactor costModel cashCap
        ∈ grid sizeUnit ∧
      0 ≤ calculateQuantity signal portfolio settings (some price) costFactor costModel
        cashCap := by
  rw [calculateQuantity_buy hbuy portfolio settings hp]
  exact ⟨floorTo_mem_grid _ _, floorTo_nonneg sizeUnit_pos (le_max_right _ _)⟩

/-- Every budget of a BUY pays for one unit: the headroom under the position cap, the risk
budget when that rule is on, and the cash with its fees. -/
structure PaysOneUnit (signal : TradeSignal) (portfolio : PortfolioState)
    (settings : RiskSettings) (price : ℚ) (costs : CostModel) (cashCap : Option ℚ) : Prop where
  headroom : sizeUnit * price
    ≤ portfolio.totalValue * settings.maxPositionPct - longExposure portfolio signal.symbol
  risk : ∀ stopLoss, signal.stopLoss = some stopLoss → 0 < settings.riskPerTradePct →
    stopLoss < price →
    sizeUnit * (price - stopLoss) ≤ portfolio.totalValue * settings.riskPerTradePct
  cash : sizeUnit * (price * (1 + costs.slippagePct))
      + costs.totalFee (sizeUnit * (price * (1 + costs.slippagePct)))
    ≤ spendable portfolio cashCap

/-- **When a BUY is not sized to nothing.** The planned quantity is positive exactly when every
budget pays for one unit. -/
theorem calculateQuantity_pos_iff {signal : TradeSignal} (hbuy : signal.action = .buy)
    (portfolio : PortfolioState) (settings : RiskSettings) {price : ℚ} (hp : 0 < price)
    (costFactor : ℚ) (costs : CostModel) (cashCap : Option ℚ) :
    0 < calculateQuantity signal portfolio settings (some price) costFactor (some costs) cashCap
      ↔ PaysOneUnit signal portfolio settings price costs cashCap := by
  have hu := sizeUnit_pos
  have hslip := costs.slippagePct_nonneg
  have hfill : 0 < price * (1 + costs.slippagePct) := by positivity
  rw [calculateQuantity_buy hbuy portfolio settings hp, floorTo_pos_iff hu, le_max_iff,
    or_iff_left (not_le.mpr hu)]
  -- The three budgets, each as an inequality on one unit.
  have hroom : sizeUnit ≤ maxPositionValue signal portfolio settings / price ↔
      sizeUnit * price
        ≤ portfolio.totalValue * settings.maxPositionPct
          - longExposure portfolio signal.symbol := by
    rw [le_div_iff₀ hp]
    simp only [maxPositionValue, hbuy, if_true, le_max_iff]
    have : ¬ sizeUnit * price ≤ 0 := not_le.mpr (by positivity)
    tauto
  have hcash : sizeUnit ≤ cashSize (spendable portfolio cashCap) price costFactor (some costs) ↔
      sizeUnit * (price * (1 + costs.slippagePct))
        + costs.totalFee (sizeUnit * (price * (1 + costs.slippagePct)))
        ≤ spendable portfolio cashCap := by
    simp only [cashSize, gt_iff_lt, if_pos hfill]
    rw [le_div_iff₀ hfill]
    exact costs.le_maxAffordable_iff _ (by positivity)
  have hrisk : (∀ q, riskSize signal portfolio settings price = some q → sizeUnit ≤ q) ↔
      ∀ stopLoss, signal.stopLoss = some stopLoss → 0 < settings.riskPerTradePct →
        stopLoss < price →
        sizeUnit * (price - stopLoss) ≤ portfolio.totalValue * settings.riskPerTradePct := by
    unfold riskSize
    cases hs : signal.stopLoss with
    | none => simp
    | some stopLoss =>
        simp only [hbuy, true_and, Option.some.injEq, forall_eq']
        by_cases hc : settings.riskPerTradePct > 0 ∧ stopLoss < price
        · have hd : 0 < price - stopLoss := sub_pos.mpr hc.2
          rw [if_pos hc]
          simp only [Option.some.injEq, forall_eq', le_div_iff₀ hd]
          exact ⟨fun h _ _ => h, fun h => h hc.1 hc.2⟩
        · rw [if_neg hc]
          simp only [reduceCtorEq, false_imp_iff, implies_true, true_iff]
          intro h1 h2
          exact absurd ⟨h1, h2⟩ hc
  have hmin : sizeUnit ≤ buySize signal portfolio settings price costFactor (some costs) cashCap ↔
      sizeUnit ≤ maxPositionValue signal portfolio settings / price ∧
      (∀ q, riskSize signal portfolio settings price = some q → sizeUnit ≤ q) ∧
      sizeUnit ≤ cashSize (spendable portfolio cashCap) price costFactor (some costs) := by
    unfold buySize
    cases riskSize signal portfolio settings price with
    | none => simp
    | some q => simp [and_assoc]
  rw [hmin, hroom, hrisk, hcash]
  exact ⟨fun h => ⟨h.1, h.2.1, h.2.2⟩, fun h => ⟨h.headroom, h.risk, h.cash⟩⟩

end SmartyTrader
