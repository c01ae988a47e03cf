import SmartyTrader.Execution.PaperExecutor

set_option autoImplicit false

/-! # What a planned size is good for

The size of a BUY is planned once, and three other places recompute a bound on it: the position
cap of the risk engine, the risk budget at the stop, and the cash check of the paper executor. A
planned size passes all of them.
-/

namespace SmartyTrader

open Lib

/-- The order is refused for want of cash. -/
def PaperExecutor.RefusesForCash (e : PaperExecutor) (req : OrderRequest) (orderId : OrderId)
    (now : Time) : Prop :=
  ∃ result need cash, (e.placeOrder req orderId now).1 = .ok result ∧
    result.reason = some (.insufficientCash need cash)

/-- The cash a paper executor has for a plan: the portfolio's, or the cap where it is smaller. -/
def cashFor (portfolio : PortfolioState) (cashCap : Option ℚ) : ℚ :=
  match cashCap with
  | none => portfolio.cash
  | some cap => min portfolio.cash cap

/-- The bounds the rest of the program puts on the size of a BUY at a price. -/
structure WithinBounds (signal : TradeSignal) (portfolio : PortfolioState) (settings : RiskSettings)
    (price : ℚ) (costs : CostModel) (cashCap : Option ℚ) (q : ℚ) : Prop where
  nonneg : 0 ≤ q
  cap : longExposure portfolio signal.symbol + q * price
    ≤ max (longExposure portfolio signal.symbol) (settings.maxPositionPct * portfolio.totalValue)
  gate : ∀ engine : RiskEngine, engine.settings = settings →
    longExposure portfolio signal.symbol
      < settings.maxPositionPct * portfolio.totalValue * (1 - RiskEngine.capTolerance) →
    engine.checkPositionSize signal portfolio (some (q * price)) = .approved
  risk : ∀ stopLoss, signal.stopLoss = some stopLoss → 0 < settings.riskPerTradePct →
    stopLoss < price → (price - stopLoss) * q ≤ settings.riskPerTradePct * portfolio.totalValue
  cash : ∀ (e : PaperExecutor) (req : OrderRequest) (orderId : OrderId) (now : Time),
    e.cash = cashFor portfolio cashCap → 0 ≤ e.cash → e.costs = costs → req.side = .buy →
    req.quantity = q → e.effectivePrice req = some price → ¬ e.RefusesForCash req orderId now

section Buy

variable {signal : TradeSignal} {portfolio : PortfolioState} {settings : RiskSettings} {price : ℚ}
  (costFactor : ℚ) (costs : CostModel) (cashCap : Option ℚ)

/-- The size before rounding is at most each budget. -/
theorem buySize_le :
    buySize signal portfolio settings price costFactor (some costs) cashCap
        ≤ maxPositionValue signal portfolio settings / price ∧
      (∀ q, riskSize signal portfolio settings price = some q →
        buySize signal portfolio settings price costFactor (some costs) cashCap ≤ q) ∧
      buySize signal portfolio settings price costFactor (some costs) cashCap
        ≤ cashSize (spendable portfolio cashCap) price costFactor (some costs) := by
  unfold buySize
  cases riskSize signal portfolio settings price with
  | none => exact ⟨min_le_left _ _, fun q hq => (nomatch hq), min_le_right _ _⟩
  | some r =>
      refine ⟨(min_le_left _ _).trans (min_le_left _ _), fun q hq => ?_, min_le_right _ _⟩
      obtain rfl := Option.some.inj hq
      exact (min_le_left _ _).trans (min_le_right _ _)

/-- A budget that is not negative bounds the planned size. -/
theorem planned_le (hbuy : signal.action = .buy) (hp : 0 < price) {budget : ℚ}
    (hbudget : 0 ≤ budget)
    (hle : buySize signal portfolio settings price costFactor (some costs) cashCap ≤ budget) :
    calculateQuantity signal portfolio settings (some price) costFactor (some costs) cashCap
      ≤ budget := by
  rw [calculateQuantity_buy hbuy portfolio settings hp]
  exact (floorTo_le sizeUnit_pos _).trans (max_le hle hbudget)

/-- The notional of a planned size fits under the position cap. -/
theorem planned_notional_le (hbuy : signal.action = .buy) (hp : 0 < price) :
    calculateQuantity signal portfolio settings (some price) costFactor (some costs) cashCap * price
      ≤ max 0 (portfolio.totalValue * settings.maxPositionPct
          - longExposure portfolio signal.symbol) := by
  have hroom : maxPositionValue signal portfolio settings
      = max 0 (portfolio.totalValue * settings.maxPositionPct
          - longExposure portfolio signal.symbol) := by
    unfold maxPositionValue
    rw [if_pos hbuy]
  have hle := planned_le costFactor costs cashCap hbuy hp (by rw [hroom]; positivity)
    (buySize_le costFactor costs cashCap).1
  rw [le_div_iff₀ hp, hroom] at hle
  exact hle

/-- With what is held already, a planned size stays under the cap, or what is held is above it. -/
theorem planned_le_cap (hbuy : signal.action = .buy) (hp : 0 < price) :
    longExposure portfolio signal.symbol
        + calculateQuantity signal portfolio settings (some price) costFactor (some costs) cashCap
          * price
      ≤ max (longExposure portfolio signal.symbol)
        (settings.maxPositionPct * portfolio.totalValue) := by
  have hnotional : calculateQuantity signal portfolio settings (some price) costFactor (some costs)
      cashCap * price ≤ _ := planned_notional_le costFactor costs cashCap hbuy hp
  rw [mul_comm portfolio.totalValue] at hnotional
  rcases le_total (settings.maxPositionPct * portfolio.totalValue)
      (longExposure portfolio signal.symbol) with hfull | hroom
  · rw [max_eq_left (by linarith)] at hnotional
    exact le_trans (by linarith) (le_max_left _ _)
  · rw [max_eq_right (by linarith)] at hnotional
    exact le_trans (by linarith) (le_max_right _ _)

/-- A planned size loses at most the risk budget at the stop. -/
theorem planned_risk_le (hbuy : signal.action = .buy) (hp : 0 < price)
    (htotal : 0 < portfolio.totalValue) {stopLoss : ℚ} (hstop : signal.stopLoss = some stopLoss)
    (hpct : 0 < settings.riskPerTradePct) (hbelow : stopLoss < price) :
    (price - stopLoss)
        * calculateQuantity signal portfolio settings (some price) costFactor (some costs) cashCap
      ≤ settings.riskPerTradePct * portfolio.totalValue := by
  have hdistance : 0 < price - stopLoss := sub_pos.mpr hbelow
  have hsize : riskSize signal portfolio settings price
      = some (portfolio.totalValue * settings.riskPerTradePct / (price - stopLoss)) := by
    unfold riskSize
    rw [hstop]
    exact if_pos ⟨hbuy, hpct, hbelow⟩
  have hle := planned_le costFactor costs cashCap hbuy hp (by positivity)
    ((buySize_le costFactor costs cashCap).2.1 _ hsize)
  rw [le_div_iff₀ hdistance] at hle
  linarith

/-- A planned size at the slipped price is paid by the cash it was planned with. -/
theorem planned_cost_le (hbuy : signal.action = .buy) (hp : 0 < price)
    (hcash : 0 ≤ cashFor portfolio cashCap) :
    calculateQuantity signal portfolio settings (some price) costFactor (some costs) cashCap
          * (price * (1 + costs.slippagePct))
        + costs.totalFee
          (calculateQuantity signal portfolio settings (some price) costFactor (some costs) cashCap
            * (price * (1 + costs.slippagePct)))
      ≤ cashFor portfolio cashCap := by
  have hslip := costs.slippagePct_nonneg
  have hfill : 0 < price * (1 + costs.slippagePct) := by positivity
  have hspend : spendable portfolio cashCap = cashFor portfolio cashCap := max_eq_left hcash
  have hsize : cashSize (spendable portfolio cashCap) price costFactor (some costs)
      = costs.maxAffordableFillNotional (cashFor portfolio cashCap)
        / (price * (1 + costs.slippagePct)) := by
    simp only [cashSize, gt_iff_lt, if_pos hfill, hspend]
  have haffordable := costs.maxAffordable_nonneg (cashFor portfolio cashCap)
  have hbudget : buySize signal portfolio settings price costFactor (some costs) cashCap
      ≤ cashSize (spendable portfolio cashCap) price costFactor (some costs) :=
    (buySize_le costFactor costs cashCap).2.2
  have hle := planned_le costFactor costs cashCap hbuy hp (by rw [hsize]; positivity) hbudget
  rw [hsize, le_div_iff₀ hfill] at hle
  rcases le_or_gt (calculateQuantity signal portfolio settings (some price) costFactor (some costs)
      cashCap * (price * (1 + costs.slippagePct))) 0 with hnone | hsome
  · -- Nothing is bought, and that costs nothing.
    rw [costs.totalFee_of_nonpos hnone]
    linarith
  · exact (costs.le_maxAffordable_iff _ hsome).mp hle

end Buy

/-- The position rule approves a plan that stays under the cap, when there is room under it. -/
theorem gate_approves {signal : TradeSignal} {portfolio : PortfolioState} {settings : RiskSettings}
    (engine : RiskEngine) (hsettings : engine.settings = settings) (hbuy : signal.action = .buy)
    (htotal : 0 < portfolio.totalValue) (hpct : 0 ≤ settings.maxPositionPct)
    (hroom : longExposure portfolio signal.symbol
      < settings.maxPositionPct * portfolio.totalValue * (1 - RiskEngine.capTolerance))
    {notional : ℚ}
    (hplan : longExposure portfolio signal.symbol + notional
      ≤ max (longExposure portfolio signal.symbol)
        (settings.maxPositionPct * portfolio.totalValue)) :
    engine.checkPositionSize signal portfolio (some notional) = .approved := by
  have hcap : 0 ≤ settings.maxPositionPct * portfolio.totalValue := by positivity
  have hbelow : longExposure portfolio signal.symbol
      ≤ settings.maxPositionPct * portfolio.totalValue := by
    refine hroom.le.trans (mul_le_of_le_one_right hcap ?_)
    norm_num [RiskEngine.capTolerance]
  rw [max_eq_right hbelow] at hplan
  have hwide : settings.maxPositionPct * portfolio.totalValue
      ≤ settings.maxPositionPct * portfolio.totalValue * (1 + RiskEngine.planTolerance) := by
    refine le_mul_of_one_le_right hcap ?_
    norm_num [RiskEngine.planTolerance]
  unfold RiskEngine.checkPositionSize
  simp only [hbuy, hsettings, if_true, true_and]
  rw [if_neg (not_le.mpr htotal), if_neg (not_le.mpr hroom),
    if_neg (not_lt.mpr (hplan.trans hwide))]

/-- A BUY is refused for want of cash only when it costs more than the cash. -/
theorem PaperExecutor.not_refusesForCash (e : PaperExecutor) {req : OrderRequest}
    (orderId : OrderId) (now : Time) (hside : req.side = .buy) {price : ℚ}
    (hprice : e.effectivePrice req = some price)
    (hcost : req.quantity * (price * (1 + e.costs.slippagePct))
      + e.costs.totalFee (req.quantity * (price * (1 + e.costs.slippagePct))) ≤ e.cash) :
    ¬ e.RefusesForCash req orderId now := by
  rintro ⟨result, need, cash, hresult, hreason⟩
  unfold placeOrder at hresult
  rw [hprice] at hresult
  simp only [hside, applySlippage] at hresult
  unfold executeBuy at hresult
  rw [if_neg (not_lt.mpr hcost)] at hresult
  have hfilled : ∀ (r : OrderRequest) (p : ℚ), (filled orderId r p now).reason = none :=
    fun _ _ => rfl
  split at hresult
  · rename_i heq
    have hok := Except.ok.inj hresult
    subst hok
    split at heq
    · split_ifs at heq
      · cases heq
      · obtain ⟨hr, -⟩ := Prod.mk.inj heq
        rw [← Except.ok.inj hr, hfilled] at hreason
        cases hreason
    · obtain ⟨hr, -⟩ := Prod.mk.inj heq
      rw [← Except.ok.inj hr, hfilled] at hreason
      cases hreason
  · cases hresult

/-- **Planned sizes satisfy every downstream bound.** The size of a BUY is within the bounds of
the position cap, of the risk budget and of the paper executor's cash; the size of a SELL of a
held symbol is the held long quantity. -/
theorem planned_size_bounds (signal : TradeSignal) (portfolio : PortfolioState)
    (settings : RiskSettings) {price : ℚ} (costFactor : ℚ) (costs : CostModel)
    (cashCap : Option ℚ) (hp : 0 < price) (htotal : 0 < portfolio.totalValue)
    (hpct : 0 ≤ settings.maxPositionPct) :
    (signal.action = .buy →
      WithinBounds signal portfolio settings price costs cashCap
        (calculateQuantity signal portfolio settings (some price) costFactor (some costs)
          cashCap)) ∧
      (signal.action = .sell → 0 < heldLong portfolio signal.symbol →
        calculateQuantity signal portfolio settings (some price) costFactor (some costs) cashCap
          = heldLong portfolio signal.symbol) := by
  constructor
  · intro hbuy
    exact
      { nonneg := (calculateQuantity_buy_grid hbuy portfolio settings hp _ _ _).2
        cap := planned_le_cap costFactor costs cashCap hbuy hp
        gate := fun engine hsettings hroom =>
          gate_approves engine hsettings hbuy htotal hpct hroom
            (planned_le_cap costFactor costs cashCap hbuy hp)
        risk := fun stopLoss hstop hpct hbelow =>
          planned_risk_le costFactor costs cashCap hbuy hp htotal hstop hpct hbelow
        cash := fun e req orderId now hcash hnonneg hcosts hside hquantity hprice =>
          e.not_refusesForCash orderId now hside hprice (by
            subst hcosts
            rw [hquantity, hcash]
            exact planned_cost_le costFactor e.costs cashCap hbuy hp (hcash ▸ hnonneg)) }
  · intro hsell hheld
    unfold calculateQuantity
    exact if_pos ⟨hsell, hheld⟩

/-! ## A cap below zero -/

/-- A confident BUY with a stop. -/
def stoppedBuy : TradeSignal where
  symbol := "BTC/EUR"
  action := .buy
  confidence := 1
  reasoning := ""
  stopLoss := some 90
  takeProfit := none
  isFallback := false
  confidence_nonneg := by norm_num
  confidence_le_one := by norm_num

/-- A portfolio of cash only. -/
def thousandCash : PortfolioState where
  cash := 1000
  positions := []
  pendingValue := 0

/-- The order for a planned size at its price. -/
def plannedOrder (q price : ℚ) : OrderRequest where
  symbol := "BTC/EUR"
  side := .buy
  quantity := q
  price := some price
  decisionId := none
  stopLoss := none
  takeProfit := none

/-- Under a cap below zero nothing is planned, and an executor that holds the cap cannot even pay
for that. -/
theorem negative_cap_refused :
    let q := calculateQuantity stoppedBuy thousandCash RiskSettings.default (some 100) 1
      (some CostModel.free) (some (-5))
    let e := PaperExecutor.create (-5) CostModel.free
    e.cash = cashFor thousandCash (some (-5)) ∧ q = 0 ∧
      e.RefusesForCash (plannedOrder q 100) "1" 0 := by
  have hnothing : calculateQuantity stoppedBuy thousandCash RiskSettings.default (some 100) 1
      (some CostModel.free) (some (-5)) = 0 := by decide +kernel
  refine ⟨by decide +kernel, hnothing, ?_⟩
  rw [hnothing]
  exact ⟨OrderResult.basic "1" "BTC/EUR" .buy 0 (some 100) .rejected
    (some (.insufficientCash 0 (-5))), 0, -5, by decide +kernel, rfl⟩

theorem planned_size_bounds_entry :
    WithinBounds stoppedBuy thousandCash RiskSettings.default 100 CostModel.free (some 500)
        (calculateQuantity stoppedBuy thousandCash RiskSettings.default (some 100) 1
          (some CostModel.free) (some 500)) ∧
      calculateQuantity stoppedBuy thousandCash RiskSettings.default (some 100) 1
        (some CostModel.free) (some 500) = 1 :=
  ⟨(planned_size_bounds stoppedBuy thousandCash RiskSettings.default 1 CostModel.free (some 500)
      (by norm_num) (by decide +kernel) (by decide +kernel)).1 rfl, by decide +kernel⟩

end SmartyTrader
