import SmartyTrader.Execution.PaperExecutor
import SmartyTrader.Lib.Runs

set_option autoImplicit false

/-! # Solvency of the paper executor

A BUY is refused when it costs more than the cash. A SELL adds its proceeds less a fee with a fixed
minimum and is never checked, so a small sale out of little cash ends below zero. The cash of a run
stays non-negative exactly when every sale that fills covers its own fee together with the cash
before it (`cash_nonneg_iff`).
-/

namespace SmartyTrader

open Lib

namespace PaperExecutor

/-- A positive quantity, and a positive price wherever one is given. -/
def Op.Positive : Op → Prop
  | .place req _ _ => 0 < req.quantity ∧ ∀ price ∈ req.price, 0 < price
  | .mark _ price => 0 < price

/-- The portfolio after a call. -/
def after (op : Op) (e : PaperExecutor) : PaperExecutor := (e.step op).2

theorem run_eq_run (e : PaperExecutor) (ops : List Op) : (e.run ops).2 = Lib.run after ops e := by
  induction ops generalizing e with
  | nil => rfl
  | cons op ops ih => exact ih (e.step op).2

/-! ## The condition on a sale -/

/-- A sale of `proceeds` covers its fee: the cash and what conversion leaves of the proceeds pay the
minimum commission, and the cash pays what the two percentages take beyond the proceeds. -/
def Covers (costs : CostModel) (cash proceeds : ℚ) : Prop :=
  costs.minCommission ≤ cash + proceeds * (1 - costs.fxFeePct) ∧
    proceeds * (costs.feePct + costs.fxFeePct - 1) ≤ cash

/-- If the call is a sale that finds its position, the sale covers its fee. -/
def Op.Covered : Op → PaperExecutor → Prop
  | .place req _ _, e =>
      ∀ price pos, req.side = .sell → e.effectivePrice req = some price →
        e.positions.get? req.symbol = some pos → req.quantity ≤ pos.quantity →
        Covers e.costs e.cash (req.quantity * (price * (1 - e.costs.slippagePct)))
  | .mark _ _, _ => True

theorem covers_iff (costs : CostModel) (cash : ℚ) {proceeds : ℚ} (h : 0 < proceeds) :
    0 ≤ cash + (proceeds - costs.totalFee proceeds) ↔ Covers costs cash proceeds := by
  rw [costs.totalFee_of_pos h, Covers]
  constructor
  · intro hcash
    have hpct := le_max_left (proceeds * costs.feePct) costs.minCommission
    have hmin := le_max_right (proceeds * costs.feePct) costs.minCommission
    constructor
    · linarith
    · linarith
  · rintro ⟨hmin, hpct⟩
    have hmax : max (proceeds * costs.feePct) costs.minCommission ≤
        cash + proceeds * (1 - costs.fxFeePct) := max_le (by linarith) hmin
    linarith

/-- Percentages that leave something of the proceeds and no minimum: every sale covers its fee. -/
theorem covers_of_no_minimum {costs : CostModel} {cash proceeds : ℚ} (hcash : 0 ≤ cash)
    (hproceeds : 0 ≤ proceeds) (hmin : costs.minCommission = 0)
    (hpct : costs.feePct + costs.fxFeePct ≤ 1) : Covers costs cash proceeds := by
  have hfee := costs.feePct_nonneg
  constructor
  · rw [hmin]
    have : 0 ≤ proceeds * (1 - costs.fxFeePct) := mul_nonneg hproceeds (by linarith)
    linarith
  · have : proceeds * (costs.feePct + costs.fxFeePct - 1) ≤ 0 :=
      mul_nonpos_of_nonneg_of_nonpos hproceeds (by linarith)
    linarith

/-! ## One call -/

/-- Slippage takes less than the whole price, and every open position has a positive mark. -/
structure Priced (e : PaperExecutor) : Prop where
  slippage : e.costs.slippagePct < 1
  marks : ∀ s pos, e.positions.get? s = some pos → 0 < pos.currentPrice

/-- The price before slippage is positive. -/
theorem Priced.effectivePrice {e : PaperExecutor} (h : e.Priced) {req : OrderRequest}
    (hreq : ∀ price ∈ req.price, 0 < price) {price : ℚ} (hp : e.effectivePrice req = some price) :
    0 < price := by
  unfold PaperExecutor.effectivePrice at hp
  cases hgiven : req.price with
  | some given =>
      rw [hgiven] at hp
      cases hp
      exact hreq _ hgiven
  | none =>
      rw [hgiven] at hp
      obtain ⟨pos, hpos, rfl⟩ := Option.map_eq_some_iff.mp hp
      exact h.marks _ _ hpos

/-- The open positions after a booked buy: the marks of the old ones, and the fill price. -/
theorem marks_bought {e : PaperExecutor} {req : OrderRequest} {price : ℚ} (hprice : 0 < price)
    (h : ∀ s pos, e.positions.get? s = some pos → 0 < pos.currentPrice) {s : Symbol}
    {pos : Position} (hpos : (e.bought req price).positions.get? s = some pos) :
    0 < pos.currentPrice := by
  rw [bought, Dict.get?_set] at hpos
  by_cases hs : req.symbol = s
  · rw [if_pos hs] at hpos
    cases hpos
    unfold positionAfter
    split
    next old hold => exact h req.symbol old hold
    next => exact hprice
  · rw [if_neg hs] at hpos
    exact h _ _ hpos

theorem marks_sold {e : PaperExecutor} {req : OrderRequest} {price : ℚ} {old : Position}
    (hold : e.positions.get? req.symbol = some old)
    (h : ∀ s pos, e.positions.get? s = some pos → 0 < pos.currentPrice) {s : Symbol}
    {pos : Position} (hpos : (e.sold req price old).positions.get? s = some pos) :
    0 < pos.currentPrice := by
  simp only [sold] at hpos
  split_ifs at hpos
  · rw [Dict.get?_erase] at hpos
    by_cases hs : req.symbol = s
    · simp [hs] at hpos
    · rw [if_neg hs] at hpos
      exact h _ _ hpos
  · rw [Dict.get?_set] at hpos
    by_cases hs : req.symbol = s
    · rw [if_pos hs] at hpos
      cases hpos
      exact h req.symbol old hold
    · rw [if_neg hs] at hpos
      exact h _ _ hpos

/-- A BUY pays what it can or nothing. -/
theorem executeBuy_solvent {e : PaperExecutor} (h : e.Priced) (req : OrderRequest) {price : ℚ}
    (hprice : 0 < price) (orderId : OrderId) (now : Time) :
    (e.executeBuy req price orderId now).2.Priced ∧
      (0 ≤ e.cash → 0 ≤ (e.executeBuy req price orderId now).2.cash) := by
  unfold executeBuy
  by_cases hcost : req.quantity * price + e.costs.totalFee (req.quantity * price) > e.cash
  · rw [if_pos hcost]
    exact ⟨h, id⟩
  · have hpays := not_lt.mp hcost
    have hbought : (e.bought req price).Priced ∧ (0 ≤ e.cash → 0 ≤ (e.bought req price).cash) :=
      ⟨⟨h.slippage, fun s pos hpos => marks_bought hprice h.marks hpos⟩,
        fun _ => sub_nonneg.mpr hpays⟩
    rw [if_neg hcost]
    split
    · split
      · exact ⟨⟨h.slippage, h.marks⟩, fun _ => sub_nonneg.mpr hpays⟩
      · exact hbought
    · exact hbought

theorem priced_executeSell {e : PaperExecutor} (h : e.Priced) (req : OrderRequest) (price : ℚ)
    (orderId : OrderId) (now : Time) : (e.executeSell req price orderId now).2.Priced := by
  unfold executeSell
  split
  · exact h
  next pos hpos =>
    split
    · exact h
    · exact ⟨h.slippage, fun s p hp => marks_sold hpos h.marks hp⟩

/-- A SELL keeps the cash non-negative exactly when it covers its fee. -/
theorem executeSell_solvent {e : PaperExecutor} {req : OrderRequest} {price : ℚ}
    (hprice : 0 < price) (hq : 0 < req.quantity) (hcash : 0 ≤ e.cash) (orderId : OrderId)
    (now : Time) :
    0 ≤ (e.executeSell req price orderId now).2.cash ↔
      ∀ pos, e.positions.get? req.symbol = some pos → req.quantity ≤ pos.quantity →
        Covers e.costs e.cash (req.quantity * price) := by
  unfold executeSell
  cases hpos : e.positions.get? req.symbol with
  | none => simpa using hcash
  | some pos =>
      by_cases hheld : pos.quantity < req.quantity
      · simp only [if_pos hheld]
        refine ⟨fun _ pos' hpos' hle => ?_, fun _ => hcash⟩
        cases hpos'
        exact absurd hheld (not_lt.mpr hle)
      · simp only [if_neg hheld]
        have hcovers := covers_iff e.costs e.cash (mul_pos hq hprice)
        constructor
        · intro hafter _ _ _
          exact hcovers.mp hafter
        · intro hall
          exact hcovers.mpr (hall pos rfl (not_lt.mp hheld))

theorem priced_updatePrice {e : PaperExecutor} (h : e.Priced) (s : Symbol) {price : ℚ}
    (hprice : 0 < price) : (e.updatePrice s price).Priced ∧ (e.updatePrice s price).cash = e.cash := by
  unfold updatePrice
  split
  next pos hpos =>
    refine ⟨⟨h.slippage, fun s' p hp => ?_⟩, rfl⟩
    rw [Dict.get?_set] at hp
    split_ifs at hp
    · cases hp
      exact hprice
    · exact h.marks _ _ hp
  next => exact ⟨h, rfl⟩

/-- An order keeps every mark positive, and the cash non-negative exactly when it is covered. -/
theorem placeOrder_solvent {e : PaperExecutor} (h : e.Priced) (req : OrderRequest)
    (orderId : OrderId) (now : Time) (hop : (Op.place req orderId now).Positive) :
    (e.placeOrder req orderId now).2.Priced ∧
      (0 ≤ e.cash → (0 ≤ (e.placeOrder req orderId now).2.cash ↔
        (Op.place req orderId now).Covered e)) := by
  obtain ⟨hq, hgiven⟩ := hop
  have hslip := h.slippage
  have hslip0 := e.costs.slippagePct_nonneg
  unfold placeOrder
  cases hp : e.effectivePrice req with
  | none =>
      refine ⟨h, fun hcash => ⟨fun _ price pos _ hprice => ?_, fun _ => hcash⟩⟩
      rw [hp] at hprice
      cases hprice
  | some price =>
      have hprice := h.effectivePrice hgiven hp
      cases hside : req.side with
      | buy =>
          have hfill : 0 < e.applySlippage .buy price := mul_pos hprice (by linarith)
          obtain ⟨hpriced, hcash⟩ := executeBuy_solvent h req hfill orderId now
          have hcovered : Op.Covered (.place req orderId now) e := by
            intro _ _ hsell
            rw [hside] at hsell
            cases hsell
          dsimp only
          split
          next result e' hbuy =>
            rw [hbuy] at hpriced hcash
            exact ⟨⟨hpriced.slippage, hpriced.marks⟩,
              fun h0 => ⟨fun _ => hcovered, fun _ => hcash h0⟩⟩
          next err e' hbuy =>
            rw [hbuy] at hpriced hcash
            exact ⟨hpriced, fun h0 => ⟨fun _ => hcovered, fun _ => hcash h0⟩⟩
      | sell =>
          have hfill : 0 < e.applySlippage .sell price := mul_pos hprice (by linarith)
          have hpriced := priced_executeSell h req (e.applySlippage .sell price) orderId now
          refine ⟨⟨hpriced.slippage, hpriced.marks⟩, fun hcash => ?_⟩
          have hsell := executeSell_solvent hfill hq hcash orderId now
          constructor
          · intro hafter price' pos _ hp' hpos hle
            rw [hp] at hp'
            cases hp'
            exact hsell.mp hafter pos hpos hle
          · intro hall
            exact hsell.mpr fun pos hpos hle => hall price pos hside hp hpos hle

theorem after_place (e : PaperExecutor) (req : OrderRequest) (orderId : OrderId) (now : Time) :
    after (.place req orderId now) e = (e.placeOrder req orderId now).2 := by
  unfold after step
  dsimp only
  split
  next hplace => rw [hplace]
  next hplace => rw [hplace]

theorem after_solvent {e : PaperExecutor} (h : e.Priced) (op : Op) (hop : op.Positive) :
    (after op e).Priced ∧ (0 ≤ e.cash → (0 ≤ (after op e).cash ↔ op.Covered e)) := by
  cases op with
  | mark s price =>
      obtain ⟨hpriced, hsame⟩ := priced_updatePrice h s hop
      refine ⟨hpriced, fun hcash => ⟨fun _ => trivial, fun _ => ?_⟩⟩
      exact hsame.symm ▸ hcash
  | place req orderId now =>
      rw [after_place]
      exact placeOrder_solvent h req orderId now hop

/-! ## Runs -/

/-- From any starting cash and any schedule of fees, over every sequence of orders of positive
quantities and prices and of positive marks: the cash is non-negative after every call exactly when
each sale that fills covers its own fee together with the cash it finds. -/
theorem cash_nonneg_iff (initialCash : ℚ) (costs : CostModel) (ops : List Op)
    (hcash : 0 ≤ initialCash) (hslippage : costs.slippagePct < 1)
    (hops : ∀ op ∈ ops, op.Positive) :
    (∀ before rest, ops = before ++ rest → 0 ≤ ((create initialCash costs).run before).2.cash) ↔
      EachStep after Op.Covered ops (create initialCash costs) := by
  have hstart : (create initialCash costs).Priced := ⟨hslippage, fun s pos hpos => by cases hpos⟩
  have hall : ∀ (xs : List Op) (e : PaperExecutor), (∀ op ∈ xs, op.Positive) →
      EachStep after (fun op _ => op.Positive) xs e := by
    intro xs
    induction xs with
    | nil => exact fun _ _ => trivial
    | cons op xs ih =>
        intro e h
        exact ⟨h op List.mem_cons_self, ih _ fun o ho => h o (List.mem_cons_of_mem _ ho)⟩
  have hpriced : ∀ op e, Op.Positive op → Priced e → Priced (after op e) :=
    fun op e hop h => (after_solvent h op hop).1
  have hcovered : ∀ op e, Op.Positive op → Priced e → 0 ≤ e.cash →
      (0 ≤ (after op e).cash ↔ Op.Covered op e) :=
    fun op e hop h h0 => (after_solvent h op hop).2 h0
  have hiff := forall_prefix_iff (J := fun e => 0 ≤ e.cash) hpriced hcovered ops
    (hall ops _ hops) hstart hcash
  simp only [run_eq_run]
  exact hiff

/-- A minimum commission of one unit of cash, and no other cost. -/
def minimumOnly : CostModel := { CostModel.free with
  minCommission := 1
  minCommission_nonneg := roundTripCosts.minCommission_nonneg }

def buyOne : Op := .place ⟨"AAPL", .buy, 1, some 100, none, none, none⟩ "paper-1" 0

/-- A sale of a small part of the position, worth half of its own commission. -/
def sellLittle : Op := .place ⟨"AAPL", .sell, 1 / 200, some 100, none, none, none⟩ "paper-2" 1

/-- A sale of half of the position, which brings more than its commission. -/
def sellHalf : Op := .place ⟨"AAPL", .sell, 1 / 2, some 100, none, none, none⟩ "paper-2" 1

theorem cash_nonneg_iff_sellHalf :
    (∀ before rest, [buyOne, sellHalf] = before ++ rest →
        0 ≤ ((create 101 minimumOnly).run before).2.cash) ↔
      EachStep after Op.Covered [buyOne, sellHalf] (create 101 minimumOnly) := by
  apply cash_nonneg_iff 101 minimumOnly [buyOne, sellHalf] (by decide) (by decide)
  intro op hop
  rcases List.mem_cons.mp hop with rfl | hop
  · exact ⟨by decide, fun price hprice => by cases hprice; decide⟩
  · rw [List.mem_singleton.mp hop]
    exact ⟨by decide +kernel, fun price hprice => by cases hprice; decide⟩

/-- All the cash goes into the position, and the small sale then costs more than it brings. -/
theorem cash_negative_sellLittle :
    ((create 101 minimumOnly).run [buyOne, sellLittle]).2.cash < 0 := by
  decide +kernel

end PaperExecutor

end SmartyTrader
