import SmartyTrader.Core.Sizing
import SmartyTrader.Execution.PositionTracker

set_option autoImplicit false

/-! # Paper executor

Simulated order execution with an in-memory portfolio. Orders fill at once at the requested
price moved by the slippage, or are rejected. Three records of the same facts are kept side by
side: the cash, the averaged position book and the FIFO ledger. The last section states the
accounting identity that ties them together over every sequence of orders.
-/

namespace SmartyTrader

open Lib

/-- The in-memory portfolio. `costs` stands for the live attributes `slippage_pct`, `fee_pct`,
`min_commission` and `fx_fee_pct`, which every fill reads through `CostModel.from_attrs`. -/
structure PaperExecutor where
  cash : ℚ
  costs : CostModel
  positions : Dict Symbol Position
  tracker : PositionTracker
  orders : Dict OrderId OrderResult

namespace PaperExecutor

/-- A new executor. -/
def create (initialCash : ℚ) (costs : CostModel) : PaperExecutor :=
  ⟨initialCash, costs, Dict.empty, PositionTracker.empty, Dict.empty⟩

/-- A filled result. -/
def filled (orderId : OrderId) (req : OrderRequest) (price : ℚ) (filledAt : Time) : OrderResult :=
  { OrderResult.basic orderId req.symbol req.side req.quantity (some price) .filled none with
    filledAt := some filledAt }

/-- The averaged position after adding to it; the latest plan wins level by level. -/
def mergePosition (pos : Position) (req : OrderRequest) (price : ℚ) : Position :=
  { pos with
    quantity := pos.quantity + req.quantity
    avgEntryPrice :=
      (pos.avgEntryPrice * pos.quantity + price * req.quantity) / (pos.quantity + req.quantity)
    stopLoss := req.stopLoss.or pos.stopLoss
    takeProfit := req.takeProfit.or pos.takeProfit }

def openPosition (req : OrderRequest) (price : ℚ) : Position where
  symbol := req.symbol
  quantity := req.quantity
  avgEntryPrice := price
  currentPrice := price
  side := .long
  stopLoss := req.stopLoss
  takeProfit := req.takeProfit

/-- The position a buy leads to. -/
def positionAfter (e : PaperExecutor) (req : OrderRequest) (price : ℚ) : Position :=
  match e.positions.get? req.symbol with
  | some pos => mergePosition pos req price
  | none => openPosition req price

/-- The portfolio after a buy that was paid and booked. -/
def bought (e : PaperExecutor) (req : OrderRequest) (price : ℚ) : PaperExecutor :=
  let cost := req.quantity * price
  let fee := e.costs.totalFee cost
  { e with
    cash := e.cash - (cost + fee)
    positions := e.positions.set req.symbol (e.positionAfter req price)
    tracker := e.tracker.onBuy req.symbol req.quantity price fee req.decisionId }

/-- `_execute_buy`. The averaging divides by the merged quantity, after the cash has left. -/
def executeBuy (e : PaperExecutor) (req : OrderRequest) (price : ℚ) (orderId : OrderId)
    (filledAt : Time) : Except PyError OrderResult × PaperExecutor :=
  let cost := req.quantity * price
  let total := cost + e.costs.totalFee cost
  if total > e.cash then
    (.ok (OrderResult.basic orderId req.symbol .buy req.quantity (some price) .rejected
      (some (.insufficientCash total e.cash))), e)
  else
    match e.positions.get? req.symbol with
    | some pos =>
        if pos.quantity + req.quantity = 0 then
          (.error .zeroDivision, { e with cash := e.cash - total })
        else (.ok (filled orderId { req with side := .buy } price filledAt), e.bought req price)
    | none => (.ok (filled orderId { req with side := .buy } price filledAt), e.bought req price)

/-- What a closing fill realizes, and the ledger after it. -/
def realize (e : PaperExecutor) (req : OrderRequest) (price : ℚ) : SellOutcome × PositionTracker :=
  e.tracker.onSell req.symbol req.quantity price (e.costs.totalFee (req.quantity * price))

/-- The portfolio after a sell of part or all of `pos`. -/
def sold (e : PaperExecutor) (req : OrderRequest) (price : ℚ) (pos : Position) : PaperExecutor :=
  let proceeds := req.quantity * price
  let sellFee := e.costs.totalFee proceeds
  let pos' := { pos with quantity := pos.quantity - req.quantity }
  { e with
    cash := e.cash + (proceeds - sellFee)
    tracker := (e.realize req price).2
    positions :=
      if pos'.quantity ≤ lotEpsilon then e.positions.erase req.symbol
      else e.positions.set req.symbol pos' }

/-- The result of a sell that found `available` units. -/
def insufficientPosition (orderId : OrderId) (req : OrderRequest) (price available : ℚ) :
    OrderResult :=
  OrderResult.basic orderId req.symbol .sell req.quantity (some price) .rejected
    (some (.insufficientPosition req.quantity available))

/-- The result of a sell that filled. -/
def closed (e : PaperExecutor) (orderId : OrderId) (req : OrderRequest) (price : ℚ)
    (filledAt : Time) : OrderResult :=
  let outcome := (e.realize req price).1
  { filled orderId { req with side := .sell } price filledAt with
    realizedPnl := some outcome.netPnl
    closedEntries := outcome.closedEntries }

/-- `_execute_sell`. -/
def executeSell (e : PaperExecutor) (req : OrderRequest) (price : ℚ) (orderId : OrderId)
    (filledAt : Time) : OrderResult × PaperExecutor :=
  match e.positions.get? req.symbol with
  | none => (insufficientPosition orderId req price 0, e)
  | some pos =>
      if pos.quantity < req.quantity then
        (insufficientPosition orderId req price pos.quantity, e)
      else (e.closed orderId req price filledAt, e.sold req price pos)

/-- The requested price, else the mark of the open position. -/
def effectivePrice (e : PaperExecutor) (req : OrderRequest) : Option ℚ :=
  match req.price with
  | some p => some p
  | none => (e.positions.get? req.symbol).map Position.currentPrice

/-- Move the price against the order. -/
def applySlippage (e : PaperExecutor) (side : OrderSide) (price : ℚ) : ℚ :=
  match side with
  | .buy => price * (1 + e.costs.slippagePct)
  | .sell => price * (1 - e.costs.slippagePct)

/-- The order book of results, for `cancel_order`. -/
def remember (orderId : OrderId) (result : OrderResult) (e : PaperExecutor) : PaperExecutor :=
  { e with orders := e.orders.set orderId result }

/-- `place_order`, with the order id and the time it generates as arguments. -/
def placeOrder (e : PaperExecutor) (req : OrderRequest) (orderId : OrderId) (now : Time) :
    Except PyError OrderResult × PaperExecutor :=
  match e.effectivePrice req with
  | none =>
      (.ok (OrderResult.basic orderId req.symbol req.side req.quantity none .rejected
        (some (.noPriceForMarket req.side req.symbol))), e)
  | some p =>
      let price := e.applySlippage req.side p
      match req.side with
      | .buy =>
          match e.executeBuy req price orderId now with
          | (.ok result, e') => (.ok result, remember orderId result e')
          | (.error err, e') => (.error err, e')
      | .sell =>
          let r := e.executeSell req price orderId now
          (.ok r.1, remember orderId r.1 r.2)

/-- Positions in the order of their keys. -/
def getPositions (e : PaperExecutor) : List Position := e.positions.values

/-- Only an order that is still pending can be cancelled. -/
def cancelOrder (e : PaperExecutor) (orderId : OrderId) : Bool × PaperExecutor :=
  match e.orders.get? orderId with
  | some order =>
      if order.status = .pending then
        (true, { e with orders := e.orders.set orderId { order with status := .cancelled } })
      else (false, e)
  | none => (false, e)

/-- Re-mark an open position. -/
def updatePrice (e : PaperExecutor) (symbol : Symbol) (newPrice : ℚ) : PaperExecutor :=
  match e.positions.get? symbol with
  | some pos => { e with positions := e.positions.set symbol { pos with currentPrice := newPrice } }
  | none => e

def entryDecisionIds (e : PaperExecutor) (symbol : Symbol) : List (Option DecisionId) :=
  e.tracker.entryDecisionIds symbol

/-- Top up one position whose fills are no longer stored with a synthetic lot. -/
def topUp (t : PositionTracker × ℕ) (p : Position) : PositionTracker × ℕ :=
  let missing := p.quantity - t.1.quantity p.symbol
  if missing > lotEpsilon then (t.1.onBuy p.symbol missing p.avgEntryPrice 0 none, t.2 + 1) else t

/-- Replace the book from stored state. Returns the rows replayed and the synthetic lots. -/
def loadPortfolioState (e : PaperExecutor) (cash : ℚ) (positions : List Position)
    (fills : List FillRecord) : (ℕ × ℕ) × PaperExecutor :=
  let replay := replayFills PositionTracker.empty fills
  let topped := positions.foldl topUp (replay.tracker, 0)
  ((replay.replayed, topped.2),
    { e with
      cash := cash
      positions := positions.foldl (fun d p => d.set p.symbol p) Dict.empty
      tracker := topped.1 })

/-! ## Runs -/

/-- The calls that move the portfolio. -/
inductive Op where
  | place (req : OrderRequest) (orderId : OrderId) (now : Time)
  | mark (symbol : Symbol) (price : ℚ)

/-- One call: the results it returns, and the portfolio after it. -/
def step (e : PaperExecutor) : Op → List OrderResult × PaperExecutor
  | .place req orderId now =>
      match e.placeOrder req orderId now with
      | (.ok result, e') => ([result], e')
      | (.error _, e') => ([], e')
  | .mark symbol price => ([], e.updatePrice symbol price)

/-- A sequence of calls, with all results in order. -/
def run (e : PaperExecutor) : List Op → List OrderResult × PaperExecutor
  | [] => ([], e)
  | op :: ops =>
      let r := e.step op
      let rest := r.2.run ops
      (r.1 ++ rest.1, rest.2)

/-- Net PnL realized by the filled sells among `results`. -/
def realized (results : List OrderResult) : ℚ :=
  ((results.filter (fun r => r.status = .filled ∧ r.side = .sell)).map
    (fun r => r.realizedPnl.getD 0)).sum

theorem realized_append (rs ss : List OrderResult) :
    realized (rs ++ ss) = realized rs + realized ss := by
  simp [realized]

/-- Quantity of the book under a symbol, zero when it is not held. -/
def bookQuantity (e : PaperExecutor) (s : Symbol) : ℚ :=
  match e.positions.get? s with
  | some pos => pos.quantity
  | none => 0

theorem lotEpsilon_lt_sizeUnit : lotEpsilon < sizeUnit := by norm_num [lotEpsilon, sizeUnit]

/-- An order for a positive size on the sizing grid. -/
def Op.Sized : Op → Prop
  | .place req _ _ => 0 < req.quantity ∧ req.quantity ∈ grid sizeUnit
  | .mark _ _ => True

/-- The book and the ledger agree: lots lie on the grid, every position holds something, and
the two quantities are equal for every symbol. -/
structure Reconciled (e : PaperExecutor) : Prop where
  onGrid : e.tracker.OnGrid sizeUnit
  positive : ∀ s pos, e.positions.get? s = some pos → 0 < pos.quantity
  quantity_eq : ∀ s, e.tracker.quantity s = e.bookQuantity s

theorem reconciled_create (cash : ℚ) (costs : CostModel) :
    (create cash costs).Reconciled where
  onGrid := fun s => ⟨Fifo.Positive.nil, fun l hl => by cases hl⟩
  positive := fun s pos h => by cases h
  quantity_eq := fun s => rfl

/-! ## What each operation does -/

/-- What a buy of `total` can do: be refused, fail in the averaging, or be booked. -/
theorem executeBuy_cases (e : PaperExecutor) (req : OrderRequest) (price : ℚ)
    (orderId : OrderId) (now : Time) :
    (∃ r, r.status = .rejected ∧ e.executeBuy req price orderId now = (.ok r, e)) ∨
    (e.bookQuantity req.symbol + req.quantity = 0 ∧ ∃ pos,
      e.positions.get? req.symbol = some pos ∧
      e.executeBuy req price orderId now = (.error .zeroDivision, { e with
        cash := e.cash
          - (req.quantity * price + e.costs.totalFee (req.quantity * price)) })) ∨
    (req.quantity * price + e.costs.totalFee (req.quantity * price) ≤ e.cash ∧
      e.executeBuy req price orderId now
        = (.ok (filled orderId { req with side := .buy } price now), e.bought req price)) := by
  unfold executeBuy
  by_cases hc : req.quantity * price + e.costs.totalFee (req.quantity * price) > e.cash
  · left
    exact ⟨OrderResult.basic orderId req.symbol .buy req.quantity (some price) .rejected
      (some (.insufficientCash _ e.cash)), rfl, if_pos hc⟩
  · right
    simp only [if_neg hc]
    cases hpos : e.positions.get? req.symbol with
    | none => exact Or.inr ⟨not_lt.mp hc, rfl⟩
    | some pos =>
        by_cases h0 : pos.quantity + req.quantity = 0
        · left
          refine ⟨?_, pos, rfl, if_pos h0⟩
          simp only [bookQuantity, hpos, h0]
        · exact Or.inr ⟨not_lt.mp hc, if_neg h0⟩

/-- What a sell can do: be refused, or be booked against an open position. -/
theorem executeSell_cases (e : PaperExecutor) (req : OrderRequest) (price : ℚ)
    (orderId : OrderId) (now : Time) :
    (∃ r, r.status = .rejected ∧ e.executeSell req price orderId now = (r, e)) ∨
    (∃ pos, e.positions.get? req.symbol = some pos ∧ req.quantity ≤ pos.quantity ∧
      e.executeSell req price orderId now
        = (e.closed orderId req price now, e.sold req price pos)) := by
  unfold executeSell
  cases hpos : e.positions.get? req.symbol with
  | none => exact Or.inl ⟨insufficientPosition orderId req price 0, rfl, rfl⟩
  | some pos =>
      by_cases hq : pos.quantity < req.quantity
      · exact Or.inl ⟨insufficientPosition orderId req price pos.quantity, rfl, if_pos hq⟩
      · exact Or.inr ⟨pos, rfl, not_lt.mp hq, if_neg hq⟩

/-- **What `place_order` can do.** It is refused and changes no record, it fails in the
averaging, or it books a buy or a sell at the price moved by the slippage. -/
theorem placeOrder_cases (e : PaperExecutor) (req : OrderRequest) (orderId : OrderId)
    (now : Time) :
    (∃ r e', r.status = .rejected ∧ e.placeOrder req orderId now = (.ok r, e') ∧
      e'.cash = e.cash ∧ e'.costs = e.costs ∧ e'.positions = e.positions ∧
      e'.tracker = e.tracker) ∨
    (∃ price, req.side = .buy ∧ e.bookQuantity req.symbol + req.quantity = 0 ∧
      (e.positions.get? req.symbol).isSome ∧
      e.placeOrder req orderId now = (.error .zeroDivision, { e with
        cash := e.cash
          - (req.quantity * price + e.costs.totalFee (req.quantity * price)) })) ∨
    (∃ price, req.side = .buy ∧
      req.quantity * price + e.costs.totalFee (req.quantity * price) ≤ e.cash ∧
      e.placeOrder req orderId now
        = (.ok (filled orderId req price now),
            remember orderId (filled orderId req price now) (e.bought req price))) ∨
    (∃ price pos, req.side = .sell ∧ e.positions.get? req.symbol = some pos ∧
      req.quantity ≤ pos.quantity ∧
      e.placeOrder req orderId now
        = (.ok (e.closed orderId req price now),
            remember orderId (e.closed orderId req price now) (e.sold req price pos))) := by
  unfold placeOrder
  cases hp : e.effectivePrice req with
  | none =>
      left
      exact ⟨_, e, rfl, rfl, rfl, rfl, rfl, rfl⟩
  | some p =>
      cases hs : req.side with
      | buy =>
          have hreq : ({ req with side := .buy } : OrderRequest) = req := by rw [← hs]
          rcases e.executeBuy_cases req (e.applySlippage .buy p) orderId now with
            ⟨r, hr, he⟩ | ⟨h0, pos, hpos, he⟩ | ⟨hc, he⟩
          · left
            simp only [he]
            exact ⟨r, remember orderId r e, hr, rfl, rfl, rfl, rfl, rfl⟩
          · right; left
            simp only [he]
            exact ⟨_, trivial, h0, by rw [hpos]; rfl, rfl⟩
          · right; right; left
            simp only [he, hreq]
            exact ⟨_, trivial, hc, rfl⟩
      | sell =>
          rcases e.executeSell_cases req (e.applySlippage .sell p) orderId now with
            ⟨r, hr, he⟩ | ⟨pos, hpos, hq, he⟩
          · left
            simp only [he]
            exact ⟨r, remember orderId r e, hr, rfl, rfl, rfl, rfl, rfl⟩
          · right; right; right
            simp only [he]
            exact ⟨_, pos, trivial, hpos, hq, rfl⟩

/-- The book after an order at a price: as it was, with a buy at the slipped price, or with less of
the position that was sold. -/
theorem placeOrder_book {e e' : PaperExecutor} {req : OrderRequest} {p : ℚ} {orderId : OrderId}
    {now : Time} {r : OrderResult} (hp : req.price = some p)
    (h : e.placeOrder req orderId now = (.ok r, e')) :
    e'.costs = e.costs ∧
      ((r.status = .rejected ∧ e'.positions = e.positions) ∨
        (req.side = .buy ∧ r.status = .filled ∧ e'.positions
          = e.positions.set req.symbol (e.positionAfter req (e.applySlippage .buy p))) ∨
        (req.side = .sell ∧ r.status = .filled ∧ ∃ pos, e.positions.get? req.symbol = some pos ∧
          req.quantity ≤ pos.quantity ∧
          e'.positions = (e.sold req (e.applySlippage .sell p) pos).positions)) := by
  have hprice : e.effectivePrice req = some p := by
    unfold effectivePrice
    rw [hp]
  unfold placeOrder at h
  rw [hprice] at h
  cases hs : req.side with
  | buy =>
      simp only [hs] at h
      rcases e.executeBuy_cases req (e.applySlippage .buy p) orderId now with
        ⟨r', hr, he⟩ | ⟨-, pos, -, he⟩ | ⟨-, he⟩
      · simp only [he] at h
        cases h
        exact ⟨rfl, .inl ⟨hr, rfl⟩⟩
      · simp only [he] at h
        cases h
      · simp only [he] at h
        cases h
        exact ⟨rfl, .inr (.inl ⟨rfl, rfl, rfl⟩)⟩
  | sell =>
      simp only [hs] at h
      rcases e.executeSell_cases req (e.applySlippage .sell p) orderId now with
        ⟨r', hr, he⟩ | ⟨pos, hpos, hq, he⟩
      · simp only [he] at h
        cases h
        exact ⟨rfl, .inl ⟨hr, rfl⟩⟩
      · simp only [he] at h
        cases h
        exact ⟨rfl, .inr (.inr ⟨rfl, rfl, pos, hpos, hq, rfl⟩)⟩

theorem orderId_executeBuy {e e' : PaperExecutor} {req : OrderRequest} {price : ℚ}
    {orderId : OrderId} {now : Time} {r : OrderResult}
    (h : e.executeBuy req price orderId now = (.ok r, e')) : r.orderId = orderId := by
  have hr := congrArg Prod.fst h
  unfold executeBuy at hr
  dsimp only at hr
  split_ifs at hr
  · obtain rfl := Except.ok.inj hr
    rfl
  · split at hr
    · split_ifs at hr
      obtain rfl := Except.ok.inj hr
      rfl
    · obtain rfl := Except.ok.inj hr
      rfl

theorem orderId_placeOrder {e : PaperExecutor} {req : OrderRequest}
    {orderId : OrderId} {now : Time} {r : OrderResult}
    (h : (e.placeOrder req orderId now).1 = .ok r) : r.orderId = orderId := by
  unfold placeOrder at h
  split at h
  · obtain rfl := Except.ok.inj h
    rfl
  · split at h
    · dsimp only at h
      split at h
      · rename_i result e' hbuy
        obtain rfl := Except.ok.inj h
        exact orderId_executeBuy hbuy
      · cases h
    · obtain rfl := Except.ok.inj h
      unfold executeSell
      split
      · rfl
      · split_ifs <;> rfl

/-- A mark does not touch the ledger. -/
theorem tracker_updatePrice (e : PaperExecutor) (symbol : Symbol) (price : ℚ) :
    (e.updatePrice symbol price).tracker = e.tracker := by
  unfold updatePrice
  cases e.positions.get? symbol <;> rfl

/-! ## The accounting identity -/

theorem bookQuantity_set (e : PaperExecutor) (s s' : Symbol) (pos : Position)
    (e' : PaperExecutor) (h : e'.positions = e.positions.set s pos) :
    e'.bookQuantity s' = if s = s' then pos.quantity else e.bookQuantity s' := by
  unfold bookQuantity
  rw [h, Dict.get?_set]
  by_cases hs : s = s'
  · rw [if_pos hs, if_pos hs]
  · rw [if_neg hs, if_neg hs]

theorem positionAfter_quantity (e : PaperExecutor) (req : OrderRequest) (price : ℚ) :
    (e.positionAfter req price).quantity = e.bookQuantity req.symbol + req.quantity := by
  unfold positionAfter bookQuantity
  cases e.positions.get? req.symbol with
  | none => simp [openPosition]
  | some pos => rfl

/-- The book and the ledger agree, also where the book holds nothing of a symbol: lots lie on
the grid, and the two quantities are equal for every symbol. -/
structure Level (e : PaperExecutor) : Prop where
  onGrid : e.tracker.OnGrid sizeUnit
  quantity_eq : ∀ s, e.tracker.quantity s = e.bookQuantity s

theorem Reconciled.level {e : PaperExecutor} (h : e.Reconciled) : e.Level :=
  ⟨h.onGrid, h.quantity_eq⟩

theorem Level.bought {e : PaperExecutor} (h : e.Level) {req : OrderRequest} (price : ℚ)
    (hq : 0 ≤ req.quantity) (hg : req.quantity ∈ grid sizeUnit) : (e.bought req price).Level where
  onGrid := h.onGrid.onBuy req.symbol hq hg _ _ _
  quantity_eq := by
    intro s
    rw [bookQuantity_set e req.symbol s (e.positionAfter req price) _ rfl]
    show (e.tracker.onBuy req.symbol req.quantity price _ req.decisionId).quantity s = _
    rw [PositionTracker.quantity_onBuy _ _ _ hq, h.quantity_eq, positionAfter_quantity,
      h.quantity_eq]

/-- The book drops a position exactly when nothing is left of it. -/
theorem Level.rest_iff {e : PaperExecutor} (h : e.Level) {req : OrderRequest} {pos : Position}
    (hg : req.quantity ∈ grid sizeUnit) (hpos : e.positions.get? req.symbol = some pos) :
    pos.quantity - req.quantity ≤ lotEpsilon ↔ pos.quantity - req.quantity ≤ 0 := by
  have hε : (0 : ℚ) ≤ lotEpsilon := by norm_num [lotEpsilon]
  have hbook : e.bookQuantity req.symbol = pos.quantity := by rw [bookQuantity, hpos]
  refine le_iff_nonpos_of_mem_grid hε lotEpsilon_lt_sizeUnit (AddSubgroup.sub_mem _ ?_ hg)
  rw [← hbook, ← h.quantity_eq]
  exact total_mem_grid (h.onGrid req.symbol).2

theorem Level.sold {e : PaperExecutor} (h : e.Level) {req : OrderRequest} (price : ℚ)
    {pos : Position} (hq : 0 ≤ req.quantity) (hg : req.quantity ∈ grid sizeUnit)
    (hpos : e.positions.get? req.symbol = some pos) (hle : req.quantity ≤ pos.quantity) :
    (e.sold req price pos).Level where
  onGrid := h.onGrid.onSell lotEpsilon_lt_sizeUnit req.symbol hq hg _ _
  quantity_eq := by
    have hu := lotEpsilon_lt_sizeUnit
    have hbook : e.bookQuantity req.symbol = pos.quantity := by rw [bookQuantity, hpos]
    have hheld : req.quantity ≤ e.tracker.quantity req.symbol := by
      rw [h.quantity_eq, hbook]
      exact hle
    have hquantity : ∀ s, (e.realize req price).2.quantity s
        = if req.symbol = s then e.tracker.quantity req.symbol - req.quantity
          else e.tracker.quantity s :=
      fun s => PositionTracker.quantity_onSell_grid hu h.onGrid req.symbol s hq hg hheld _ _
    intro s
    show (e.realize req price).2.quantity s = _
    rw [hquantity s, h.quantity_eq, h.quantity_eq, hbook]
    by_cases h0 : pos.quantity - req.quantity ≤ lotEpsilon
    · have hz : pos.quantity - req.quantity = 0 :=
        le_antisymm ((h.rest_iff hg hpos).mp h0) (sub_nonneg.mpr hle)
      unfold bookQuantity PaperExecutor.sold
      simp only [if_pos h0, Dict.get?_erase]
      by_cases hs : req.symbol = s
      · rw [if_pos hs, if_pos hs, hz]
      · rw [if_neg hs, if_neg hs]
    · have := bookQuantity_set e req.symbol s { pos with quantity := pos.quantity - req.quantity }
        (e.sold req price pos) (by simp only [PaperExecutor.sold, if_neg h0])
      rw [this]

theorem Level.updatePrice {e : PaperExecutor} (h : e.Level) (s : Symbol) (price : ℚ) :
    (e.updatePrice s price).Level := by
  unfold PaperExecutor.updatePrice
  cases hp : e.positions.get? s with
  | none => exact h
  | some pos =>
      refine ⟨h.onGrid, ?_⟩
      intro s'
      rw [bookQuantity_set e s s' { pos with currentPrice := price } _ rfl, h.quantity_eq s']
      by_cases hs : s = s'
      · rw [if_pos hs, ← hs, bookQuantity, hp]
      · rw [if_neg hs]

theorem Reconciled.bought {e : PaperExecutor} (h : e.Reconciled) {req : OrderRequest}
    (price : ℚ) (hq : 0 < req.quantity) (hg : req.quantity ∈ grid sizeUnit) :
    (e.bought req price).Reconciled where
  onGrid := (h.level.bought price hq.le hg).onGrid
  positive := by
    intro s p hp
    rw [PaperExecutor.bought, Dict.get?_set] at hp
    by_cases hs : req.symbol = s
    · rw [if_pos hs] at hp
      cases hp
      have : 0 ≤ e.tracker.quantity req.symbol := Fifo.total_nonneg (h.onGrid req.symbol).1
      rw [positionAfter_quantity, ← h.quantity_eq]
      linarith
    · rw [if_neg hs] at hp
      exact h.positive s p hp
  quantity_eq := (h.level.bought price hq.le hg).quantity_eq

theorem Reconciled.sold {e : PaperExecutor} (h : e.Reconciled) {req : OrderRequest}
    (price : ℚ) {pos : Position} (hq : 0 < req.quantity) (hg : req.quantity ∈ grid sizeUnit)
    (hpos : e.positions.get? req.symbol = some pos) (hle : req.quantity ≤ pos.quantity) :
    (e.sold req price pos).Reconciled where
  onGrid := (h.level.sold price hq.le hg hpos hle).onGrid
  positive := by
    intro s p hp
    simp only [PaperExecutor.sold] at hp
    by_cases h0 : pos.quantity - req.quantity ≤ lotEpsilon
    · rw [if_pos h0, Dict.get?_erase] at hp
      by_cases hs : req.symbol = s
      · rw [if_pos hs] at hp
        cases hp
      · rw [if_neg hs] at hp
        exact h.positive s p hp
    · rw [if_neg h0, Dict.get?_set] at hp
      by_cases hs : req.symbol = s
      · rw [if_pos hs] at hp
        cases hp
        exact not_le.mp (fun h1 => h0 ((h.level.rest_iff hg hpos).mpr h1))
      · rw [if_neg hs] at hp
        exact h.positive s p hp
  quantity_eq := (h.level.sold price hq.le hg hpos hle).quantity_eq

/-- Cash plus the cost of the open lots. -/
def bookValue (e : PaperExecutor) : ℚ := e.cash + e.tracker.openCost

theorem bookValue_bought (e : PaperExecutor) (req : OrderRequest) (price : ℚ)
    (hq : 0 ≤ req.quantity) : (e.bought req price).bookValue = e.bookValue := by
  show e.cash - (_ + _) + (e.tracker.onBuy req.symbol req.quantity price _ _).openCost = _
  rcases hq.eq_or_lt with h0 | hq
  · -- nothing is bought, and nothing is paid for it
    rw [← h0, PositionTracker.onBuy_zero, zero_mul, CostModel.totalFee_of_nonpos _ le_rfl, add_zero,
      sub_zero, bookValue]
  · rw [PositionTracker.openCost_onBuy _ _ hq, bookValue]
    ring

theorem bookValue_sold {e : PaperExecutor} (h : e.Level) {req : OrderRequest} (price : ℚ)
    {pos : Position} (hq : 0 < req.quantity) (hg : req.quantity ∈ grid sizeUnit)
    (hpos : e.positions.get? req.symbol = some pos) (hle : req.quantity ≤ pos.quantity) :
    (e.sold req price pos).bookValue = e.bookValue + (e.realize req price).1.netPnl := by
  have hheld : req.quantity ≤ e.tracker.quantity req.symbol := by
    rw [h.quantity_eq, bookQuantity, hpos]
    exact hle
  have := PositionTracker.openCost_onSell lotEpsilon_lt_sizeUnit h.onGrid req.symbol hq hg hheld
    price (e.costs.totalFee (req.quantity * price))
  show e.cash + (_ - _) + (e.realize req price).2.openCost = _
  rw [bookValue, realize]
  linarith

/-- One call keeps the records reconciled, returns a result if it is an order, and moves the
book value by what its result realizes. -/
theorem step_accounting {e : PaperExecutor} (h : e.Reconciled) (op : Op) (hop : op.Sized) :
    (e.step op).2.Reconciled ∧
      (e.step op).2.bookValue = e.bookValue + realized (e.step op).1 ∧
      (e.step op).2.costs = e.costs := by
  cases op with
  | mark s price =>
      simp only [step]
      refine ⟨?_, ?_, ?_⟩
      · unfold updatePrice
        have hlevel := h.level.updatePrice s price
        unfold updatePrice at hlevel
        cases hp : e.positions.get? s with
        | none => exact h
        | some pos =>
            rw [hp] at hlevel
            refine ⟨h.onGrid, fun s' p hp' => ?_, hlevel.quantity_eq⟩
            rw [Dict.get?_set] at hp'
            by_cases hs : s = s'
            · rw [if_pos hs] at hp'
              cases hp'
              exact h.positive s pos hp
            · rw [if_neg hs] at hp'
              exact h.positive s' p hp'
      · unfold updatePrice
        cases e.positions.get? s <;> simp [bookValue, realized]
      · unfold updatePrice
        cases e.positions.get? s <;> rfl
  | place req orderId now =>
      obtain ⟨hq, hg⟩ := hop
      rcases e.placeOrder_cases req orderId now with
        ⟨r, e', hr, he, hcash, hcosts, hpos, htr⟩ | ⟨price, -, h0, hsome, -⟩ |
        ⟨price, hside, hc, he⟩ | ⟨price, pos, hside, hpos, hle, he⟩
      · simp only [step, he]
        refine ⟨⟨?_, ?_, ?_⟩, ?_, hcosts⟩
        · rw [htr]; exact h.onGrid
        · rw [hpos]; exact h.positive
        · intro s
          rw [htr, h.quantity_eq, bookQuantity, bookQuantity, hpos]
        · have : realized [r] = 0 := by simp [realized, hr]
          rw [this, add_zero, bookValue, bookValue, hcash, htr]
      · -- The averaging cannot divide by zero: what is held is positive.
        exfalso
        obtain ⟨pos, hp⟩ := Option.isSome_iff_exists.mp hsome
        have := h.positive _ _ hp
        rw [bookQuantity, hp] at h0
        linarith
      · simp only [step, he]
        have hz : realized [filled orderId req price now] = 0 := by
          simp [realized, filled, OrderResult.basic, hside]
        have hv := bookValue_bought e req price hq.le
        rw [hz, add_zero]
        have hrec := h.bought price hq hg
        exact ⟨⟨hrec.onGrid, hrec.positive, hrec.quantity_eq⟩, hv, rfl⟩
      · simp only [step, he]
        have hz : realized [e.closed orderId req price now]
            = (e.realize req price).1.netPnl := by
          simp [realized, closed, filled, OrderResult.basic]
        have hv := bookValue_sold h.level price hq hg hpos hle
        rw [hz]
        have hrec := h.sold price hq hg hpos hle
        exact ⟨⟨hrec.onGrid, hrec.positive, hrec.quantity_eq⟩, hv, rfl⟩

theorem run_accounting {e : PaperExecutor} (h : e.Reconciled) (ops : List Op)
    (hops : ∀ op ∈ ops, op.Sized) :
    (e.run ops).2.Reconciled ∧ (e.run ops).2.bookValue = e.bookValue + realized (e.run ops).1 := by
  induction ops generalizing e with
  | nil => exact ⟨h, by simp [run, realized]⟩
  | cons op ops ih =>
      obtain ⟨h1, h2, -⟩ := step_accounting h op (hops op List.mem_cons_self)
      obtain ⟨h3, h4⟩ := ih h1 (fun o ho => hops o (List.mem_cons_of_mem _ ho))
      refine ⟨h3, ?_⟩
      simp only [run]
      rw [h4, h2, realized_append]
      ring

/-- **Paper accounting identity.** After every sequence of sized orders and marks from a new
executor, cash and the cost of the open lots make up the initial cash and what the filled
sells realized, the ledger and the book hold the same quantity of every symbol, and a further
order that is rejected leaves cash, book and ledger as they were. -/
theorem accounting_identity (initialCash : ℚ) (costs : CostModel) (ops : List Op)
    (hops : ∀ op ∈ ops, op.Sized) :
    let r := (create initialCash costs).run ops
    r.2.cash + r.2.tracker.openCost = initialCash + realized r.1 ∧
      (∀ s, r.2.tracker.quantity s = r.2.bookQuantity s) ∧
      ∀ req orderId now result after, r.2.placeOrder req orderId now = (.ok result, after) →
        result.status = .rejected →
        after.cash = r.2.cash ∧ after.positions = r.2.positions ∧ after.tracker = r.2.tracker := by
  obtain ⟨h1, h2⟩ := run_accounting (reconciled_create initialCash costs) ops hops
  refine ⟨?_, h1.quantity_eq, ?_⟩
  · rw [bookValue] at h2
    rw [h2, bookValue]
    simp [create, PositionTracker.openCost, PositionTracker.empty]
  · intro req orderId now result after he hr
    rcases placeOrder_cases _ req orderId now with
      ⟨r, e', -, he', hcash, -, hpos, htr⟩ | ⟨price, -, -, -, he'⟩ |
      ⟨price, -, -, he'⟩ | ⟨price, pos, -, -, -, he'⟩
    · rw [he'] at he
      obtain ⟨-, rfl⟩ := Prod.mk.inj he
      exact ⟨hcash, hpos, htr⟩
    · rw [he'] at he
      cases (Prod.mk.inj he).1
    · rw [he'] at he
      cases (Prod.mk.inj he).1
      cases hr
    · rw [he'] at he
      cases (Prod.mk.inj he).1
      cases hr

/-- A round trip: ten units bought with a commission floor, re-marked, and four sold. -/
def roundTripCosts : CostModel where
  slippagePct := 1 / 1000
  feePct := 1 / 500
  minCommission := 1
  fxFeePct := 1 / 400
  slippagePct_nonneg := by decide +kernel
  feePct_nonneg := by decide +kernel
  minCommission_nonneg := by decide +kernel
  fxFeePct_nonneg := by decide +kernel

def roundTrip : List Op :=
  [.place ⟨"BTC/EUR", .buy, 10, some 100, some 1, some 90, some 120⟩ "paper-1" 0,
   .mark "BTC/EUR" 110,
   .place ⟨"BTC/EUR", .sell, 4, some 110, none, none, none⟩ "paper-2" 1]

theorem accounting_identity_roundTrip :
    let r := (create 5000 roundTripCosts).run roundTrip
    r.2.cash + r.2.tracker.openCost = 5000 + realized r.1 ∧
      (∀ s, r.2.tracker.quantity s = r.2.bookQuantity s) ∧
      ∀ req orderId now result after, r.2.placeOrder req orderId now = (.ok result, after) →
        result.status = .rejected →
        after.cash = r.2.cash ∧ after.positions = r.2.positions ∧
          after.tracker = r.2.tracker := by
  refine accounting_identity 5000 roundTripCosts roundTrip ?_
  intro op hop
  simp only [roundTrip, List.mem_cons, List.not_mem_nil, or_false] at hop
  rcases hop with rfl | rfl | rfl
  · exact ⟨by norm_num, mem_grid_iff.mpr ⟨1000000000, by norm_num [sizeUnit]⟩⟩
  · trivial
  · exact ⟨by norm_num, mem_grid_iff.mpr ⟨400000000, by norm_num [sizeUnit]⟩⟩

end PaperExecutor

end SmartyTrader
