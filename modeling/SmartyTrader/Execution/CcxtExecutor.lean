import SmartyTrader.Core.DecisionPipeline
import SmartyTrader.Execution.ProtectiveOrders

set_option autoImplicit false

/-! # Spot order executor for any CCXT exchange

Spot and long-only: positions come from the executor's own FIFO ledger of fills, capped by the
balance at the venue. An order left open at the venue is tracked and polled by
`reconcileOpenOrders`, which books its fill once and returns its terminal result on every call
until the agent confirms that it stored it.
-/

namespace SmartyTrader

open Lib

/-! ## State -/

/-- A venue order left open. `resolved` is its terminal result once the venue settled it. -/
structure PendingOrder where
  symbol : Symbol
  side : OrderSide
  quantity : ℚ
  decisionId : Option DecisionId
  stopLoss : Option ℚ
  takeProfit : Option ℚ
  resolved : Option OrderResult
  placedAt : Option Time
  price : Option ℚ
  deriving DecidableEq

/-- A stored pending order reloaded at startup. -/
structure PendingOrderRecord where
  orderId : OrderId
  symbol : Symbol
  side : OrderSide
  quantity : ℚ
  decisionId : Option DecisionId
  stopLoss : Option ℚ
  takeProfit : Option ℚ
  placedAt : Option Time
  price : Option ℚ

/-- A fill as it was booked. -/
structure BookedFill where
  orderId : OrderId
  symbol : Symbol
  side : OrderSide
  quantity : ℚ
  price : ℚ
  feeBase : ℚ
  feeQuote : ℚ
  decisionId : Option DecisionId
  deriving DecidableEq

/-- One change of the ledger. -/
inductive LedgerEntry where
  | fill (f : BookedFill)
  | writeOff (symbol : Symbol)
  deriving DecidableEq

/-- The executor, over the world of its client. The journal lists the changes of the ledger
since it was loaded; no function reads it. -/
structure CcxtExecutor (W : Type) where
  world : W
  quote : String
  orders : VenueOrderSettings
  orderSymbols : Dict OrderId Symbol
  openOrders : Dict OrderId PendingOrder
  marks : Dict Symbol ℚ
  tracker : PositionTracker
  exitLevels : Dict Symbol ExitLevels
  markets : Option Markets
  protection : Option ProtectiveOrders
  knownOrderIds : List OrderId
  journal : List LedgerEntry

/-- A ledger change applied to a ledger. -/
def LedgerEntry.apply (t : PositionTracker) : LedgerEntry → PositionTracker
  | .fill f => (bookFill t f.symbol f.side f.quantity f.price f.feeBase f.feeQuote f.decisionId).2
  | .writeOff symbol => t.discard symbol

namespace CcxtExecutor

variable {W : Type}

def create (w : W) (quote : String) (orders : VenueOrderSettings) : CcxtExecutor W where
  world := w
  quote := quote
  orders := orders
  orderSymbols := Dict.empty
  openOrders := Dict.empty
  marks := Dict.empty
  tracker := PositionTracker.empty
  exitLevels := Dict.empty
  markets := none
  protection := if orders.protectiveOrders then some ProtectiveOrders.create else none
  knownOrderIds := []
  journal := []

/-- Worst-case BUY price relative to the reference. -/
def buyPriceFactor (e : CcxtExecutor W) : ℚ := 1 + e.orders.entryOffsetPct

/-! ## Hooks that read the tracked orders -/

/-- Sides with an order still working at the venue in a symbol. -/
def workingOrderSides (e : CcxtExecutor W) (symbol : Symbol) : List OrderSide :=
  (e.openOrders.values.filter (fun p => p.symbol = symbol ∧ p.resolved = none)).map
    PendingOrder.side

/-- Cash committed to BUY orders the ledger has not booked yet. -/
def pendingBuyValue (e : CcxtExecutor W) : ℚ :=
  (e.openOrders.values.filterMap (fun p =>
    if p.side = .buy ∧ p.resolved = none then p.price.map (p.quantity * ·) else none)).sum

/-- Decisions of BUY orders still working at the venue in a symbol. -/
def pendingEntryDecisionIds (e : CcxtExecutor W) (symbol : Symbol) : List (Option DecisionId) :=
  (e.openOrders.values.filter (fun p =>
    p.symbol = symbol ∧ p.side = .buy ∧ p.resolved = none)).map PendingOrder.decisionId

/-- Entry decision of a tracked venue order. -/
def pendingDecisionId (e : CcxtExecutor W) (orderId : OrderId) : Option DecisionId :=
  (e.openOrders.get? orderId).bind PendingOrder.decisionId

/-! ## Venue market metadata -/

section Client

variable (c : ExchangeClient W)

/-- Markets with an entry; anything else is unavailable. -/
def nonEmpty (m : Option Markets) : Option Markets := m.filter (fun d => d.entries ≠ [])

/-- `_ensure_markets`: load the venue's markets unless they are known. -/
def ensureMarkets (e : CcxtExecutor W) : CcxtExecutor W :=
  match nonEmpty e.markets with
  | some _ => e
  | none =>
      match nonEmpty (c.markets e.world) with
      | some m => { e with markets := some m }
      | none =>
          match c.loadMarkets with
          | none => e
          | some load =>
              match load e.world with
              | (.error _, w) => { e with world := w }
              | (.ok loaded, w) =>
                  match (nonEmpty (c.markets w)).or (nonEmpty loaded) with
                  | some m => { e with world := w, markets := some m }
                  | none => { e with world := w }

/-- The entry of a symbol in the known markets. -/
def market? (e : CcxtExecutor W) (symbol : Symbol) : Option (Option ℚ) :=
  e.markets.bind (fun m => m.get? symbol)

/-- The venue's minimum order amount, zero when unknown. -/
def minAmount (e : CcxtExecutor W) (symbol : Symbol) : ℚ :=
  match e.market? symbol with
  | some (some q) => q
  | _ => 0

/-- Too small to ever trade: below the venue minimum, or noise. -/
def isDust (e : CcxtExecutor W) (symbol : Symbol) (quantity : ℚ) : Bool :=
  quantity ≤ lotEpsilon ∨ quantity < e.minAmount symbol

/-- `_to_precision` of an amount. One below the venue's precision raises there and counts as
nothing. -/
def toAmount (e : CcxtExecutor W) (symbol : Symbol) (value : ℚ) : ℚ :=
  match e.market? symbol, c.amountToPrecision with
  | some _, some convert => ((convert symbol value).toOption).getD 0
  | _, _ => value

/-- `_to_precision` of a price. -/
def toPrice (e : CcxtExecutor W) (symbol : Symbol) (value : ℚ) : ℚ :=
  match e.market? symbol, c.priceToPrecision with
  | some _, some convert => ((convert symbol value).toOption).getD value
  | _, _ => value

/-- `_order_terms`: order type and limit price for a reference price. -/
def orderTerms (e : CcxtExecutor W) (symbol : Symbol) (side : OrderSide) (price : Option ℚ) :
    OrderType × Option ℚ :=
  match price with
  | none => (.market, none)
  | some price =>
      match side with
      | .sell =>
          match e.orders.exitOrderType with
          | .market => (.market, none)
          | .limit => (.limit, some (e.toPrice c symbol (price * (1 - e.orders.exitOffsetPct))))
      | .buy => (.limit, some (e.toPrice c symbol (price * (1 + e.orders.entryOffsetPct))))

/-- `_confirm`: one poll right after placing, the acknowledgement on any failure. -/
def confirmPlaced (e : CcxtExecutor W) (orderId : OrderId) (symbol : Symbol) (raw : RawOrder) :
    RawOrder × CcxtExecutor W :=
  match c.fetchOrder with
  | none => (raw, e)
  | some fetchOrder =>
      match fetchOrder orderId symbol e.world with
      | (.ok (some fresh), w) => (fresh, { e with world := w })
      | (_, w) => (raw, { e with world := w })

end Client

/-! ## Booking -/

/-- `_write_off_dust`: drop a ledger remainder the venue can never trade. -/
def writeOffDust (e : CcxtExecutor W) (symbol : Symbol) : CcxtExecutor W :=
  let quantity := e.tracker.quantity symbol
  if 0 < quantity ∧ e.isDust symbol quantity then
    { e with
      tracker := e.tracker.discard symbol
      exitLevels := e.exitLevels.erase symbol
      journal := e.journal ++ [.writeOff symbol] }
  else e

/-- Book a fill into ledger and journal. -/
def book (e : CcxtExecutor W) (f : BookedFill) : Option SellOutcome × CcxtExecutor W :=
  let r := bookFill e.tracker f.symbol f.side f.quantity f.price f.feeBase f.feeQuote f.decisionId
  (r.1, { e with
    tracker := r.2
    journal := e.journal ++ [.fill f] })

/-- The fill a payload reports. -/
def reportedFill (orderId : OrderId) (symbol : Symbol) (side : OrderSide) (quantity price : ℚ)
    (decisionId : Option DecisionId) (raw : RawOrder) : BookedFill where
  orderId := orderId
  symbol := symbol
  side := side
  quantity := quantity
  price := price
  feeBase := (feeComponents raw symbol).1
  feeQuote := (feeComponents raw symbol).2
  decisionId := decisionId

/-- `_record_fill`: push one confirmed fill through the ledger, fees included. The result is
the realized PnL and the closed entries of a closing sell. -/
def recordFill (e : CcxtExecutor W) (f : BookedFill) :
    (Option ℚ × List ClosedEntry) × CcxtExecutor W :=
  let r := e.book f
  match f.side, r.1 with
  | .sell, some outcome =>
      ((some outcome.netPnl, outcome.closedEntries), r.2.writeOffDust f.symbol)
  | _, _ => ((none, []), r.2)

/-- A filled result with what its booking realized. -/
def withFill (result : OrderResult) (fees : Option ℚ × Option ℚ)
    (realized : Option ℚ × List ClosedEntry) : OrderResult :=
  { result with
    feeBase := fees.1
    feeQuote := fees.2
    realizedPnl := realized.1
    closedEntries := realized.2 }

/-- Forget the levels of a symbol without a ledger position. -/
def dropFlatLevels (e : CcxtExecutor W) (symbol : Symbol) : CcxtExecutor W :=
  if e.tracker.quantity symbol ≤ 0 then { e with exitLevels := e.exitLevels.erase symbol } else e

/-- The resolved result of a fired protective order. -/
def triggeredResult (t : Triggered) (now : Time) : OrderResult :=
  { OrderResult.basic t.childId t.symbol .sell (orNumber t.child.filled 0) t.child.fillPrice
      .filled (some t.reason) with
    filledAt := some (fillTime t.child now) }

/-- The tracked order of a fired one, already resolved. -/
def triggeredOrder (t : Triggered) (result : OrderResult) : PendingOrder :=
  ⟨t.symbol, .sell, orNumber t.child.filled 0, none, none, none, some result, none, none⟩

/-- Queue a fired order's result as an already resolved order. -/
def queueResolved (e : CcxtExecutor W) (t : Triggered) (result : OrderResult) : CcxtExecutor W :=
  { e with
    orderSymbols := e.orderSymbols.set t.childId t.symbol
    openOrders := e.openOrders.set t.childId (triggeredOrder t result) }

/-- Book the child of a fired order; without a price the ledger is left untouched. -/
def bookChild (e : CcxtExecutor W) (t : Triggered) (now : Time) : OrderResult × CcxtExecutor W :=
  let result := triggeredResult t now
  match t.child.fillPrice with
  | none => (result, e)
  | some price =>
      let r := e.recordFill (reportedFill t.childId t.symbol .sell (orNumber t.child.filled 0)
        price none t.child)
      (withFill result (reportedFees t.child t.symbol) r.1, r.2)

/-- Remember that an order id is booked. -/
def know (e : CcxtExecutor W) (id : OrderId) : CcxtExecutor W :=
  { e with knownOrderIds := id :: e.knownOrderIds }

/-- `_book_triggered`: a protective order sold at the venue. It is booked like any closing
fill, unless its child order is already known. -/
def bookTriggered (e : CcxtExecutor W) (t : Triggered) (now : Time) : CcxtExecutor W :=
  if t.childId ∈ e.knownOrderIds then e
  else
    let r := (e.know t.childId).bookChild t now
    (r.2.dropFlatLevels t.symbol).queueResolved t r.1

/-! ## Venue-side protective orders -/

section Client

variable (c : ExchangeClient W)

/-- What the venue should protect of a symbol: the whole position, with its levels. -/
def wantedProtection (e : CcxtExecutor W) (symbol : Symbol) : Option (ℚ × ExitLevels) :=
  let quantity := e.toAmount c symbol (e.tracker.quantity symbol)
  let levels := (e.exitLevels.get? symbol).getD (none, none)
  if quantity > 0 ∧ e.isDust symbol quantity = false ∧ (levels.1.isSome ∨ levels.2.isSome) then
    some (quantity, levels)
  else none

/-- Place what is wanted. -/
def placeProtection (e : CcxtExecutor W) (p : ProtectiveOrders) (symbol : Symbol)
    (wanted : Option (ℚ × ExitLevels)) : CcxtExecutor W :=
  match wanted with
  | none => { e with protection := some p }
  | some (quantity, levels) =>
      let r := p.place c (e.toPrice c) symbol quantity levels e.world
      { e with
        protection := some r.1
        world := r.2 }

/-- `_sync_protection`, with `again` for its call of itself. -/
def syncStep (again : CcxtExecutor W → CcxtExecutor W) (symbol : Symbol) (now : Time)
    (e : CcxtExecutor W) : CcxtExecutor W :=
  match e.protection with
  | none => e
  | some p =>
      if .sell ∈ e.workingOrderSides symbol then e
      else
        let wanted := e.wantedProtection c symbol
        match p.get symbol with
        | none => e.placeProtection c p symbol wanted
        | some current =>
            if wanted.any (fun q => current.matches q.1 q.2) then e
            else
              match p.cancel c symbol e.world with
              | (some triggered, p, w) =>
                  -- The ledger changed: decide again.
                  again (CcxtExecutor.bookTriggered
                    { e with
                      protection := some p
                      world := w } triggered now)
              | (none, p, w) =>
                  CcxtExecutor.placeProtection c
                    { e with world := w } p symbol wanted

/-- `_sync_protection`: make the symbol's protective order match the ledger. A second call finds
no live order for the symbol, so it never reaches a third. -/
def syncProtection (symbol : Symbol) (now : Time) (e : CcxtExecutor W) : CcxtExecutor W :=
  syncStep c (syncStep c id symbol now) symbol now e

/-- Withdraw the protective order before a SELL and book what it sold, if it had fired. -/
def withdrawProtection (symbol : Symbol) (now : Time) (e : CcxtExecutor W) : CcxtExecutor W :=
  match e.protection with
  | none => e
  | some p =>
      match p.cancel c symbol e.world with
      | (some triggered, p, w) =>
          CcxtExecutor.bookTriggered
            { e with
              protection := some p
              world := w } triggered now
      | (none, p, w) =>
          { e with
            protection := some p
            world := w }

/-- Book a list of fired orders. -/
def bookFired (now : Time) (fired : List Triggered) (e : CcxtExecutor W) : CcxtExecutor W :=
  fired.foldl (fun e t => e.bookTriggered t now) e

/-- Sync a list of symbols. -/
def syncEach (now : Time) (symbols : List Symbol) (e : CcxtExecutor W) : CcxtExecutor W :=
  symbols.foldl (fun e s => syncProtection c s now e) e

/-- `_watch_protection`: book protective orders that fired and keep the rest in line. -/
def watchProtection (now : Time) (e : CcxtExecutor W) : CcxtExecutor W :=
  match e.protection with
  | none => e
  | some p =>
      match p.poll c e.world with
      | (fired, p, w) =>
          let e := bookFired now fired
            { e with
              protection := some p
              world := w }
          syncEach c now e.tracker.symbols e

/-- `restore_protection`, at startup. -/
def restoreProtection (now : Time) (e : CcxtExecutor W) : CcxtExecutor W :=
  match e.protection with
  | none => e
  | some _ =>
      let e := e.ensureMarkets c
      let r := ProtectiveOrders.adopt c e.knownOrderIds e.tracker.symbols e.world
      let e := bookFired now r.1 { e with world := r.2 }
      syncEach c now e.tracker.symbols e

/-! ## Placing orders -/

/-- A refused order; it is never sent. -/
def refuse (req : OrderRequest) (stamp : Stamp) (reason : OrderReason) : OrderResult :=
  OrderResult.basic ("rejected-" ++ stamp.shortId) req.symbol req.side req.quantity req.price
    .rejected (some reason)

/-- The amount to send, or why nothing is sent. A SELL never sells beyond the ledger. -/
def sendableAmount (e : CcxtExecutor W) (req : OrderRequest) : Except OrderReason ℚ :=
  let amount := e.toAmount c req.symbol req.quantity
  let capped : Except OrderReason ℚ :=
    match req.side with
    | .buy => .ok amount
    | .sell =>
        let tracked := e.toAmount c req.symbol (e.tracker.quantity req.symbol)
        if tracked ≤ 0 then .error (.noPositionTracked req.symbol) else .ok (min amount tracked)
  match capped with
  | .error reason => .error reason
  | .ok amount =>
      if amount ≤ 0 ∨ e.isDust req.symbol amount then
        .error (.belowVenueMinimum req.quantity req.symbol)
      else .ok amount

/-- The order to track when the venue left it open. -/
def pendingOf (req : OrderRequest) (amount : ℚ) (limit : Option ℚ) (now : Time) : PendingOrder where
  symbol := req.symbol
  side := req.side
  quantity := amount
  decisionId := req.decisionId
  stopLoss := req.stopLoss
  takeProfit := req.takeProfit
  resolved := none
  placedAt := some now
  price := pyOr limit req.price

/-- Book an order that was filled when it was placed: ledger and exit levels. -/
def bookPlaced (e : CcxtExecutor W) (req : OrderRequest) (orderId : OrderId) (quantity price : ℚ)
    (raw : RawOrder) : (Option ℚ × List ClosedEntry) × CcxtExecutor W :=
  let r := e.recordFill (reportedFill orderId req.symbol req.side quantity price req.decisionId raw)
  let e := if req.side = .buy then
      { r.2 with exitLevels := r.2.exitLevels.set req.symbol (req.stopLoss, req.takeProfit) }
    else r.2
  (r.1, e.dropFlatLevels req.symbol)

/-- The result of a placement, before its fill is booked. -/
def placedResult (req : OrderRequest) (orderId : OrderId) (amount : ℚ) (limit : Option ℚ)
    (raw : RawOrder) (now : Time) : OrderResult :=
  let s := resolveStatus raw amount
  { OrderResult.basic orderId req.symbol req.side s.2.1 (pyOr raw.fillPrice (pyOr limit req.price))
      s.1 s.2.2 with
    filledAt := if s.1 = .filled then some (fillTime raw now) else none }

/-- What `place_order` does with the final word of the venue about the order. -/
def closePlacement (e : CcxtExecutor W) (req : OrderRequest) (orderId : OrderId) (amount : ℚ)
    (limit : Option ℚ) (raw : RawOrder) (now : Time) : OrderResult × CcxtExecutor W :=
  let result := placedResult req orderId amount limit raw now
  match result.status, result.price with
  | .filled, some price =>
      let r := e.bookPlaced req orderId result.quantity price raw
      (withFill result (reportedFees raw req.symbol) r.1, syncProtection c req.symbol now r.2)
  | .pending, _ =>
      if orderId ≠ "" then
        (result, { e with openOrders := e.openOrders.set orderId (pendingOf req amount limit now) })
      else (result, e)
  | _, _ => (result, e)

/-- What `place_order` does with the answer of the venue. An answer that leaves the order open
is polled once more. -/
def acceptAnswer (e : CcxtExecutor W) (req : OrderRequest) (amount : ℚ) (limit : Option ℚ)
    (raw : RawOrder) (now : Time) : OrderResult × CcxtExecutor W :=
  let orderId := raw.orderId
  let e := { e with orderSymbols := e.orderSymbols.set orderId req.symbol }
  let polled :=
    if (resolveStatus raw amount).1 = .pending ∧ orderId ≠ "" then
      e.confirmPlaced c orderId req.symbol raw
    else (raw, e)
  closePlacement c polled.2 req orderId amount limit polled.1 now

/-- `place_order`. -/
def placeOrder (e : CcxtExecutor W) (req : OrderRequest) (stamp : Stamp) :
    Except PyError OrderResult × CcxtExecutor W :=
  let e := e.ensureMarkets c
  let e := if req.side = .sell then withdrawProtection c req.symbol stamp.now e else e
  match e.sendableAmount c req with
  | .error reason => (.ok (refuse req stamp reason), e)
  | .ok amount =>
      let terms := e.orderTerms c req.symbol req.side req.price
      match c.createOrder req.symbol terms.1 req.side amount terms.2 e.world with
      | (.error err, w) => (.error err, { e with world := w })
      | (.ok raw, w) =>
          let r := acceptAnswer c { e with world := w } req amount terms.2
            (raw.getD RawOrder.empty) stamp.now
          (.ok r.1, r.2)

/-! ## Reconciliation -/

/-- `_expired`: the order is older than the time it may rest. -/
def expired (e : CcxtExecutor W) (pending : PendingOrder) (now : Time) : Bool :=
  match pending.placedAt with
  | none => false
  | some placed =>
      e.orders.orderTtlSeconds > 0
        ∧ ((now - placed : ℤ) : ℚ) ≥ e.orders.orderTtlSeconds * 1000000

/-- `_cancel_stale`: cancel an order past its time and read the venue's final word. -/
def cancelStale (fetchOrder : OrderId → Symbol → W → Except PyError (Option RawOrder) × W)
    (e : CcxtExecutor W) (orderId : OrderId) (pending : PendingOrder) :
    Option RawOrder × CcxtExecutor W :=
  let w := (c.cancelOrder orderId pending.symbol e.world).2
  match fetchOrder orderId pending.symbol w with
  | (.error _, w) => (none, { e with world := w })
  | (.ok raw, w) => (raw, { e with world := w })

/-- Poll one order: its payload with the status it resolves to, if it can be read. An order
past its time is cancelled first, and a cancel without a fill then has the reason of the
timeout. -/
def pollOrder (fetchOrder : OrderId → Symbol → W → Except PyError (Option RawOrder) × W)
    (e : CcxtExecutor W) (orderId : OrderId) (pending : PendingOrder) (now : Time) :
    Option (RawOrder × OrderStatus × ℚ × Option OrderReason) × CcxtExecutor W :=
  match fetchOrder orderId pending.symbol e.world with
  | (.error _, w) => (none, { e with world := w })
  | (.ok raw, w) =>
      let e := { e with world := w }
      let raw := raw.getD RawOrder.empty
      let status := resolveStatus raw pending.quantity
      if status.1 = .pending ∧ e.expired pending now then
        match cancelStale c fetchOrder e orderId pending with
        | (none, e) => (none, e)
        | (some raw, e) =>
            let status := resolveStatus raw pending.quantity
            (some (raw, status.1, status.2.1,
              if status.1 = .cancelled then status.2.2.or (some .unfilledAfterTtl)
              else status.2.2), e)
      else (some (raw, status), e)

/-- The ledger and the levels after an order resolved, and its result. -/
def settle (e : CcxtExecutor W) (orderId : OrderId) (pending : PendingOrder) (raw : RawOrder)
    (status : OrderStatus) (quantity : ℚ) (reason : Option OrderReason) (now : Time) :
    OrderResult × CcxtExecutor W :=
  let result := OrderResult.basic orderId pending.symbol pending.side quantity raw.fillPrice
    status reason
  if status = .filled then
    let result := { result with filledAt := some (fillTime raw now) }
    match raw.fillPrice with
    | none => (result, e)
    | some price =>
        let r := e.recordFill
          (reportedFill orderId pending.symbol pending.side quantity price pending.decisionId raw)
        (withFill result (reportedFees raw pending.symbol) r.1,
          if pending.side = .buy then
            { r.2 with exitLevels :=
                r.2.exitLevels.set pending.symbol (pending.stopLoss, pending.takeProfit) }
          else r.2)
  else (result, e)

/-- Remember the terminal result of an order. -/
def resolve (e : CcxtExecutor W) (orderId : OrderId) (pending : PendingOrder)
    (result : OrderResult) : CcxtExecutor W :=
  { e with openOrders := e.openOrders.set orderId { pending with resolved := some result } }

/-- One order of the loop: its terminal result, if it resolved. -/
def reconcileOne (fetchOrder : OrderId → Symbol → W → Except PyError (Option RawOrder) × W)
    (orderId : OrderId) (pending : PendingOrder) (now : Time) (e : CcxtExecutor W) :
    Option OrderResult × CcxtExecutor W :=
  match pollOrder c fetchOrder e orderId pending now with
  | (none, e) => (none, e)
  | (some (raw, status, quantity, reason), e) =>
      if status = .pending then (none, e)
      else
        let r := settle (e.ensureMarkets c) orderId pending raw status quantity reason now
        (some r.1, syncProtection c pending.symbol now (r.2.resolve orderId pending r.1))

/-- The loop of `reconcile_open_orders` over the orders that were tracked when it started. -/
def reconcileEach (fetchOrder : OrderId → Symbol → W → Except PyError (Option RawOrder) × W)
    (now : Time) : List (OrderId × PendingOrder) → CcxtExecutor W →
      List OrderResult × CcxtExecutor W
  | [], e => ([], e)
  | (orderId, pending) :: rest, e =>
      if pending.resolved.isSome then reconcileEach fetchOrder now rest e
      else
        let r := reconcileOne c fetchOrder orderId pending now e
        let rs := reconcileEach fetchOrder now rest r.2
        (r.1.toList ++ rs.1, rs.2)

/-- The results that were resolved before and wait for their confirmation. -/
def redelivered (e : CcxtExecutor W) : List OrderResult :=
  e.openOrders.values.filterMap PendingOrder.resolved

/-- `reconcile_open_orders`. -/
def reconcileOpenOrders (now : Time) (e : CcxtExecutor W) : List OrderResult × CcxtExecutor W :=
  let e := watchProtection c now e
  if e.redelivered.length = e.openOrders.entries.length then (e.redelivered, e)
  else
    match c.fetchOrder with
    | none => ([], e)
    | some fetchOrder =>
        let r := reconcileEach c fetchOrder now e.openOrders.entries e
        (e.redelivered ++ r.1, r.2)

/-- `confirm_reconciled`: the agent stored the terminal status. -/
def confirmReconciled (e : CcxtExecutor W) (orderId : OrderId) : CcxtExecutor W :=
  match e.openOrders.get? orderId with
  | some pending =>
      if pending.resolved.isSome then { e with openOrders := e.openOrders.erase orderId } else e
  | none => e

/-- `cancel_order`: a cancel by hand. The order is no longer tracked once the venue accepts. -/
def cancelOrder (e : CcxtExecutor W) (orderId : OrderId) : Bool × CcxtExecutor W :=
  match e.orderSymbols.get? orderId with
  | none => (false, e)
  | some symbol =>
      match c.cancelOrder orderId symbol e.world with
      | (.error _, w) => (false, { e with world := w })
      | (.ok _, w) =>
          (true, { e with
            world := w
            openOrders := e.openOrders.erase orderId })

/-! ## Reads -/

def updatePrice (e : CcxtExecutor W) (symbol : Symbol) (newPrice : ℚ) : CcxtExecutor W :=
  if newPrice > 0 then { e with marks := e.marks.set symbol newPrice } else e

/-- The base currency as it is spelled in the symbol. -/
def baseCode (symbol : Symbol) : String := String.ofList (symbol.toList.takeWhile (· ≠ '/'))

/-- The position of one ledger symbol, capped by the venue balance. -/
def positionOf (e : CcxtExecutor W) (totals : Option (Dict String (Option ℚ))) (symbol : Symbol) :
    Option Position :=
  let quantity := e.tracker.quantity symbol
  let quantity :=
    match (totals.bind (fun t => t.get? (baseCode symbol))).join with
    | some held => min quantity held
    | none => quantity
  if e.isDust symbol quantity then none
  else
    let avg := (e.tracker.averagePrice symbol).getD 0
    let levels := (e.exitLevels.get? symbol).getD (none, none)
    some ⟨symbol, quantity, avg, (e.marks.get? symbol).getD avg, .long, levels.1, levels.2⟩

/-- `get_positions`: the ledger's positions, capped by the venue. A balance that cannot be read
falls back to the ledger alone. -/
def getPositions (e : CcxtExecutor W) : Except PyError (List Position) × CcxtExecutor W :=
  let e := e.ensureMarkets c
  let e := e.tracker.symbols.foldl (fun e s => e.writeOffDust s) e
  let r := c.fetchBalance e.world
  let totals := (r.1.toOption).join
  let e := { e with world := r.2 }
  (.ok (e.tracker.symbols.filterMap (e.positionOf totals)), e)

/-- `get_cash`. -/
def getCash (e : CcxtExecutor W) : Except PyError ℚ × CcxtExecutor W :=
  match c.fetchFreeBalance e.world with
  | (.error err, w) => (.error err, { e with world := w })
  | (.ok balance, w) => (.ok (extractQuoteBalance balance e.quote), { e with world := w })

end Client

/-! ## Startup -/

/-- `load_fills`: rebuild ledger and exit levels from stored fills. -/
def loadFills (e : CcxtExecutor W) (fills : List FillRecord) : CcxtExecutor W :=
  let r := replayFills PositionTracker.empty fills
  { e with
    tracker := r.tracker
    exitLevels := r.levels
    knownOrderIds := fills.filterMap (fun f => f.orderId.filter (· ≠ "")) ++ e.knownOrderIds
    journal := [] }

/-- `load_pending_orders`: track stored pending orders again. A row without a placement time
starts its time to live now. -/
def loadPendingOrders (e : CcxtExecutor W) (orders : List PendingOrderRecord) (now : Time) :
    CcxtExecutor W :=
  orders.foldl (fun e o =>
    if o.orderId = "" then e
    else { e with
      orderSymbols := e.orderSymbols.set o.orderId o.symbol
      knownOrderIds := o.orderId :: e.knownOrderIds
      openOrders := e.openOrders.setDefault o.orderId
        ⟨o.symbol, o.side, o.quantity, o.decisionId, o.stopLoss, o.takeProfit, none,
          some (o.placedAt.getD now), o.price⟩ }) e

end CcxtExecutor

/-- `CcxtExecutor` behind the executor protocol. It has no cost attributes of its own. -/
def ccxtExecutor {W : Type} (c : ExchangeClient W) : Executor (CcxtExecutor W) where
  getPositions e := e.getPositions c
  getCash e := e.getCash c
  placeOrder e req stamp := e.placeOrder c req stamp
  updatePrice e symbol price := e.updatePrice symbol price
  pendingBuyValue e := e.pendingBuyValue
  workingOrderSides e symbol := e.workingOrderSides symbol
  entryHooks e := ⟨e.tracker.entryDecisionIds, e.pendingEntryDecisionIds⟩
  costs _ := CostModel.free
  buyPriceFactor e := e.buyPriceFactor

end SmartyTrader
