import SmartyTrader.Execution.CcxtExecutor

set_option autoImplicit false

/-! # Stock executor over Saxo OpenAPI

Long-only, whole shares, market orders. Fills come from the order audit log: a placement polls
it a few times, and an order that is still working is tracked and resolved by
`reconcileOpenOrders` with the same two phases as the ccxt executor. Records, tracked orders
and the ledger are the ones of that executor.
-/

namespace SmartyTrader

open Lib

/-! ## Payloads -/

/-- The latest audit entry of an order. `averagePrice` is `none` when the key is missing. -/
structure SaxoActivity where
  status : Option String
  filledAmount : Option ℚ
  averagePrice : Option (Option ℚ)
  executionPrice : Option ℚ
  subStatus : Option String
  deriving DecidableEq

structure SaxoAccountRow where
  active : Bool
  accountKey : String
  clientKey : Option String
  currency : String
  accountId : Option String

structure SaxoInstrumentRow where
  identifier : ℤ
  symbol : String
  currencyCode : String

/-- One net position; `currentPrice` is `none` when the key is missing. -/
structure SaxoNetPosition where
  assetType : Option String
  uic : Option ℤ
  amount : Option ℚ
  currentPrice : Option (Option ℚ)

structure SaxoInstrument where
  uic : ℤ
  symbol : String
  currency : String

structure SaxoAccount where
  key : String
  clientKey : Option String
  currency : String
  accountId : Option String

/-- The calls of the executor. A placement returns a non-empty order id or raises. -/
structure SaxoClient (W : Type) where
  getAccounts : W → Except PyError (List SaxoAccountRow) × W
  findInstruments : String → String → W → Except PyError (List SaxoInstrumentRow) × W
  placeMarketOrder : String → ℤ → OrderSide → ℚ → String → W → Except PyError OrderId × W
  getOrderActivity : OrderId → W → Except PyError (Option SaxoActivity) × W
  getNetPositions : W → Except PyError (List SaxoNetPosition) × W
  getBalance : String → Option String → W → Except PyError (Option ℚ) × W
  cancelOrder : OrderId → String → W → Except PyError Unit × W

def filledStatuses : List String := ["finalfill"]

def deadStatuses : List String := ["cancelled", "canceled", "expired", "rejected", "deleted"]

/-- `_resolve_activity`: status, quantity, average price and reason. -/
def resolveActivity (entry : Option SaxoActivity) (requested : ℚ) :
    OrderStatus × ℚ × Option ℚ × Option OrderReason :=
  match entry with
  | none => (.pending, requested, none, none)
  | some entry =>
      let status := lower (orText entry.status "")
      let filled := orNumber entry.filledAmount 0
      let price := entry.averagePrice.getD entry.executionPrice
      if status ∈ filledStatuses then (.filled, if filled = 0 then requested else filled, price, none)
      else if status ∈ deadStatuses then
        if filled > 0 then (.filled, filled, price, some .partiallyFilledSaxo)
        else
          (if status = "rejected" then .rejected else .cancelled, requested, none,
            some (.saxoStatus (orText entry.subStatus status)))
      else (.pending, requested, none, none)

/-! ## State -/

structure SaxoConfig where
  accountKey : Option String
  accountCurrency : Option String
  symbolMap : Dict Symbol String
  assetType : String
  amountDecimals : ℕ
  /-- One poll for each configured delay. -/
  fillPolls : ℕ
  maxFillDeviation : ℚ

/-- The executor, over the world of its client. The journal is that of the ccxt executor. -/
structure SaxoExecutor (W : Type) where
  world : W
  config : SaxoConfig
  account : Option SaxoAccount
  instruments : Dict Symbol SaxoInstrument
  tracker : PositionTracker
  exitLevels : Dict Symbol ExitLevels
  marks : Dict Symbol ℚ
  openOrders : Dict OrderId PendingOrder
  journal : List LedgerEntry

namespace SaxoExecutor

variable {W : Type}

def create (w : W) (config : SaxoConfig) : SaxoExecutor W :=
  ⟨w, config, none, Dict.empty, PositionTracker.empty, Dict.empty, Dict.empty, Dict.empty, []⟩

/-! ## Booking -/

/-- `_floor_amount`: round down, with a hair of tolerance. -/
def floorAmount (e : SaxoExecutor W) (quantity : ℚ) : ℚ :=
  let scale : ℚ := 10 ^ e.config.amountDecimals
  (⌊quantity * scale + 1 / 1000000000⌋ : ℤ) / scale

/-- `_checked_fill_price`: the venue's price, or the requested one when that is missing or
implausible. -/
def checkedFillPrice (e : SaxoExecutor W) (fill requested : Option ℚ) : Option ℚ :=
  match fill with
  | none => requested
  | some fill =>
      if fill > 0 then
        match requested with
        | none => some fill
        | some r =>
            if r > 0 ∧ |fill - r| / r > e.config.maxFillDeviation then some r else some fill
      else requested

/-- `_record_fill`: the realized PnL and the closed entries of a closing sell, gross of
commission. -/
def recordFill (e : SaxoExecutor W) (orderId : OrderId) (symbol : Symbol) (side : OrderSide)
    (quantity price : ℚ) (decisionId : Option DecisionId) (levels : ExitLevels) :
    (Option ℚ × List ClosedEntry) × SaxoExecutor W :=
  let journal := e.journal ++ [.fill ⟨orderId, symbol, side, quantity, price, 0, 0, decisionId⟩]
  match side with
  | .buy =>
      ((none, []), { e with
        tracker := e.tracker.onBuy symbol quantity price 0 decisionId
        exitLevels := e.exitLevels.set symbol levels
        journal := journal })
  | .sell =>
      if e.tracker.quantity symbol ≤ 0 then ((none, []), { e with journal := journal })
      else
        let r := e.tracker.onSell symbol quantity price 0
        ((some r.1.grossPnl, r.1.closedEntries), { e with
          tracker := r.2
          exitLevels := if r.2.quantity symbol ≤ 0 then e.exitLevels.erase symbol else e.exitLevels
          journal := journal })

section Client

variable (c : SaxoClient W)

/-! ## Account and instruments -/

/-- `_get_account`: the configured account, or the only active one. -/
def getAccount (e : SaxoExecutor W) : Except PyError SaxoAccount × SaxoExecutor W :=
  match e.account with
  | some account => (.ok account, e)
  | none =>
      match c.getAccounts e.world with
      | (.error err, w) => (.error err, { e with world := w })
      | (.ok rows, w) =>
          let rows : List SaxoAccountRow := rows.filter SaxoAccountRow.active
          let rows : List SaxoAccountRow :=
            match e.config.accountKey, e.config.accountCurrency with
            | some key, _ => rows.filter (fun a => a.accountKey = key)
            | none, some currency => rows.filter (fun a => upper a.currency = upper currency)
            | none, none => rows
          match rows with
          | [row] =>
              let account : SaxoAccount :=
                ⟨row.accountKey, row.clientKey, upper row.currency, row.accountId⟩
              (.ok account, { e with
                world := w
                account := some account })
          | _ => (.error (.raised "cannot choose a Saxo account"), { e with world := w })

/-- `_instrument`: the instrument of a data symbol, when the lookup is unambiguous. -/
def instrument (e : SaxoExecutor W) (symbol : Symbol) :
    Except PyError SaxoInstrument × SaxoExecutor W :=
  match e.instruments.get? symbol with
  | some instrument => (.ok instrument, e)
  | none =>
      let wanted := e.config.symbolMap.get? symbol
      let keyword := String.ofList ((wanted.getD symbol).toList.takeWhile (· ≠ ':'))
      match c.findInstruments keyword e.config.assetType e.world with
      | (.error err, w) => (.error err, { e with world := w })
      | (.ok rows, w) =>
          let found := rows.filter (fun r =>
            match wanted with
            | some name => lower r.symbol = lower name
            | none => ((lower symbol).toList ++ [':']).isPrefixOf (lower r.symbol).toList
                ∨ lower r.symbol = lower symbol)
          match found with
          | [row] =>
              let instrument : SaxoInstrument := ⟨row.identifier, row.symbol, upper row.currencyCode⟩
              (.ok instrument, { e with
                world := w
                instruments := e.instruments.set symbol instrument })
          | _ => (.error (.raised "Saxo instrument is ambiguous or unknown"),
              { e with world := w })

/-! ## Placing orders -/

/-- A refused order. -/
def refuse (req : OrderRequest) (quantity : ℚ) (reason : OrderReason) : OrderResult :=
  OrderResult.basic "" req.symbol req.side quantity req.price .rejected (some reason)

/-- The size of a SELL is capped by the ledger. -/
def cappedQuantity (e : SaxoExecutor W) (req : OrderRequest) : Except OrderReason ℚ :=
  match req.side with
  | .buy => .ok req.quantity
  | .sell =>
      let held := e.tracker.quantity req.symbol
      if held ≤ 0 then .error .nothingTrackedToSell else .ok (min req.quantity held)

/-- The polls right after a placement: they end with the first status that is not pending. -/
def pollFill (orderId : OrderId) (amount : ℚ) :
    ℕ → OrderStatus × ℚ × Option ℚ × Option OrderReason → W →
      (OrderStatus × ℚ × Option ℚ × Option OrderReason) × W
  | 0, last, w => (last, w)
  | n + 1, last, w =>
      match c.getOrderActivity orderId w with
      | (.error _, w) => pollFill orderId amount n last w
      | (.ok entry, w) =>
          let status := resolveActivity entry amount
          if status.1 ≠ .pending then (status, w) else pollFill orderId amount n status w

/-- What `place_order` does with an order the venue accepted. -/
def acceptOrder (e : SaxoExecutor W) (req : OrderRequest) (amount : ℚ) (orderId : OrderId)
    (now : Time) : OrderResult × SaxoExecutor W :=
  let polled := pollFill c orderId amount e.config.fillPolls (.pending, amount, none, none) e.world
  let e := { e with world := polled.2 }
  let (status, quantity, fillPrice, reason) := polled.1
  let result := OrderResult.basic orderId req.symbol req.side quantity req.price status reason
  match status with
  | .filled =>
      let fill := e.checkedFillPrice fillPrice req.price
      let result := { result with
        price := fill
        filledAt := some now }
      match fill with
      | none => (result, e)
      | some price =>
          let r := e.recordFill orderId req.symbol req.side quantity price req.decisionId
            (req.stopLoss, req.takeProfit)
          ({ result with
            realizedPnl := r.1.1
            closedEntries := r.1.2 }, r.2)
  | .pending =>
      let pending : PendingOrder := ⟨req.symbol, req.side, amount, req.decisionId, req.stopLoss,
        req.takeProfit, none, some now, req.price⟩
      (result, { e with openOrders := e.openOrders.set orderId pending })
  | _ => (result, e)

/-- `place_order`. -/
def placeOrder (e : SaxoExecutor W) (req : OrderRequest) (stamp : Stamp) :
    Except PyError OrderResult × SaxoExecutor W :=
  match e.cappedQuantity req with
  | .error reason => (.ok (refuse req req.quantity reason), e)
  | .ok quantity =>
      let amount := e.floorAmount quantity
      if amount ≤ 0 then
        (.ok (refuse req quantity (.roundsToZero quantity e.config.amountDecimals)), e)
      else
        match e.getAccount c with
        | (.error err, e) => (.error err, e)
        | (.ok account, e) =>
            match e.instrument c req.symbol with
            | (.error err, e) => (.error err, e)
            | (.ok instrument, e) =>
                if account.currency ≠ "" ∧ instrument.currency ≠ ""
                    ∧ account.currency ≠ instrument.currency then
                  (.ok (refuse req quantity (.currencyMismatch instrument.symbol
                    instrument.currency account.currency)), e)
                else
                  match c.placeMarketOrder account.key instrument.uic req.side amount
                    e.config.assetType e.world with
                  | (.error err, w) => (.error err, { e with world := w })
                  | (.ok orderId, w) =>
                      let r := acceptOrder c { e with world := w } req amount orderId stamp.now
                      (.ok r.1, r.2)

/-! ## Reconciliation -/

/-- The ledger after an order resolved, and its result. -/
def settle (e : SaxoExecutor W) (orderId : OrderId) (pending : PendingOrder)
    (status : OrderStatus) (quantity : ℚ) (fillPrice : Option ℚ) (reason : Option OrderReason)
    (now : Time) : OrderResult × SaxoExecutor W :=
  let result := OrderResult.basic orderId pending.symbol pending.side quantity fillPrice status
    reason
  if status = .filled then
    let result := { result with filledAt := some now }
    match fillPrice with
    | none => (result, e)
    | some price =>
        let r := e.recordFill orderId pending.symbol pending.side quantity price
          pending.decisionId (pending.stopLoss, pending.takeProfit)
        ({ result with
          realizedPnl := r.1.1
          closedEntries := r.1.2 }, r.2)
  else (result, e)

/-- Remember the terminal result of an order. -/
def resolve (e : SaxoExecutor W) (orderId : OrderId) (pending : PendingOrder)
    (result : OrderResult) : SaxoExecutor W :=
  { e with openOrders := e.openOrders.set orderId { pending with resolved := some result } }

/-- One order of the loop: its terminal result, if it is or was resolved. -/
def reconcileOne (orderId : OrderId) (pending : PendingOrder) (now : Time)
    (e : SaxoExecutor W) : Option OrderResult × SaxoExecutor W :=
  match pending.resolved with
  | some result => (some result, e)
  | none =>
      match c.getOrderActivity orderId e.world with
      | (.error _, w) => (none, { e with world := w })
      | (.ok entry, w) =>
          let e := { e with world := w }
          let status := resolveActivity entry pending.quantity
          if status.1 = .pending then (none, e)
          else
            let r := e.settle orderId pending status.1 status.2.1 status.2.2.1 status.2.2.2 now
            (some r.1, r.2.resolve orderId pending r.1)

/-- The loop over the orders that were tracked when it started. -/
def reconcileEach (now : Time) : List (OrderId × PendingOrder) → SaxoExecutor W →
    List OrderResult × SaxoExecutor W
  | [], e => ([], e)
  | (orderId, pending) :: rest, e =>
      let r := reconcileOne c orderId pending now e
      let rs := reconcileEach now rest r.2
      (r.1.toList ++ rs.1, rs.2)

/-- `reconcile_open_orders`. -/
def reconcileOpenOrders (now : Time) (e : SaxoExecutor W) : List OrderResult × SaxoExecutor W :=
  reconcileEach c now e.openOrders.entries e

/-- `confirm_reconciled`. -/
def confirmReconciled (e : SaxoExecutor W) (orderId : OrderId) : SaxoExecutor W :=
  match e.openOrders.get? orderId with
  | some pending =>
      if pending.resolved.isSome then { e with openOrders := e.openOrders.erase orderId } else e
  | none => e

/-- `cancel_order`. -/
def cancelOrder (e : SaxoExecutor W) (orderId : OrderId) : Bool × SaxoExecutor W :=
  match e.getAccount c with
  | (.error _, e) => (false, e)
  | (.ok account, e) =>
      match c.cancelOrder orderId account.key e.world with
      | (.error _, w) => (false, { e with world := w })
      | (.ok _, w) =>
          (true, { e with
            world := w
            openOrders := e.openOrders.erase orderId })

/-! ## Reads -/

def updatePrice (e : SaxoExecutor W) (symbol : Symbol) (newPrice : ℚ) : SaxoExecutor W :=
  if newPrice > 0 then { e with marks := e.marks.set symbol newPrice } else e

/-- The net amount and the last price of each instrument of the executor's asset type. -/
def netPositions (e : SaxoExecutor W) (rows : List SaxoNetPosition) :
    Dict ℤ (ℚ × Option ℚ) :=
  rows.foldl (fun net row =>
    match row.uic with
    | none => net
    | some uic =>
        if row.assetType.any (· ≠ e.config.assetType) then net
        else
          let seen := (net.get? uic).getD (0, none)
          net.set uic (seen.1 + orNumber row.amount 0, row.currentPrice.getD seen.2)) Dict.empty

/-- The position of one ledger symbol, with the venue's amount and price when known. -/
def positionOf (e : SaxoExecutor W) (venue : Option (ℚ × Option ℚ)) (symbol : Symbol) :
    Option Position :=
  let quantity := e.tracker.quantity symbol
  let quantity :=
    match venue with
    | some (held, _) => min quantity (max held 0)
    | none => quantity
  if quantity ≤ lotEpsilon then none
  else
    let avg := (e.tracker.averagePrice symbol).getD 0
    let mark := orNumber (e.marks.get? symbol) (orNumber (venue.bind Prod.snd) avg)
    let levels := (e.exitLevels.get? symbol).getD (none, none)
    some ⟨symbol, quantity, avg, mark, .long, levels.1, levels.2⟩

/-- The loop of `get_positions` over the ledger symbols. -/
def positionsOf (net : Option (Dict ℤ (ℚ × Option ℚ))) :
    List Symbol → SaxoExecutor W → List Position × SaxoExecutor W
  | [], e => ([], e)
  | symbol :: rest, e =>
      match net with
      | none =>
          let rs := positionsOf net rest e
          ((e.positionOf none symbol).toList ++ rs.1, rs.2)
      | some d =>
          let r := e.instrument c symbol
          let venue := r.1.toOption.map (fun i => (d.get? i.uic).getD (0, none))
          let rs := positionsOf net rest r.2
          ((r.2.positionOf venue symbol).toList ++ rs.1, rs.2)

/-- `get_positions`: the ledger's positions, capped by Saxo's net positions. -/
def getPositions (e : SaxoExecutor W) : Except PyError (List Position) × SaxoExecutor W :=
  let r := c.getNetPositions e.world
  let e := { e with world := r.2 }
  let ps := positionsOf c (r.1.toOption.map e.netPositions) e.tracker.symbols e
  (.ok ps.1, ps.2)

/-- `get_cash`. -/
def getCash (e : SaxoExecutor W) : Except PyError ℚ × SaxoExecutor W :=
  match e.getAccount c with
  | (.error err, e) => (.error err, e)
  | (.ok account, e) =>
      match c.getBalance account.key account.clientKey e.world with
      | (.error err, w) => (.error err, { e with world := w })
      | (.ok cash, w) => (.ok (cash.getD 0), { e with world := w })

end Client

/-! ## Hooks and startup -/

/-- Sides with an order still working in a symbol. -/
def workingOrderSides (e : SaxoExecutor W) (symbol : Symbol) : List OrderSide :=
  (e.openOrders.values.filter (fun p => p.symbol = symbol ∧ p.resolved = none)).map
    PendingOrder.side

/-- Cash committed to still-working BUYs. -/
def pendingBuyValue (e : SaxoExecutor W) : ℚ :=
  (e.openOrders.values.filterMap (fun p =>
    if p.side = .buy ∧ p.resolved = none then p.price.map (p.quantity * ·) else none)).sum

/-- Decisions of BUY orders still working in a symbol. -/
def pendingEntryDecisionIds (e : SaxoExecutor W) (symbol : Symbol) : List (Option DecisionId) :=
  (e.openOrders.values.filter (fun p =>
    p.symbol = symbol ∧ p.side = .buy ∧ p.resolved = none)).map PendingOrder.decisionId

def pendingDecisionId (e : SaxoExecutor W) (orderId : OrderId) : Option DecisionId :=
  (e.openOrders.get? orderId).bind PendingOrder.decisionId

/-- `load_fills`. -/
def loadFills (e : SaxoExecutor W) (fills : List FillRecord) : SaxoExecutor W :=
  let r := replayFills PositionTracker.empty fills
  { e with
    tracker := r.tracker
    exitLevels := r.levels
    journal := [] }

/-- `load_pending_orders`. -/
def loadPendingOrders (e : SaxoExecutor W) (orders : List PendingOrderRecord) : SaxoExecutor W :=
  orders.foldl (fun e o =>
    if o.orderId = "" then e
    else
      let pending : PendingOrder := ⟨o.symbol, o.side, o.quantity, o.decisionId, o.stopLoss,
        o.takeProfit, none, none, o.price⟩
      { e with openOrders := e.openOrders.setDefault o.orderId pending }) e

end SaxoExecutor

end SmartyTrader
