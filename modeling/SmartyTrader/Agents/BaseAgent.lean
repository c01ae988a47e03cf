import SmartyTrader.Core.PipelineEffect
import SmartyTrader.Lib.TwoPhase
import SmartyTrader.Storage.Orders

set_option autoImplicit false

/-! # The reconciliation handling of the agent

`_reconcile_orders`: ask the executor for settled orders, patch their rows, add what they
realized to the entry decisions, feed the loss streak and confirm them. A row that cannot be
written leaves the order unconfirmed, so that the executor returns it again. A failed write of a
decision's PnL is swallowed, and with sleeves the strategy of the outcome is read only after the
decisions were written: these are the two ways in which an order is not accounted exactly once.
-/

namespace SmartyTrader

open Lib TwoPhase

variable {σ ι : Type}

/-! ## State -/

/-- A write that added a share of an order's PnL to an entry decision. -/
structure AddedPnl where
  orderId : OrderId
  decisionId : DecisionId
  pnl : ℚ
  deriving DecidableEq

/-- The agent: the objects its pipelines share, and its storage. The last three fields list the
effects of the reconciliations so far; no function reads them. -/
structure BaseAgent (σ : Type) where
  pipeline : PipelineState σ
  orders : OrderTable
  decisions : DecisionPnl
  added : List AddedPnl
  outcomes : List (OrderId × Bool)
  confirmed : List OrderResult

/-- How the agent uses a two-phase executor: how it asks for results and confirms one, and the
hook `pending_decision_id`. -/
structure Reconciliation (C : Component σ ι OrderId OrderResult) where
  ask : Time → ι
  confirm : OrderId → ι
  confirms_confirm : ∀ k, C.confirms (confirm k) = some k
  key_eq : C.key = OrderResult.orderId
  pendingDecisionId : σ → OrderId → Option DecisionId

/-- What storage does with the calls about one order in one cycle. -/
structure StorageCalls where
  update : Except PyError Unit
  /-- The read of the decision's sleeve for a row that is written again. -/
  rowStrategy : MetaRead
  save : Except PyError Unit
  /-- Whether each write of `add_realized_pnl`, in their order, fails; it does not raise. -/
  addFails : ℕ → Bool
  /-- The read of the decision's sleeve for the loss streak. -/
  outcomeStrategy : MetaRead

/-- The filled order of a position that it closed. -/
def OrderResult.closing (order : OrderResult) : Option ℚ :=
  if order.status = .filled then order.realizedPnl else none

/-- The shares of an order that belong to a decision. -/
def OrderResult.shares (order : OrderResult) : List AddedPnl :=
  order.closedEntries.filterMap (fun entry =>
    entry.entryDecisionId.map (fun id => ⟨order.orderId, id, entry.pnl⟩))

namespace BaseAgent

/-! ## The steps of the handling -/

section Steps

variable {C : Component σ ι OrderId OrderResult} (h : Reconciliation C)

/-- The row patch of a reconciled order. A fill without a time is stamped now. -/
def patchOf (order : OrderResult) (now : Time) : OrderPatch where
  status := order.status
  price := order.price
  filledAt := if order.status = .filled then some (order.filledAt.getD now) else order.filledAt
  realizedPnl := if order.status = .filled then order.realizedPnl else none
  quantity := if order.status = .filled then some order.quantity else none
  feeBase := order.feeBase
  feeQuote := order.feeQuote

/-- The row of an order whose own row was lost. -/
def rowOf (order : OrderResult) (decisionId : Option DecisionId) (strategy : Option String)
    (now : Time) : OrderRow where
  orderId := order.orderId
  symbol := order.symbol
  side := order.side
  quantity := order.quantity
  price := order.price
  status := order.status
  decisionId := decisionId
  filledAt := if order.status = .filled then some (order.filledAt.getD now) else none
  createdAt := now
  realizedPnl := if order.status = .filled then order.realizedPnl else none
  strategy := strategy
  feeBase := order.feeBase
  feeQuote := order.feeQuote

/-- `strategy_of_decision` of the book, nothing without sleeves. -/
def strategyOf (read : MetaRead) (decisionId : Option DecisionId) (st : BaseAgent σ) :
    Except PyError (Option String) × BaseAgent σ :=
  match st.pipeline.book with
  | none => (.ok none, st)
  | some b =>
      let r := b.strategyOfDecision read decisionId
      (r.1.map some, { st with pipeline := { st.pipeline with book := some r.2 } })

/-- Patch the row of an order, or write it again when it is lost. -/
def persistUpdate (calls : StorageCalls) (now : Time) (order : OrderResult)
    (st : BaseAgent σ) : Except PyError Unit × BaseAgent σ :=
  match calls.update with
  | .error err => (.error err, st)
  | .ok _ =>
      let r := OrderTable.updateOrderStatus st.orders order.orderId (patchOf order now)
      let st := { st with orders := r.2 }
      if r.1 then (.ok (), st)
      else
        let decisionId := h.pendingDecisionId st.pipeline.executor order.orderId
        match strategyOf calls.rowStrategy decisionId st with
        | (.error err, st) => (.error err, st)
        | (.ok strategy, st) =>
            match calls.save,
              OrderTable.saveOrder st.orders (rowOf order decisionId strategy now) with
            | .error err, _ => (.error err, st)
            | .ok _, .error err => (.error err, st)
            | .ok _, .ok orders => (.ok (), { st with orders := orders })

/-- One `add_realized_pnl`; a failed write is swallowed. -/
def addShare (calls : StorageCalls) (st : BaseAgent σ) (write : AddedPnl × ℕ) : BaseAgent σ :=
  if calls.addFails write.2 then st
  else
    { st with
      decisions := DecisionPnl.addRealizedPnl st.decisions write.1.decisionId write.1.pnl
      added := st.added ++ [write.1] }

/-- The loop over `closed_entries`. -/
def addShares (calls : StorageCalls) (order : OrderResult) (st : BaseAgent σ) : BaseAgent σ :=
  order.shares.zipIdx.foldl (addShare calls) st

/-- Feed a closing fill to the loss streak of the sleeve that decided it. -/
def recordClosing (calls : StorageCalls) (now : Time) (order : OrderResult) (st : BaseAgent σ) :
    Except PyError Unit × BaseAgent σ :=
  match order.closing with
  | none => (.ok (), st)
  | some pnl =>
      match strategyOf calls.outcomeStrategy
        (h.pendingDecisionId st.pipeline.executor order.orderId) st with
      | (.error err, st) => (.error err, st)
      | (.ok strategy, st) =>
          (.ok (), { st with
            pipeline := st.pipeline.recordOutcome agentPipeline strategy (pnl ≥ 0) now
            outcomes := st.outcomes ++ [(order.orderId, decide (pnl ≥ 0))] })

def confirmOrder (order : OrderResult) (st : BaseAgent σ) : BaseAgent σ :=
  { st with
    pipeline := { st.pipeline with
      executor := C.step (h.confirm order.orderId) st.pipeline.executor }
    confirmed := st.confirmed ++ [order] }

/-- One order of the loop. An order that could not be stored is left for the next cycle; an
exception of the outcome leaves the loop. -/
def handleUpdate (calls : StorageCalls) (now : Time) (order : OrderResult) (st : BaseAgent σ) :
    Except PyError Unit × BaseAgent σ :=
  match persistUpdate h calls now order st with
  | (.error _, st) => (.ok (), st)
  | (.ok _, st) =>
      match recordClosing h calls now order (st.addShares calls order) with
      | (.error err, st) => (.error err, st)
      | (.ok _, st) => (.ok (), confirmOrder h order st)

/-- The loop over the results. -/
def handleUpdates (calls : OrderId → StorageCalls) (now : Time) :
    List OrderResult → BaseAgent σ → Except PyError Unit × BaseAgent σ
  | [], st => (.ok (), st)
  | order :: rest, st =>
      match handleUpdate h (calls order.orderId) now order st with
      | (.error err, st) => (.error err, st)
      | (.ok _, st) => handleUpdates calls now rest st

/-- `_reconcile_orders`, up to the snapshot of the book that follows it. -/
def reconcileOrders (calls : OrderId → StorageCalls) (now : Time) (st : BaseAgent σ) :
    BaseAgent σ :=
  let s := st.pipeline.executor
  let st' := { st with
    pipeline := { st.pipeline with executor := C.step (h.ask now) s } }
  match C.returned (h.ask now) s with
  | none => st'
  | some updates => (handleUpdates h calls now updates st').2

end Steps

end BaseAgent

end SmartyTrader
