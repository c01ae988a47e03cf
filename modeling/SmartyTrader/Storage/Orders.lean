import SmartyTrader.Core.Models
import SmartyTrader.Lib.Dict

set_option autoImplicit false

/-! # Stored orders and decisions

The order table of one agent at one venue, and the realized PnL of its decisions. Whether a call
reaches the database or raises is up to the caller of these functions.
-/

namespace SmartyTrader

open Lib

/-- A row of the order table. -/
structure OrderRow where
  orderId : OrderId
  symbol : Symbol
  side : OrderSide
  quantity : ℚ
  price : Option ℚ
  status : OrderStatus
  decisionId : Option DecisionId
  filledAt : Option Time
  createdAt : Time
  realizedPnl : Option ℚ
  strategy : Option String
  feeBase : Option ℚ
  feeQuote : Option ℚ
  deriving DecidableEq

/-- The rows in the order of their ids. -/
abbrev OrderTable := List OrderRow

/-- What `update_order_status` writes; what is `none` is not written. -/
structure OrderPatch where
  status : OrderStatus
  price : Option ℚ
  filledAt : Option Time
  realizedPnl : Option ℚ
  quantity : Option ℚ
  feeBase : Option ℚ
  feeQuote : Option ℚ

def OrderPatch.write (p : OrderPatch) (row : OrderRow) : OrderRow :=
  { row with
    status := p.status
    price := p.price.or row.price
    filledAt := p.filledAt.or row.filledAt
    realizedPnl := p.realizedPnl.or row.realizedPnl
    quantity := p.quantity.getD row.quantity
    feeBase := p.feeBase.or row.feeBase
    feeQuote := p.feeQuote.or row.feeQuote }

namespace OrderTable

def has (t : OrderTable) (orderId : OrderId) : Bool := t.any (fun row => row.orderId = orderId)

/-- `save_order`; order ids are unique. -/
def saveOrder (t : OrderTable) (row : OrderRow) : Except PyError OrderTable :=
  if OrderTable.has t row.orderId then .error (.raised "UNIQUE constraint failed: orders.order_id")
  else .ok (t ++ [row])

/-- `update_order_status`: patch a row, and tell whether there was one. -/
def updateOrderStatus (t : OrderTable) (orderId : OrderId) (patch : OrderPatch) :
    Bool × OrderTable :=
  (OrderTable.has t orderId,
    t.map (fun row => if row.orderId = orderId then patch.write row else row))

/-- `get_filled_orders`. -/
def getFilledOrders (t : OrderTable) : List OrderRow := t.filter (fun row => row.status = .filled)

/-- `get_pending_orders`. -/
def getPendingOrders (t : OrderTable) : List OrderRow :=
  t.filter (fun row => row.status = .pending)

end OrderTable

/-- A row whose id is new is stored. -/
theorem saveOrder_of_fresh {t : OrderTable} {row : OrderRow}
    (h : row.orderId ∉ t.map OrderRow.orderId) : OrderTable.saveOrder t row = .ok (t ++ [row]) := by
  unfold OrderTable.saveOrder OrderTable.has
  rw [if_neg]
  intro hany
  obtain ⟨other, hother, heq⟩ := List.any_eq_true.mp hany
  rw [decide_eq_true_eq] at heq
  exact h (heq ▸ List.mem_map_of_mem hother)

/-- A row whose id is taken is not. -/
theorem saveOrder_of_mem {t : OrderTable} {row : OrderRow}
    (h : row.orderId ∈ t.map OrderRow.orderId) : ∃ err, OrderTable.saveOrder t row = .error err := by
  obtain ⟨other, hother, heq⟩ := List.mem_map.mp h
  unfold OrderTable.saveOrder OrderTable.has
  rw [if_pos (List.any_eq_true.mpr ⟨other, hother, by simpa using heq⟩)]
  exact ⟨_, rfl⟩

theorem map_orderId_updateOrderStatus (t : OrderTable) (orderId : OrderId) (patch : OrderPatch) :
    (OrderTable.updateOrderStatus t orderId patch).2.map OrderRow.orderId
      = t.map OrderRow.orderId := by
  unfold OrderTable.updateOrderStatus
  rw [List.map_map]
  apply List.map_congr_left
  intro row _
  dsimp only [Function.comp_apply]
  split <;> rfl

/-- Among unique ids a patch reaches one row. -/
theorem updateOrderStatus_split {older newer : OrderTable} {row : OrderRow} (patch : OrderPatch)
    (h : ((older ++ row :: newer).map OrderRow.orderId).Nodup) :
    (OrderTable.updateOrderStatus (older ++ row :: newer) row.orderId patch).2
      = older ++ patch.write row :: newer := by
  rw [List.map_append, List.map_cons, List.nodup_append, List.nodup_cons] at h
  obtain ⟨-, ⟨hnewer, -⟩, holder⟩ := h
  have hkeep : ∀ t : OrderTable, row.orderId ∉ t.map OrderRow.orderId →
      t.map (fun r => if r.orderId = row.orderId then patch.write r else r) = t := by
    intro t ht
    conv_rhs => rw [← List.map_id t]
    apply List.map_congr_left
    intro other hother
    refine if_neg (fun heq => ht ?_)
    rw [← heq]
    exact List.mem_map_of_mem hother
  unfold OrderTable.updateOrderStatus
  dsimp only
  rw [List.map_append, List.map_cons, if_pos rfl, hkeep newer hnewer, hkeep older]
  exact fun hm => holder _ hm _ List.mem_cons_self rfl

/-- The realized PnL of each decision row. -/
abbrev DecisionPnl := Dict DecisionId (Option ℚ)

/-- `add_realized_pnl`: `COALESCE(realized_pnl, 0) + delta`, where there is such a row. -/
def DecisionPnl.addRealizedPnl (d : DecisionPnl) (id : DecisionId) (delta : ℚ) : DecisionPnl :=
  match d.get? id with
  | none => d
  | some pnl => d.set id (some (pnl.getD 0 + delta))

end SmartyTrader
