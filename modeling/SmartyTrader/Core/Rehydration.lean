import SmartyTrader.Execution.PositionTracker
import SmartyTrader.Storage.Orders

set_option autoImplicit false

/-! # Rehydration of the ledger

At startup an executor replays its stored fills. The paper executor and the venue executors
read the same rows differently: a paper row carries no fees and no levels, and a venue executor
skips rows of paper orders.
-/

namespace SmartyTrader

open Lib

/-- `_is_paper_order`. -/
def isPaperOrder (orderId : OrderId) : Bool := "paper-".toList.isPrefixOf orderId.toList

/-- The record of a row with a price, for the paper executor. -/
def paperFill (row : OrderRow) : Option FillRecord :=
  row.price.map (fun price =>
    { symbol := row.symbol
      side := some row.side
      quantity := row.quantity
      price := price
      decisionId := row.decisionId
      stopLoss := none
      takeProfit := none
      feeBase := 0
      feeQuote := 0
      orderId := none })

/-- The record of a row with a price, for a venue executor. `levels` are the exit levels read
for the latest BUY of each symbol. -/
def venueFill (levels : Dict DecisionId ExitLevels) (row : OrderRow) : Option FillRecord :=
  if isPaperOrder row.orderId then none
  else
    row.price.map (fun price =>
      let exits :=
        if row.side = .buy then (row.decisionId.bind levels.get?).getD (none, none)
        else (none, none)
      { symbol := row.symbol
        side := some row.side
        quantity := row.quantity
        price := price
        decisionId := row.decisionId
        stopLoss := exits.1
        takeProfit := exits.2
        feeBase := row.feeBase.getD 0
        feeQuote := row.feeQuote.getD 0
        orderId := some row.orderId })

/-- The executors that replay stored fills. -/
inductive LedgerOwner where
  | paper
  | venue
  deriving DecidableEq

/-- How an executor reads a filled row. -/
def LedgerOwner.read (levels : Dict DecisionId ExitLevels) :
    LedgerOwner → OrderRow → Option FillRecord
  | .paper => paperFill
  | .venue => venueFill levels

/-- The filled rows an executor replays, in the order of their ids. -/
def OrderTable.fills (owner : LedgerOwner) (levels : Dict DecisionId ExitLevels)
    (t : OrderTable) : List FillRecord :=
  (OrderTable.getFilledOrders t).filterMap (owner.read levels)

/-- The ledger rebuilt from the stored rows. -/
def OrderTable.rebuild (owner : LedgerOwner) (levels : Dict DecisionId ExitLevels)
    (t : OrderTable) : PositionTracker :=
  (replayFills PositionTracker.empty (OrderTable.fills owner levels t)).tracker

/-! ## The lots of one symbol -/

/-- What a BUY adds to the ledger: a base-currency fee shrinks it, unless it exceeds the
fill. -/
def FillRecord.booked (f : FillRecord) : ℚ :=
  if 0 < f.feeBase ∧ f.feeBase < f.quantity then f.quantity - f.feeBase else f.quantity

/-- The lots of a record's symbol after the record. -/
def FillRecord.bookLots (f : FillRecord) (ls : List Lot) : List Lot :=
  match f.side with
  | none => ls
  | some .buy =>
      if f.booked ≤ 0 then ls
      else ls ++ [⟨f.booked, f.price,
        (if f.feeBase ≥ f.quantity ∧ f.quantity > 0 then 0 else f.feeBase) * f.price
          + f.feeQuote, f.decisionId⟩]
  | some .sell =>
      if Fifo.total ls ≤ 0 then ls
      else (consume (fun entry => f.price - entry) f.quantity (f.feeQuote + f.feeBase * f.price)
        f.quantity ls Consumed.start).2

theorem lotsOf_replayStep (r : Replay) (f : FillRecord) (s : Symbol) :
    (r.step f).tracker.lotsOf s
      = if f.symbol = s then f.bookLots (r.tracker.lotsOf s) else r.tracker.lotsOf s := by
  unfold Replay.step FillRecord.bookLots
  rcases hside : f.side with _ | _ | _
  · simp
  · unfold bookFill FillRecord.booked
    dsimp only
    generalize (if 0 < f.feeBase ∧ f.feeBase < f.quantity then f.quantity - f.feeBase
      else f.quantity) = q
    by_cases hq : q ≤ 0
    · rw [PositionTracker.onBuy, if_pos hq, if_pos hq, ite_self]
    · rw [PositionTracker.lotsOf_onBuy _ _ _ _ _ _ _ (not_le.mp hq), if_neg hq]
      by_cases hs : f.symbol = s
      · rw [if_pos hs, if_pos hs, hs]
      · rw [if_neg hs, if_neg hs]
  · unfold bookFill PositionTracker.quantity
    dsimp only
    by_cases ht : Fifo.total (r.tracker.lotsOf f.symbol) ≤ 0
    · rw [if_pos ht]
      by_cases hs : f.symbol = s
      · rw [if_pos hs, ← hs, if_pos ht]
      · rw [if_neg hs]
    · rw [if_neg ht, PositionTracker.lotsOf_onSell]
      by_cases hs : f.symbol = s
      · rw [if_pos hs, if_pos hs, ← hs, if_neg ht]
      · rw [if_neg hs, if_neg hs]

theorem positive_bookLots (f : FillRecord) {ls : List Lot} (h : Fifo.Positive ls) :
    Fifo.Positive (f.bookLots ls) := by
  unfold FillRecord.bookLots
  rcases f.side with _ | _ | _
  · exact h
  · dsimp only
    split_ifs with hq
    · exact h
    · exact h.append (Fifo.Positive.cons (not_le.mp hq) Fifo.Positive.nil)
    · exact h.append (Fifo.Positive.cons (not_le.mp hq) Fifo.Positive.nil)
  · dsimp only
    split_ifs with ht
    · exact h
    · exact positive_consume _ _ _ h _ _

/-- On a grid wider than the tolerance a SELL leaves the exact queue. -/
theorem bookLots_sell {u : ℚ} (hu : lotEpsilon < u) {f : FillRecord} (hside : f.side = some .sell)
    (hg : f.quantity ∈ grid u) {ls : List Lot} (hp : Fifo.Positive ls)
    (hls : ∀ l ∈ ls, l.quantity ∈ grid u) : f.bookLots ls = Fifo.drop f.quantity ls := by
  unfold FillRecord.bookLots
  rw [hside]
  dsimp only
  by_cases ht : Fifo.total ls ≤ 0
  · rw [if_pos ht, Fifo.eq_nil_of_total_nonpos hp ht, Fifo.drop_nil]
  · rw [if_neg ht]
    by_cases hq : f.quantity ≤ 0
    · rw [consume_of_nonpos _ _ _ hq, Fifo.drop_of_nonpos _ hq]
    · rw [consume_eq hu _ _ _ (not_le.mp hq) hp hls hg]

/-- The record of a filled row of a symbol. The exit levels are left out: no lot depends on
them. -/
def OrderRow.fillOf (owner : LedgerOwner) (s : Symbol) (row : OrderRow) : Option FillRecord :=
  if row.status = .filled then (owner.read Dict.empty row).filter (fun f => f.symbol = s)
  else none

/-- The lots of a symbol after a row. -/
def bookRow (owner : LedgerOwner) (s : Symbol) (ls : List Lot) (row : OrderRow) : List Lot :=
  match row.fillOf owner s with
  | none => ls
  | some f => f.bookLots ls

/-- The exit levels aside, a row is read the same way whatever levels there are. -/
theorem read_levels (owner : LedgerOwner) (levels levels' : Dict DecisionId ExitLevels)
    (row : OrderRow) :
    (owner.read levels row).map (fun f => (f.symbol, f.bookLots))
      = (owner.read levels' row).map (fun f => (f.symbol, f.bookLots)) := by
  cases owner with
  | paper => rfl
  | venue =>
      unfold LedgerOwner.read venueFill
      dsimp only
      by_cases hp : isPaperOrder row.orderId
      · rw [if_pos hp, if_pos hp]
      · rw [if_neg hp, if_neg hp]
        cases row.price <;> rfl

theorem bookRow_eq (owner : LedgerOwner) (levels : Dict DecisionId ExitLevels) (s : Symbol)
    (ls : List Lot) {row : OrderRow} (hrow : row.status = .filled) :
    bookRow owner s ls row =
      match owner.read levels row with
      | none => ls
      | some f => if f.symbol = s then f.bookLots ls else ls := by
  have hread := read_levels owner levels Dict.empty row
  unfold bookRow OrderRow.fillOf
  rw [if_pos hrow]
  cases hf : owner.read levels row with
  | none =>
      rw [hf, Option.map_none, eq_comm, Option.map_eq_none_iff] at hread
      rw [hread]
      rfl
  | some f =>
      rw [hf, Option.map_some, eq_comm, Option.map_eq_some_iff] at hread
      obtain ⟨g, hg, heq⟩ := hread
      obtain ⟨hs, hb⟩ := Prod.mk.inj heq
      rw [hg]
      dsimp only
      rw [← hb, ← hs]
      by_cases h : g.symbol = s
      · simp [Option.filter, h]
      · simp [Option.filter, h]

/-- A replay keeps the symbols apart. -/
theorem lotsOf_rebuild (owner : LedgerOwner) (levels : Dict DecisionId ExitLevels)
    (t : OrderTable) (s : Symbol) :
    (OrderTable.rebuild owner levels t).lotsOf s = t.foldl (bookRow owner s) [] := by
  suffices h : ∀ r : Replay, ((OrderTable.fills owner levels t).foldl Replay.step r).tracker.lotsOf
      s = t.foldl (bookRow owner s) (r.tracker.lotsOf s) from h _
  induction t with
  | nil => exact fun r => rfl
  | cons row rest ih =>
      intro r
      unfold OrderTable.fills OrderTable.getFilledOrders at ih ⊢
      rw [List.foldl_cons]
      by_cases hrow : row.status = .filled
      · rw [List.filter_cons_of_pos (by simpa using hrow), bookRow_eq owner levels s _ hrow]
        cases hf : owner.read levels row with
        | none =>
            rw [List.filterMap_cons_none hf]
            exact ih r
        | some f =>
            rw [List.filterMap_cons_some hf, List.foldl_cons, ih, lotsOf_replayStep]
      · have hnone : bookRow owner s (r.tracker.lotsOf s) row = r.tracker.lotsOf s := by
          simp [bookRow, OrderRow.fillOf, hrow]
        rw [List.filter_cons_of_neg (by simpa using hrow), hnone]
        exact ih r

end SmartyTrader
