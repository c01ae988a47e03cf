import SmartyTrader.Core.Sleeves
import SmartyTrader.Storage.Orders

set_option autoImplicit false

/-! # Stored decisions and allocations

What strategy sleeves read from the database: the sleeve and the time of a decision, what a sleeve
has realized since a time, and the latest capital split.
-/

namespace SmartyTrader

open Lib

/-- What sleeves read of a row of `llm_decisions`. -/
structure DecisionRow where
  strategy : Option String
  timestamp : Time
  deriving DecidableEq

/-- The rows under their ids. -/
abbrev DecisionTable := Dict DecisionId DecisionRow

def DecisionRow.meta (row : DecisionRow) : DecisionMeta := (row.strategy, some row.timestamp)

namespace DecisionTable

/-- `get_decision_strategies`, of a database that answers. -/
def getDecisionStrategies (t : DecisionTable) : MetaRead := fun ids =>
  .ok ((t.entries.filter (fun e => e.1 ∈ ids)).map (fun e => (e.1, e.2.meta)))

/-- What the table says of a decision, nothing when there is no such row. -/
def metaOf (t : DecisionTable) (id : DecisionId) : DecisionMeta :=
  ((t.get? id).map DecisionRow.meta).getD (none, none)

end DecisionTable

theorem lookup_getDecisionStrategies (t : DecisionTable) {ids : List DecisionId} {id : DecisionId}
    (h : id ∈ ids) :
    (Dict.lookup id ((t.entries.filter (fun e => e.1 ∈ ids)).map
      (fun e => (e.1, e.2.meta)))).getD (none, none) = DecisionTable.metaOf t id := by
  unfold DecisionTable.metaOf Dict.get?
  congr 1
  induction t.entries with
  | nil => rfl
  | cons e es ih =>
      obtain ⟨k, row⟩ := e
      by_cases hk : k = id
      · rw [List.filter_cons_of_pos (by simpa [hk] using h)]
        simp [Dict.lookup, hk]
      · by_cases hmem : k ∈ ids
        · rw [List.filter_cons_of_pos (by simpa using hmem)]
          simpa [Dict.lookup, hk] using ih
        · rw [List.filter_cons_of_neg (by simpa using hmem)]
          simpa [Dict.lookup, hk] using ih

/-- `get_strategy_realized_pnl`: what the filled rows of a sleeve realized at or after a time. -/
def OrderTable.strategyRealizedPnl (t : OrderTable) (strategy : String) (since : Time) : ℚ :=
  ((t.filter (fun row => row.status = .filled ∧ row.strategy = some strategy ∧
    row.filledAt.any (fun time => since ≤ time))).filterMap OrderRow.realizedPnl).sum

/-- Why an allocation was recorded. -/
inductive AllocationReason where
  | initial
  | weightsChanged
  deriving DecidableEq

/-- A row of `strategy_allocations`. -/
structure AllocationRow where
  baseEquity : ℚ
  weights : Dict String ℚ
  reason : AllocationReason
  createdAt : Time

/-- The rows in the order of their ids. -/
abbrev AllocationTable := List AllocationRow

def AllocationTable.getLatestAllocation (t : AllocationTable) : Option AllocationRow := t.getLast?

end SmartyTrader
