import SmartyTrader.Core.Models

set_option autoImplicit false

/-! # Portfolio snapshots

The table of portfolio snapshots, which is never pruned. The newest row restores a paper book,
the earliest row of the UTC day restores the daily-loss baseline, and the largest total value
seeds the high-water mark of the drawdown rule.
-/

namespace SmartyTrader

/-- A row of `portfolio_snapshots`. -/
structure PortfolioSnapshot where
  cash : ℚ
  positions : List Position
  totalValue : ℚ
  unrealizedPnl : ℚ
  timestamp : Time

/-- The row that `_persist_portfolio` writes for a portfolio it has read. -/
def PortfolioState.snapshot (p : PortfolioState) (now : Time) : PortfolioSnapshot where
  cash := p.cash
  positions := p.positions
  totalValue := p.totalValue
  unrealizedPnl := p.unrealizedPnl
  timestamp := now

/-- The rows in the order of their ids. -/
abbrev SnapshotTable := List PortfolioSnapshot

namespace SnapshotTable

def savePortfolioSnapshot (t : SnapshotTable) (row : PortfolioSnapshot) : SnapshotTable :=
  t ++ [row]

/-- The row with the largest id. -/
def getLatestPortfolioSnapshot (t : SnapshotTable) : Option PortfolioSnapshot := t.getLast?

/-- The first row with the smallest timestamp. -/
def earliest : List PortfolioSnapshot → Option PortfolioSnapshot
  | [] => none
  | row :: rows =>
      match earliest rows with
      | none => some row
      | some other => if other.timestamp < row.timestamp then some other else some row

/-- The earliest row since the start of the current UTC day. -/
def getFirstPortfolioSnapshotOfDay (t : SnapshotTable) (now : Time) : Option PortfolioSnapshot :=
  earliest (t.filter (fun row => utcDay now ≤ utcDay row.timestamp))

def getMaxPortfolioValue (t : SnapshotTable) : Option ℚ :=
  (t.map PortfolioSnapshot.totalValue).max?

end SnapshotTable

end SmartyTrader
