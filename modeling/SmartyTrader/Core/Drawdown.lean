import SmartyTrader.Core.Performance
import SmartyTrader.Lib.Drawdown

set_option autoImplicit false

/-! # Drawdown and the report of a sleeve

The backtester's `max_drawdown` and the performance ledger's `max_drawdown_fraction` run the same
loop over a curve: the highest value so far, and the worst loss from it. On a curve without negative
values the loop ends with the largest of all declines, from any positive value to any later one
(`max_drawdown_greatest`).
-/

namespace SmartyTrader

open Lib Drawdown

/-- `max(peak, value)`. The loops start at `float("-inf")`, which is `none` here. -/
def raised (peak : Option ℚ) (value : ℚ) : ℚ :=
  match peak with
  | none => value
  | some peak => max peak value

/-- The body of the loops, with the peak and the worst loss so far. -/
def drawdownStep (acc : Option ℚ × ℚ) (value : ℚ) : Option ℚ × ℚ :=
  let peak := raised acc.1 value
  (some peak, if peak > 0 then max acc.2 ((peak - value) / peak) else acc.2)

/-- `max_drawdown` of the backtester. -/
def maxDrawdown (values : List ℚ) : ℚ := (values.foldl drawdownStep (none, 0)).2

/-- `max_drawdown_fraction` of the performance ledger. -/
def maxDrawdownFraction (values : List ℚ) : Option ℚ :=
  if values.length < 2 then none else some (values.foldl drawdownStep (none, 0)).2

/-! ## The report of a sleeve -/

structure SleevePerformance where
  strategy : String
  closedTrades : ℕ
  wins : ℕ
  losses : ℕ
  realizedPnl : ℚ
  winRate : Option ℚ
  profitFactor : Option ℚ
  avgWin : Option ℚ
  avgLoss : Option ℚ
  avgHoldingHours : Option ℚ
  maxDrawdownPct : Option ℚ

/-- `sum(xs) / len(xs) if xs else None`. -/
def averageOf (xs : List ℚ) : Option ℚ := if xs = [] then none else some (xs.sum / xs.length)

/-- The results of the closing fills. -/
def outcomesOf (orders : List FilledOrder) : List ℚ :=
  orders.filterMap fun o => if o.side = .sell then o.realizedPnl else none

def sleevePerformance (strategy : String) (orders : List FilledOrder) (equity : List ℚ) :
    SleevePerformance :=
  let outcomes := outcomesOf orders
  let wins := outcomes.filter fun p => p > 0
  let losses := outcomes.filter fun p => p < 0
  let grossLoss := -losses.sum
  { strategy
    closedTrades := outcomes.length
    wins := wins.length
    losses := losses.length
    realizedPnl := outcomes.sum
    winRate := if outcomes = [] then none else some (wins.length / outcomes.length)
    profitFactor := if grossLoss > 0 then some (wins.sum / grossLoss) else none
    avgWin := averageOf wins
    avgLoss := averageOf losses
    avgHoldingHours := averageOf (holdingHours orders)
    maxDrawdownPct := maxDrawdownFraction equity }

theorem averageOf_mul_length (xs : List ℚ) : (averageOf xs).getD 0 * xs.length = xs.sum := by
  cases xs with
  | nil => simp
  | cons x xs =>
      have hlen : ((x :: xs).length : ℚ) ≠ 0 := by simp [Nat.cast_add_one_ne_zero]
      rw [averageOf, if_neg (List.cons_ne_nil x xs), Option.getD_some, div_mul_cancel₀ _ hlen]

/-- Trades without a gain or a loss add nothing. -/
theorem sum_wins_add_sum_losses (outcomes : List ℚ) :
    (outcomes.filter fun p => p > 0).sum + (outcomes.filter fun p => p < 0).sum
      = outcomes.sum := by
  induction outcomes with
  | nil => simp
  | cons p outcomes ih =>
      rcases lt_trichotomy p 0 with hloss | rfl | hwin
      · simp only [List.filter_cons, decide_eq_true hloss, decide_eq_false hloss.not_gt,
          List.sum_cons, if_true, Bool.false_eq_true, if_false]
        rw [← ih]
        ring
      · simpa using ih
      · simp only [List.filter_cons, decide_eq_true hwin, decide_eq_false hwin.not_gt,
          List.sum_cons, if_true, Bool.false_eq_true, if_false]
        rw [← ih]
        ring

/-- The averages of a report account for what the sleeve realized. -/
theorem sleevePerformance_adds_up (strategy : String) (orders : List FilledOrder)
    (equity : List ℚ) :
    let report := sleevePerformance strategy orders equity
    report.avgWin.getD 0 * report.wins + report.avgLoss.getD 0 * report.losses
      = report.realizedPnl := by
  dsimp only [sleevePerformance]
  rw [averageOf_mul_length, averageOf_mul_length]
  exact sum_wins_add_sum_losses (outcomesOf orders)

/-! ## The loop finds the largest decline -/

/-- What the loop knows of the values it has seen. -/
structure Scanned (seen : List ℚ) (acc : Option ℚ × ℚ) : Prop where
  /-- The peak is the highest of them. -/
  peak : ∀ peak, acc.1 = some peak → IsGreatest {v | v ∈ seen} peak
  /-- Only before the first value there is no peak. -/
  start : acc.1 = none → seen = []
  /-- The worst loss is their largest decline, and zero without one. -/
  worst : IsGreatest (insert 0 (declines seen)) acc.2

theorem scanned_nil : Scanned [] (none, 0) where
  peak _ h := nomatch h
  start _ := rfl
  worst := by
    rw [declines_nil, insert_empty_eq]
    exact isGreatest_singleton

theorem Scanned.raised {seen : List ℚ} {acc : Option ℚ × ℚ} (h : Scanned seen acc) (value : ℚ) :
    IsGreatest {v | v ∈ seen ++ [value]} (raised acc.1 value) := by
  cases hpeak : acc.1 with
  | none =>
      rw [h.start hpeak]
      exact ⟨List.mem_singleton.mpr rfl, fun v hv => (List.mem_singleton.mp hv).le⟩
  | some peak =>
      have hunion : {v | v ∈ seen ++ [value]} = {v | v ∈ seen} ∪ {value} := by
        ext v
        simp [or_comm]
      rw [hunion]
      exact (h.peak peak hpeak).union isGreatest_singleton

theorem Scanned.step {seen : List ℚ} {acc : Option ℚ × ℚ} (h : Scanned seen acc) {value : ℚ}
    (hvalue : 0 ≤ value) : Scanned (seen ++ [value]) (drawdownStep acc value) where
  peak _ hpeak := Option.some.inj hpeak ▸ h.raised value
  start h := nomatch h
  worst := isGreatest_insert_declines_concat hvalue (h.raised value) h.worst

/-- The loop over a curve without negative values. The induction is on the values seen. -/
theorem scanned_foldl (values : List ℚ) (h : ∀ v ∈ values, 0 ≤ v) :
    Scanned values (values.foldl drawdownStep (none, 0)) := by
  induction values using List.reverseRecOn with
  | nil => exact scanned_nil
  | append_singleton seen value ih =>
      rw [List.foldl_concat]
      have hseen : ∀ v ∈ seen, 0 ≤ v := fun v hv => h v (List.mem_append_left [value] hv)
      exact (ih hseen).step (h value (by simp))

theorem maxDrawdownFraction_eq {values : List ℚ} (h : 2 ≤ values.length) :
    maxDrawdownFraction values = some (maxDrawdown values) :=
  if_neg (Nat.not_lt.mpr h)

/-- A drawdown is a part of the peak. -/
theorem maxDrawdown_mem_Icc (values : List ℚ) (h : ∀ v ∈ values, 0 ≤ v) :
    maxDrawdown values ∈ Set.Icc 0 1 := by
  have hworst := (scanned_foldl values h).worst
  constructor
  · exact hworst.2 (Set.mem_insert 0 _)
  · rcases hworst.1 with hzero | ⟨i, j, -, p, v, -, hv, hpos, hd⟩
    · rw [maxDrawdown, hzero]
      exact zero_le_one
    · rw [maxDrawdown, hd]
      exact decline_le_one (h v (List.mem_of_getElem? hv)) hpos

/-- The one pass finds what its definition asks of every pair, and both implementations do. -/
theorem max_drawdown_greatest (values : List ℚ) (h : ∀ v ∈ values, 0 ≤ v) :
    ((declines values).Nonempty → IsGreatest (declines values) (maxDrawdown values)) ∧
      (declines values = ∅ → maxDrawdown values = 0) ∧
      (2 ≤ values.length →
        maxDrawdownFraction values = some (maxDrawdown values) ∧
        ∀ strategy orders, (sleevePerformance strategy orders values).maxDrawdownPct
          = some (maxDrawdown values)) := by
  have hworst := (scanned_foldl values h).worst
  refine ⟨isGreatest_declines hworst, fun hnone => ?_, fun hlen => ?_⟩
  · rw [hnone, insert_empty_eq] at hworst
    exact hworst.1
  · exact ⟨maxDrawdownFraction_eq hlen, fun _ _ => maxDrawdownFraction_eq hlen⟩

theorem max_drawdown_greatest_twoPeaks :
    (∀ v ∈ ([100, 120, 60, 130, 91] : List ℚ), 0 ≤ v) ∧
      IsGreatest (declines ([100, 120, 60, 130, 91] : List ℚ)) (1 / 2) ∧
      maxDrawdownFraction [100, 120, 60, 130, 91] = some (1 / 2) := by
  have hvalues : ∀ v ∈ ([100, 120, 60, 130, 91] : List ℚ), 0 ≤ v := by decide
  obtain ⟨hgreatest, -, hsame⟩ := max_drawdown_greatest _ hvalues
  have hhalf : maxDrawdown [100, 120, 60, 130, 91] = 1 / 2 := by
    norm_num [maxDrawdown, drawdownStep, raised]
  rw [hhalf] at hgreatest hsame
  refine ⟨hvalues, hgreatest ⟨_, 0, 0, le_rfl, 100, 100, rfl, rfl, by decide, rfl⟩, ?_⟩
  exact (hsame (by decide)).1

end SmartyTrader
