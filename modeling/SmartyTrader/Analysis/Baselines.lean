import SmartyTrader.Core.Models
import SmartyTrader.Lib.Window
import Mathlib.Tactic

set_option autoImplicit false

/-! # The moving-average-crossover baseline

Long while the fast average of the closes is above the slow one, in cash otherwise. The loop keeps
the two window sums and moves each on by one close per bar; the reference takes both averages from
scratch at every bar. The crossover decides on the close of bar `i` and earns the return from bar
`i` to bar `i + 1`.
-/

namespace SmartyTrader

open Lib Lib.Window

/-! ## The source -/

/-- `_closes`. -/
def closesOf (candles : List OHLCV) : List ℚ := (candles.map OHLCV.close).filter (0 < ·)

/-- The two periods, once `0 < fast < slow` has been checked. -/
structure CrossoverPeriods where
  fast : ℕ
  slow : ℕ
  fast_pos : 0 < fast
  fast_lt_slow : fast < slow

/-- `if not 0 < fast < slow: raise ValueError(...)`. -/
def CrossoverPeriods.check (fast slow : ℤ) : Except PyError CrossoverPeriods :=
  if h : 0 < fast ∧ fast < slow then
    .ok ⟨fast.toNat, slow.toNat, by omega, by omega⟩
  else .error (.raised "need 0 < fast < slow")

/-- What the loop of `ma_crossover_return` carries from bar to bar. -/
structure CrossoverState where
  equity : ℚ
  invested : Bool
  fastSum : ℚ
  slowSum : ℚ
  deriving DecidableEq

/-- The position and fee rules of one bar: a change of position pays `cost_pct`, a position held
earns the return to the next close. -/
def rebalance (closes : List ℚ) (costPct : ℚ) (i : ℕ) (want : Bool) (equity : ℚ)
    (invested : Bool) : ℚ × Bool :=
  let equity := if want ≠ invested then equity * (1 - costPct) else equity
  (if want then equity * (closes.getD (i + 1) 0 / closes.getD i 0) else equity, want)

/-- `if invested: equity *= 1.0 - cost_pct`, then `equity - 1.0`. -/
def settle (costPct equity : ℚ) (invested : Bool) : ℚ :=
  (if invested then equity * (1 - costPct) else equity) - 1

section Loop

variable (closes : List ℚ) (periods : CrossoverPeriods) (costPct : ℚ)

def crossoverStart : CrossoverState where
  equity := 1
  invested := false
  fastSum := ((closes.take periods.slow).drop (periods.slow - periods.fast)).sum
  slowSum := (closes.take periods.slow).sum

/-- The body of the loop at bar `i`. -/
def crossoverBar (st : CrossoverState) (i : ℕ) : CrossoverState :=
  let slid := i ≥ periods.slow
  let fastSum :=
    if slid then st.fastSum + (closes.getD i 0 - closes.getD (i - periods.fast) 0) else st.fastSum
  let slowSum :=
    if slid then st.slowSum + (closes.getD i 0 - closes.getD (i - periods.slow) 0) else st.slowSum
  let want := decide (fastSum / periods.fast > slowSum / periods.slow)
  let moved := rebalance closes costPct i want st.equity st.invested
  { equity := moved.1, invested := moved.2, fastSum, slowSum }

/-- The loop over the bars from `slow - 1` up to, but not including, `stop`. -/
def crossoverLoop (stop : ℕ) : CrossoverState :=
  (List.range' (periods.slow - 1) (stop - (periods.slow - 1))).foldl
    (crossoverBar closes periods costPct) (crossoverStart closes periods)

end Loop

/-- `ma_crossover_return`. -/
def maCrossoverReturn (candles : List OHLCV) (fast slow : ℤ) (costPct : ℚ) :
    Except PyError (Option ℚ) := do
  let periods ← CrossoverPeriods.check fast slow
  let closes := closesOf candles
  if closes.length < periods.slow + 1 then return none
  let st := crossoverLoop closes periods costPct (closes.length - 1)
  return some (settle costPct st.equity st.invested)

/-! ## The reference -/

/-- The simple moving average at bar `i`, from scratch. -/
def smaAt (closes : List ℚ) (period i : ℕ) : ℚ := windowSum closes period i / period

/-- What the reference wants to hold after the close of bar `i`. -/
def wantsLong (closes : List ℚ) (periods : CrossoverPeriods) (i : ℕ) : Bool :=
  decide (smaAt closes periods.fast i > smaAt closes periods.slow i)

def referenceBar (closes : List ℚ) (periods : CrossoverPeriods) (costPct : ℚ) (book : ℚ × Bool)
    (i : ℕ) : ℚ × Bool :=
  rebalance closes costPct i (wantsLong closes periods i) book.1 book.2

def referenceLoop (closes : List ℚ) (periods : CrossoverPeriods) (costPct : ℚ) (stop : ℕ) :
    ℚ × Bool :=
  (List.range' (periods.slow - 1) (stop - (periods.slow - 1))).foldl
    (referenceBar closes periods costPct) (1, false)

/-- The baseline with both averages recomputed at every bar. -/
def referenceCrossoverReturn (candles : List OHLCV) (fast slow : ℤ) (costPct : ℚ) :
    Except PyError (Option ℚ) := do
  let periods ← CrossoverPeriods.check fast slow
  let closes := closesOf candles
  if closes.length < periods.slow + 1 then return none
  let book := referenceLoop closes periods costPct (closes.length - 1)
  return some (settle costPct book.1 book.2)

/-! ## The sums of the loop are those of the windows -/

section Windows

variable (closes : List ℚ) (periods : CrossoverPeriods) (costPct : ℚ)

/-- Before bar `i` the two sums are those of the windows that end with the bar before, and before
the first bar already those of the first full windows. -/
structure CrossoverState.Tracks (st : CrossoverState) (i : ℕ) : Prop where
  fastSum : st.fastSum = windowSum closes periods.fast (max (periods.slow - 1) (i - 1))
  slowSum : st.slowSum = windowSum closes periods.slow (max (periods.slow - 1) (i - 1))

theorem tracks_crossoverStart :
    (crossoverStart closes periods).Tracks closes periods (periods.slow - 1) := by
  have hlast : max (periods.slow - 1) (periods.slow - 1 - 1) = periods.slow - 1 := by omega
  have hslow : periods.slow - 1 + 1 = periods.slow := by
    have := periods.fast_lt_slow
    omega
  constructor
  · rw [hlast, windowSum, hslow]
    rfl
  · rw [hlast, windowSum, hslow]
    simp [crossoverStart]

/-- One window sum after the body of the loop at bar `i`. -/
theorem slide_windowSum {width i : ℕ} {sum : ℚ} (hwidth : width ≤ periods.slow)
    (hsum : sum = windowSum closes width (max (periods.slow - 1) (i - 1)))
    (hi : periods.slow - 1 ≤ i) (hlen : i < closes.length) :
    (if i ≥ periods.slow then sum + (closes.getD i 0 - closes.getD (i - width) 0) else sum) =
      windowSum closes width i := by
  split
  next hslid =>
    -- the window moves on from bar `i - 1`
    obtain ⟨n, rfl⟩ : ∃ n, i = n + 1 := ⟨i - 1, by have := periods.fast_lt_slow; omega⟩
    rw [hsum, show max (periods.slow - 1) (n + 1 - 1) = n by omega]
    exact (windowSum_succ closes (by omega) hlen).symm
  next hfirst => rw [hsum, show max (periods.slow - 1) (i - 1) = i by omega]

/-- The body of the loop moves both windows on to bar `i` and does what the reference does there. -/
theorem crossoverBar_spec {st : CrossoverState} {i : ℕ} (h : st.Tracks closes periods i)
    (hi : periods.slow - 1 ≤ i) (hlen : i < closes.length) :
    (crossoverBar closes periods costPct st i).Tracks closes periods (i + 1) ∧
      ((crossoverBar closes periods costPct st i).equity,
        (crossoverBar closes periods costPct st i).invested) =
        referenceBar closes periods costPct (st.equity, st.invested) i := by
  have hnext : max (periods.slow - 1) (i + 1 - 1) = i := by omega
  have hfast := slide_windowSum closes periods periods.fast_lt_slow.le h.fastSum hi hlen
  have hslow := slide_windowSum closes periods le_rfl h.slowSum hi hlen
  refine ⟨⟨?_, ?_⟩, ?_⟩
  · rw [hnext, ← hfast]
    rfl
  · rw [hnext, ← hslow]
    rfl
  · simp only [crossoverBar, hfast, hslow]
    rfl

/-- After the bars below `stop` the loop stands where the reference stands, with its sums on the
last bar. -/
theorem crossoverLoop_spec {stop : ℕ} (hlen : stop ≤ closes.length) :
    (crossoverLoop closes periods costPct stop).Tracks closes periods
        (max (periods.slow - 1) stop) ∧
      ((crossoverLoop closes periods costPct stop).equity,
        (crossoverLoop closes periods costPct stop).invested) =
        referenceLoop closes periods costPct stop := by
  unfold crossoverLoop referenceLoop
  rcases Nat.le_total stop (periods.slow - 1) with hshort | hlong
  · rw [Nat.sub_eq_zero_of_le hshort, Nat.max_eq_left hshort]
    exact ⟨tracks_crossoverStart closes periods, rfl⟩
  · obtain ⟨n, rfl⟩ := Nat.exists_eq_add_of_le hlong
    rw [Nat.add_sub_cancel_left, Nat.max_eq_right hlong]
    induction n with
    | zero => exact ⟨tracks_crossoverStart closes periods, rfl⟩
    | succ n ih =>
        obtain ⟨htracks, hbook⟩ := ih (by omega) (by omega)
        have hbar := crossoverBar_spec closes periods costPct htracks (by omega) (by omega)
        simp only [List.range'_concat, Nat.one_mul, List.foldl_concat]
        rw [hbook] at hbar
        exact hbar

/-- The position after the close of bar `i` is what the averages at bar `i` ask for. -/
theorem invested_crossoverLoop {i : ℕ} (hi : periods.slow - 1 ≤ i) (hlen : i < closes.length) :
    (crossoverLoop closes periods costPct (i + 1)).invested = wantsLong closes periods i := by
  have hbook := (crossoverLoop_spec closes periods costPct (show i + 1 ≤ closes.length by omega)).2
  have hcount : i + 1 - (periods.slow - 1) = i - (periods.slow - 1) + 1 := by omega
  have hend : periods.slow - 1 + (i - (periods.slow - 1)) = i := by omega
  have hreference : (referenceLoop closes periods costPct (i + 1)).2 =
      wantsLong closes periods i := by
    unfold referenceLoop
    rw [hcount]
    simp only [List.range'_concat, Nat.one_mul, List.foldl_concat, hend]
    rfl
  rw [← hreference, ← hbook]

end Windows

theorem wantsLong_append (closes future : List ℚ) (periods : CrossoverPeriods) {i : ℕ}
    (hi : i < closes.length) :
    wantsLong (closes ++ future) periods i = wantsLong closes periods i := by
  unfold wantsLong smaAt
  rw [windowSum_append _ _ _ hi, windowSum_append _ _ _ hi]

/-- The sliding sums give the return of the averages recomputed at every bar, with the same error
and the same `None`; and the position that the loop holds into the bar after `closes` is the same
whatever closes follow. -/
theorem crossover_exact_and_causal (candles : List OHLCV) (fast slow : ℤ) (costPct : ℚ)
    (periods : CrossoverPeriods) (closes future : List ℚ) :
    maCrossoverReturn candles fast slow costPct =
        referenceCrossoverReturn candles fast slow costPct ∧
      (crossoverLoop (closes ++ future) periods costPct closes.length).invested =
        (crossoverLoop closes periods costPct closes.length).invested := by
  constructor
  · unfold maCrossoverReturn referenceCrossoverReturn
    apply bind_congr
    intro checked
    simp only
    split
    · rfl
    · rw [← (crossoverLoop_spec (closesOf candles) checked costPct (by omega)).2]
  · rcases Nat.lt_or_ge closes.length periods.slow with hshort | hlong
    · -- the first decision falls on bar `slow - 1`: before it the loop is in cash
      have hnone : closes.length - (periods.slow - 1) = 0 := by omega
      simp only [crossoverLoop, hnone]
      rfl
    · obtain ⟨i, hi⟩ : ∃ i, closes.length = i + 1 :=
        ⟨closes.length - 1, by have := periods.fast_lt_slow; omega⟩
      have hlen : i < (closes ++ future).length := by
        rw [List.length_append]
        omega
      rw [hi, invested_crossoverLoop _ _ _ (by omega) hlen,
        invested_crossoverLoop _ _ _ (by omega) (by omega)]
      exact wantsLong_append closes future periods (by omega)

end SmartyTrader
