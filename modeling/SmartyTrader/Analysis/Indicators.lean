import SmartyTrader.Core.Models
import Mathlib.Tactic

set_option autoImplicit false

/-! # Exponential moving averages and the MACD

`_ema` walks the closes once and returns the last average. `_ema_series` returns the average of
every prefix in one pass, which is what makes the MACD linear in the number of closes; the
implementation it replaced called `_ema` again on every prefix. A period is a count of bars, and a
period of zero divides by zero in both functions.
-/

namespace SmartyTrader

/-! ## The walk over the closes -/

/-- `ema = (value - ema) * multiplier + ema`. -/
def emaStep (multiplier ema value : ℚ) : ℚ := (value - ema) * multiplier + ema

/-- `2.0 / (period + 1)`. -/
def emaMultiplier (period : ℕ) : ℚ := 2 / (period + 1)

/-- `sum(values[:period]) / period`: the average starts as a simple one. -/
def emaSeed (values : List ℚ) (period : ℕ) : Except PyError ℚ :=
  if period = 0 then .error .zeroDivision else .ok ((values.take period).sum / period)

/-- `_ema`. -/
def ema (values : List ℚ) (period : ℕ) : Except PyError (Option ℚ) :=
  if values.length < period then .ok none
  else do
    let seed ← emaSeed values period
    return some ((values.drop period).foldl (emaStep (emaMultiplier period)) seed)

/-- `for k in range(period, len(values))` of `_ema_series`: the values from index `k` on are still
to come, and `out` is the list that the loop writes into. -/
def emaWalk (multiplier : ℚ) : ℕ → List ℚ → ℚ → List (Option ℚ) → List (Option ℚ)
  | _, [], _, out => out
  | k, value :: rest, current, out =>
      let next := emaStep multiplier current value
      emaWalk multiplier (k + 1) rest next (out.set k (some next))

/-- `_ema_series`. -/
def emaSeries (values : List ℚ) (period : ℕ) : Except PyError (List (Option ℚ)) :=
  let out := List.replicate values.length none
  if values.length < period then .ok out
  else do
    let seed ← emaSeed values period
    return emaWalk (emaMultiplier period) period (values.drop period) seed
      (out.set (period - 1) (some seed))

/-! ## The MACD -/

/-- The three numbers of `_compute_macd`, absent together below 26 closes. -/
structure Macd where
  line : ℚ
  signal : Option ℚ
  histogram : ℚ
  deriving DecidableEq

/-- `e12 - e26 … if e12 is not None and e26 is not None`. -/
def macdValue : Option ℚ × Option ℚ → Option ℚ
  | (some e12, some e26) => some (e12 - e26)
  | _ => none

/-- The signal and the histogram over the MACD values, which both ways of computing them share. -/
def signalOf (line : ℚ) (macdValues : List ℚ) : Except PyError Macd := do
  let signal ← if macdValues.length ≥ 9 then ema macdValues 9 else .ok (some line)
  return { line, signal, histogram := line - signal.getD 0 }

/-- `_compute_macd`: one walk for each period. -/
def computeMacd (closes : List ℚ) : Except PyError (Option Macd) :=
  if closes.length < 26 then .ok none
  else do
    match ← ema closes 12, ← ema closes 26 with
    | some ema12, some ema26 =>
        let e12Series ← emaSeries closes 12
        let e26Series ← emaSeries closes 26
        let macdValues := ((e12Series.drop 25).zip (e26Series.drop 25)).filterMap macdValue
        return some (← signalOf (ema12 - ema26) macdValues)
    | _, _ => return none

/-- `_reference_macd`, the oracle of the tests: both averages again on every prefix of 26 closes or
more. -/
def referenceMacd (closes : List ℚ) : Except PyError (Option Macd) :=
  if closes.length < 26 then .ok none
  else do
    match ← ema closes 12, ← ema closes 26 with
    | some ema12, some ema26 =>
        let pairs ← (List.range' 26 (closes.length + 1 - 26)).mapM fun i => do
          let chunk := closes.take i
          return (← ema chunk 12, ← ema chunk 26)
        return some (← signalOf (ema12 - ema26) (pairs.filterMap macdValue))
    | _, _ => return none

/-! ## Each entry of the series is the average of its prefix -/

section Series

variable (multiplier : ℚ)

@[simp] theorem length_emaWalk (rest : List ℚ) (k : ℕ) (current : ℚ) (out : List (Option ℚ)) :
    (emaWalk multiplier k rest current out).length = out.length := by
  induction rest generalizing k current out with
  | nil => rfl
  | cons value rest ih =>
      rw [emaWalk, ih]
      exact List.length_set

/-- The loop does not touch an entry before the index it has reached. -/
theorem emaWalk_before {k j : ℕ} (rest : List ℚ) (current : ℚ) (out : List (Option ℚ))
    (hj : j < k) : (emaWalk multiplier k rest current out)[j]? = out[j]? := by
  induction rest generalizing k current out with
  | nil => rfl
  | cons value rest ih =>
      rw [emaWalk, ih _ _ (by omega)]
      exact List.getElem?_set_ne (by omega)

/-- The entry `n` places further holds the average after `n + 1` more values. -/
theorem emaWalk_at {n : ℕ} (rest : List ℚ) (k : ℕ) (current : ℚ) (out : List (Option ℚ))
    (hn : n < rest.length) (hout : k + rest.length ≤ out.length) :
    (emaWalk multiplier k rest current out)[k + n]? =
      some (some ((rest.take (n + 1)).foldl (emaStep multiplier) current)) := by
  induction rest generalizing k current out n with
  | nil => simp at hn
  | cons value rest ih =>
      have hlen : (value :: rest).length = rest.length + 1 := rfl
      rw [emaWalk]
      cases n with
      | zero =>
          -- the entry just written: the rest of the loop is past it
          rw [emaWalk_before _ _ _ _ (by omega)]
          simp only [Nat.add_zero]
          rw [List.getElem?_set_self (by omega)]
          simp
      | succ n =>
          have hnext := ih (n := n) (k + 1) (emaStep multiplier current value)
            (out.set k (some (emaStep multiplier current value))) (by omega)
            (by rw [List.length_set]; omega)
          rw [show k + (n + 1) = k + 1 + n by omega]
          simpa using hnext

end Series

theorem emaSeed_take (values : List ℚ) {period n : ℕ} (h : period ≤ n) :
    emaSeed (values.take n) period = emaSeed values period := by
  unfold emaSeed
  rw [List.take_take, Nat.min_eq_left h]

theorem emaSeed_of_pos (values : List ℚ) {period : ℕ} (h : 0 < period) :
    emaSeed values period = .ok ((values.take period).sum / period) :=
  if_neg (by omega)

theorem length_emaSeries {values : List ℚ} {period : ℕ} {series : List (Option ℚ)}
    (h : emaSeries values period = .ok series) : series.length = values.length := by
  unfold emaSeries at h
  split at h
  · cases h
    exact List.length_replicate
  · cases hseed : emaSeed values period with
    | error e => simp [hseed, bind, Except.bind] at h
    | ok seed =>
        simp only [hseed, bind, Except.bind, pure, Except.pure, Except.ok.injEq] at h
        subst h
        simp

/-- Entry `k` of `_ema_series` is `_ema` of the first `k + 1` values, and the two fail together. -/
theorem emaSeries_getElem? {values : List ℚ} {k : ℕ} (period : ℕ) (hk : k < values.length) :
    (emaSeries values period).map (fun series => series[k]?) =
      (ema (values.take (k + 1)) period).map some := by
  have htake : (values.take (k + 1)).length = k + 1 := by
    rw [List.length_take]
    omega
  unfold emaSeries ema
  rw [htake]
  by_cases hshort : values.length < period
  · rw [if_pos hshort, if_pos (by omega)]
    simp [Except.map, hk]
  rw [if_neg hshort]
  by_cases hseeded : k + 1 < period
  · -- no seed yet on this prefix, and the loop starts behind it
    rw [if_pos hseeded, emaSeed_of_pos values (by omega)]
    simp only [bind, Except.bind, pure, Except.pure, Except.map]
    rw [emaWalk_before _ _ _ _ (by omega), List.getElem?_set_ne (by omega)]
    simp [hk]
  rw [if_neg hseeded, emaSeed_take values (by omega)]
  cases hseed : emaSeed values period with
  | error e => rfl
  | ok seed =>
      have hpos : 0 < period := by
        apply Nat.pos_of_ne_zero
        rintro rfl
        simp [emaSeed] at hseed
      simp only [bind, Except.bind, pure, Except.pure, Except.map, Except.ok.injEq]
      rcases Nat.lt_or_ge k period with hfirst | hlater
      · -- the seed itself
        have hkp : k = period - 1 := by omega
        rw [emaWalk_before _ _ _ _ hfirst, hkp, List.getElem?_set_self (by simp; omega)]
        rw [List.drop_eq_nil_of_le (by rw [List.length_take]; omega)]
        rfl
      · have hat := emaWalk_at (emaMultiplier period) (values.drop period) period seed
          ((List.replicate values.length none).set (period - 1) (some seed)) (n := k - period)
          (by rw [List.length_drop]; omega) (by simp; omega)
        rw [show period + (k - period) = k by omega] at hat
        rw [hat, List.drop_take, show k + 1 - period = k - period + 1 by omega]

/-! ## The linear MACD is the quadratic one -/

theorem emaSeries_of_pos (values : List ℚ) {period : ℕ} (h : 0 < period) :
    ∃ series, emaSeries values period = .ok series := by
  unfold emaSeries
  split
  · exact ⟨_, rfl⟩
  · rw [emaSeed_of_pos values h]
    exact ⟨_, rfl⟩

/-- The entry of a series that was computed is what `_ema` returns on that prefix. -/
theorem ema_take_of_series {values : List ℚ} {period k : ℕ} {series : List (Option ℚ)}
    (h : emaSeries values period = .ok series) (hk : k < series.length) :
    ema (values.take (k + 1)) period = .ok series[k] := by
  have hmap := emaSeries_getElem? period (length_emaSeries h ▸ hk)
  rw [h] at hmap
  cases hema : ema (values.take (k + 1)) period with
  | error e => simp [hema, Except.map] at hmap
  | ok average =>
      rw [hema] at hmap
      simp only [Except.map, Except.ok.injEq, List.getElem?_eq_getElem hk,
        Option.some.injEq] at hmap
      rw [hmap]

/-- A loop whose every pass succeeds collects the results. -/
theorem mapM_ok {α β : Type} {f : α → Except PyError β} {g : α → β} {xs : List α}
    (h : ∀ x ∈ xs, f x = .ok (g x)) : xs.mapM f = .ok (xs.map g) := by
  induction xs with
  | nil => rfl
  | cons x xs ih =>
      rw [List.mapM_cons, h x List.mem_cons_self, ih fun y hy => h y (List.mem_cons_of_mem x hy)]
      rfl

/-- The pairs that the two series line up from index 25 on are those of the prefixes of 26 closes
or more. -/
theorem zip_series {closes : List ℚ} {e12Series e26Series : List (Option ℚ)}
    (h12 : emaSeries closes 12 = .ok e12Series) (h26 : emaSeries closes 26 = .ok e26Series) :
    ((List.range' 26 (closes.length + 1 - 26)).mapM fun i => (do
        let chunk := closes.take i
        return (← ema chunk 12, ← ema chunk 26) : Except PyError (Option ℚ × Option ℚ))) =
      .ok ((e12Series.drop 25).zip (e26Series.drop 25)) := by
  have hlen12 := length_emaSeries h12
  have hlen26 := length_emaSeries h26
  rw [mapM_ok (g := fun i => (e12Series[i - 1]?.join, e26Series[i - 1]?.join))]
  · congr 1
    apply List.ext_getElem
    · simp only [List.length_map, List.length_range', List.length_zip, List.length_drop]
      omega
    · intro n hn hn'
      simp only [List.length_map, List.length_range'] at hn
      have h25 : 25 + n < closes.length := by omega
      have hfront : 26 + n - 1 = 25 + n := by omega
      simp [hfront, hlen12, hlen26, h25]
  · intro i hi
    have hbounds : 26 ≤ i ∧ i < closes.length + 1 := by
      have := List.mem_range'_1.mp hi
      omega
    have hi12 : i - 1 < e12Series.length := by omega
    have hi26 : i - 1 < e26Series.length := by omega
    have hsucc : i - 1 + 1 = i := by omega
    have hema12 := ema_take_of_series h12 hi12
    have hema26 := ema_take_of_series h26 hi26
    rw [hsucc] at hema12 hema26
    simp only [hema12, hema26, bind, Except.bind, pure, Except.pure]
    simp [hi12, hi26]

/-- Each entry of `_ema_series` is the average of its prefix computed from scratch, and the line,
the signal and the histogram of `_compute_macd` are those of the implementation that recomputes
both averages on every prefix. -/
theorem macd_from_prefixes (values closes : List ℚ) (period : ℕ) :
    (∀ k : Fin values.length,
      (emaSeries values period).map (fun series => series[k.val]?) =
        (ema (values.take (k + 1)) period).map some) ∧
      computeMacd closes = referenceMacd closes := by
  constructor
  · intro k
    exact emaSeries_getElem? period k.isLt
  · obtain ⟨e12Series, h12⟩ := emaSeries_of_pos closes (show 0 < 12 by omega)
    obtain ⟨e26Series, h26⟩ := emaSeries_of_pos closes (show 0 < 26 by omega)
    unfold computeMacd referenceMacd
    rw [zip_series h12 h26, h12, h26]
    rfl

end SmartyTrader
