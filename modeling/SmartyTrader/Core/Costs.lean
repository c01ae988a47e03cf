import SmartyTrader.Core.Models

set_option autoImplicit false

/-! # Trading cost model

One schedule of commission and conversion fees, shared by the fills of the paper executor and
by the sizing of a BUY. The commission is a percentage floored by an absolute minimum, so the
largest notional a cash balance pays for is a function with two regimes; the section
`Affordability` shows that it is affordable and that nothing above it is.
-/

namespace SmartyTrader

/-- Immutable commission schedule. The constructor refuses negative numbers. -/
structure CostModel where
  slippagePct : ℚ
  feePct : ℚ
  minCommission : ℚ
  fxFeePct : ℚ
  slippagePct_nonneg : 0 ≤ slippagePct
  feePct_nonneg : 0 ≤ feePct
  minCommission_nonneg : 0 ≤ minCommission
  fxFeePct_nonneg : 0 ≤ fxFeePct

namespace CostModel

/-- Per-side commission for a fill of `notional`: percentage floored by the minimum. -/
def commission (c : CostModel) (notional : ℚ) : ℚ :=
  if notional ≤ 0 then 0
  else
    let pct := notional * c.feePct
    if c.minCommission > 0 then max pct c.minCommission else pct

/-- All fees for one side: commission and conversion cost. -/
def totalFee (c : CostModel) (notional : ℚ) : ℚ :=
  if notional ≤ 0 then 0 else c.commission notional + notional * c.fxFeePct

/-- Multiplicative all-in factor of a BUY against its quoted price. -/
def buyCostFactor (c : CostModel) : ℚ := (1 + c.slippagePct) * (1 + c.feePct + c.fxFeePct)

/-- Largest fill notional `N` with `N + total_fee(N) <= cash`. -/
def maxAffordableFillNotional (c : CostModel) (cash : ℚ) : ℚ :=
  if cash ≤ 0 then 0
  else
    let combined := c.feePct + c.fxFeePct
    if c.minCommission ≤ 0 then cash / (1 + combined)
    else
      let aboveFloor := cash / (1 + combined)
      if c.feePct > 0 ∧ aboveFloor * c.feePct ≥ c.minCommission then aboveFloor
      else max (cash - c.minCommission) 0 / (1 + c.fxFeePct)

/-- The schedule that charges nothing. -/
def free : CostModel := ⟨0, 0, 0, 0, le_rfl, le_rfl, le_rfl, le_rfl⟩

variable (c : CostModel)

theorem commission_of_pos {n : ℚ} (h : 0 < n) :
    c.commission n = max (n * c.feePct) c.minCommission := by
  have hf := c.feePct_nonneg
  have hm := c.minCommission_nonneg
  have hp : 0 ≤ n * c.feePct := by positivity
  simp only [commission, if_neg (not_le.mpr h)]
  by_cases h1 : c.minCommission > 0
  · rw [if_pos h1]
  · rw [if_neg h1, max_eq_left (le_trans (not_lt.mp h1) hp)]

theorem totalFee_of_nonpos {n : ℚ} (h : n ≤ 0) : c.totalFee n = 0 := if_pos h

theorem totalFee_of_pos {n : ℚ} (h : 0 < n) :
    c.totalFee n = max (n * c.feePct) c.minCommission + n * c.fxFeePct := by
  rw [totalFee, if_neg (not_le.mpr h), commission_of_pos c h]

theorem totalFee_nonneg (n : ℚ) : 0 ≤ c.totalFee n := by
  have hf := c.feePct_nonneg
  have hx := c.fxFeePct_nonneg
  rcases le_or_gt n 0 with h | h
  · rw [totalFee_of_nonpos c h]
  · rw [totalFee_of_pos c h]
    have h1 : 0 ≤ n * c.feePct := by positivity
    have h2 : 0 ≤ n * c.fxFeePct := by positivity
    have h3 := le_max_left (n * c.feePct) c.minCommission
    linarith

theorem totalFee_mono {m n : ℚ} (h : m ≤ n) : c.totalFee m ≤ c.totalFee n := by
  rcases le_or_gt m 0 with hm | hm
  · rw [totalFee_of_nonpos c hm]
    exact totalFee_nonneg c n
  · have hn : 0 < n := lt_of_lt_of_le hm h
    rw [totalFee_of_pos c hm, totalFee_of_pos c hn]
    have h1 : m * c.feePct ≤ n * c.feePct := mul_le_mul_of_nonneg_right h c.feePct_nonneg
    have h2 : m * c.fxFeePct ≤ n * c.fxFeePct := mul_le_mul_of_nonneg_right h c.fxFeePct_nonneg
    have h3 : max (m * c.feePct) c.minCommission ≤ max (n * c.feePct) c.minCommission :=
      max_le_max h1 le_rfl
    linarith

/-- What a fill of a given notional costs grows strictly with the notional. -/
theorem cost_strictMono {m n : ℚ} (h : m < n) : m + c.totalFee m < n + c.totalFee n := by
  have := totalFee_mono c h.le
  linarith

/-! ## Affordability -/

private theorem one_add_pos {x : ℚ} (h : 0 ≤ x) : 0 < 1 + x := by linarith

theorem maxAffordable_nonneg (cash : ℚ) : 0 ≤ c.maxAffordableFillNotional cash := by
  have hf := c.feePct_nonneg
  have hx := c.fxFeePct_nonneg
  have h1 : 0 < 1 + (c.feePct + c.fxFeePct) := one_add_pos (by linarith)
  have h2 : 0 < 1 + c.fxFeePct := one_add_pos hx
  unfold maxAffordableFillNotional
  by_cases h : cash ≤ 0
  · rw [if_pos h]
  · have hc : 0 ≤ cash := (not_le.mp h).le
    simp only [if_neg h]
    split_ifs
    · positivity
    · positivity
    · positivity

/-- **Exact affordability.** A positive notional is paid by the cash, fees included, exactly
when it is at most the largest affordable one. -/
theorem le_maxAffordable_iff (cash : ℚ) {n : ℚ} (hn : 0 < n) :
    n ≤ c.maxAffordableFillNotional cash ↔ n + c.totalFee n ≤ cash := by
  have hf := c.feePct_nonneg
  have hx := c.fxFeePct_nonneg
  have hm := c.minCommission_nonneg
  have h1 : 0 < 1 + (c.feePct + c.fxFeePct) := one_add_pos (by linarith)
  have h2 : 0 < 1 + c.fxFeePct := one_add_pos hx
  have hfx : 0 ≤ n * c.fxFeePct := by positivity
  have hfp : 0 ≤ n * c.feePct := by positivity
  rw [totalFee_of_pos c hn]
  unfold maxAffordableFillNotional
  by_cases hc : cash ≤ 0
  · rw [if_pos hc]
    have := le_max_left (n * c.feePct) c.minCommission
    constructor <;> intro h <;> linarith
  · have hc' : 0 < cash := not_le.mp hc
    simp only [if_neg hc]
    by_cases h0 : c.minCommission ≤ 0
    · -- No minimum: the commission is the percentage alone.
      rw [if_pos h0, le_div_iff₀ h1, max_eq_left (le_trans h0 hfp)]
      constructor <;> intro h <;> linarith
    · rw [if_neg h0]
      have hm' : 0 < c.minCommission := not_le.mp h0
      by_cases h3 : c.feePct > 0 ∧ cash / (1 + (c.feePct + c.fxFeePct)) * c.feePct
          ≥ c.minCommission
      · -- Above the floor: the balance is large enough for the percentage to bind at `N`.
        rw [if_pos h3, le_div_iff₀ h1]
        have h4 : c.minCommission * (1 + (c.feePct + c.fxFeePct)) ≤ cash * c.feePct := by
          have := h3.2
          rw [ge_iff_le, div_mul_eq_mul_div, le_div_iff₀ h1] at this
          exact this
        constructor
        · intro h
          rcases le_total c.minCommission (n * c.feePct) with h5 | h5
          · rw [max_eq_left h5]; linarith
          · rw [max_eq_right h5]
            have h6 : n * (1 + c.fxFeePct) * c.feePct
                ≤ c.minCommission * (1 + c.fxFeePct) := by nlinarith
            have h7 : c.minCommission * c.feePct + n * (1 + c.fxFeePct) * c.feePct
                ≤ cash * c.feePct := by nlinarith
            have h8 : (c.minCommission + n * (1 + c.fxFeePct)) * c.feePct
                ≤ cash * c.feePct := by linarith
            have := le_of_mul_le_mul_right h8 h3.1
            linarith
        · intro h
          have := le_max_left (n * c.feePct) c.minCommission
          linarith
      · -- In the floor regime the commission is the flat minimum.
        rw [if_neg h3, le_div_iff₀ h2]
        constructor
        · intro h
          have h4 : 0 < n * (1 + c.fxFeePct) := by positivity
          have h5 : n * (1 + c.fxFeePct) ≤ cash - c.minCommission := by
            rcases max_cases (cash - c.minCommission) 0 with ⟨he, _⟩ | ⟨he, _⟩
            · rwa [he] at h
            · rw [he] at h; linarith
          rcases le_total (n * c.feePct) c.minCommission with h6 | h6
          · rw [max_eq_right h6]; linarith
          · -- The percentage binds only if the whole balance is above the floor.
            rw [max_eq_left h6]
            by_contra hcon
            have hlt : cash < n * (1 + (c.feePct + c.fxFeePct)) := by linarith
            have hfpos : c.feePct > 0 := by
              rcases lt_or_eq_of_le hf with h7 | h7
              · exact h7
              · rw [← h7, mul_zero] at h6; linarith
            have h8 : ¬ (cash / (1 + (c.feePct + c.fxFeePct)) * c.feePct ≥ c.minCommission) :=
              fun h9 => h3 ⟨hfpos, h9⟩
            rw [ge_iff_le, not_le, div_mul_eq_mul_div, div_lt_iff₀ h1] at h8
            nlinarith
        · intro h
          have := le_max_right (n * c.feePct) c.minCommission
          have h4 : n * (1 + c.fxFeePct) ≤ cash - c.minCommission := by linarith
          exact le_trans h4 (le_max_left _ _)

/-- **The exact inverse of the total cost.** The largest affordable notional is never negative, is
paid by the cash when it is positive, and everything above it costs more than the cash. -/
theorem max_affordable_inverse (cash : ℚ) :
    0 ≤ c.maxAffordableFillNotional cash ∧
      (0 < c.maxAffordableFillNotional cash →
        c.maxAffordableFillNotional cash + c.totalFee (c.maxAffordableFillNotional cash) ≤ cash) ∧
      ∀ n, c.maxAffordableFillNotional cash < n → cash < n + c.totalFee n := by
  have hnonneg := c.maxAffordable_nonneg cash
  refine ⟨hnonneg, fun hpos => (c.le_maxAffordable_iff cash hpos).mp le_rfl, fun n hn => ?_⟩
  have hpos : 0 < n := lt_of_le_of_lt hnonneg hn
  have hover : ¬ n ≤ c.maxAffordableFillNotional cash := not_le.mpr hn
  rw [c.le_maxAffordable_iff cash hpos] at hover
  exact not_le.mp hover

end CostModel

end SmartyTrader
