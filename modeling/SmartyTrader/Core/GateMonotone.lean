import SmartyTrader.Core.RiskHistory
import SmartyTrader.Core.TightenOnly
import SmartyTrader.Lib.Runs

set_option autoImplicit false

/-! # The gate is monotone in its limits

Two engines that see the same calls under limits of different strictness. Their mark, their
daily baseline and their streak are the same, and the cooldown of the stricter one ends no
earlier (`Ahead`). Each check of the stricter engine then refuses whatever the other refuses, so
what the stricter gate approves the other approves as well (`gate_monotone`).
-/

namespace SmartyTrader

open Lib

/-- The six limits that may be tightened are at least as strict, and all else is the same. -/
structure RiskSettings.Tighter (t l : RiskSettings) : Prop where
  limits : AtLeastAsStrict t l
  rest : t.withLimits l = l

theorem RiskSettings.Tighter.threshold {t l : RiskSettings} (h : t.Tighter l) :
    t.consecutiveLossesThreshold = l.consecutiveLossesThreshold := by
  rw [← h.rest]
  rfl

theorem RiskSettings.Tighter.stopDistance {t l : RiskSettings} (h : t.Tighter l) :
    t.maxStopDistancePct = l.maxStopDistancePct := by
  rw [← h.rest]
  rfl

/-! ## Two engines with one history -/

/-- The trackers are the same, but that the cooldown of `t` may end later. -/
structure Ahead (t l : RiskEngine) : Prop where
  settings : t.settings.Tighter l.settings
  daily : t.dailyTracker = l.dailyTracker
  peak : t.peakEquity = l.peakEquity
  losses : t.lossTracker.consecutiveLosses = l.lossTracker.consecutiveLosses
  cooldown : ∀ u, l.lossTracker.cooldownUntil = some u →
    ∃ u', t.lossTracker.cooldownUntil = some u' ∧ u ≤ u'

theorem ahead_create {t l : RiskSettings} (h : t.Tighter l) :
    Ahead (RiskEngine.create t) (RiskEngine.create l) :=
  ⟨h, rfl, rfl, rfl, fun u hu => by cases hu⟩

section Calls

variable {t l : RiskEngine}

theorem Ahead.noteEquity (h : Ahead t l) (v : ℚ) : Ahead (t.noteEquity v) (l.noteEquity v) where
  settings := by simpa using h.settings
  daily := by simpa using h.daily
  peak := by rw [noteEquity_peak, noteEquity_peak, h.peak]
  losses := by simpa using h.losses
  cooldown := by simpa using h.cooldown

theorem Ahead.observeDay (h : Ahead t l) (v : ℚ) (now : Time) :
    Ahead (t.observeDay v now) (l.observeDay v now) where
  settings := h.settings
  daily := by
    unfold RiskEngine.observeDay
    dsimp only
    rw [h.daily]
  peak := h.peak
  losses := h.losses
  cooldown := h.cooldown

/-- A loss sets the cooldown in both engines or in neither. -/
theorem Ahead.recordOutcome (h : Ahead t l) (won : Bool) (now : Time) :
    Ahead (t.recordOutcome won now) (l.recordOutcome won now) := by
  unfold RiskEngine.recordOutcome
  cases won with
  | true => exact ⟨h.settings, h.daily, h.peak, rfl, fun u hu => by cases hu⟩
  | false =>
      rw [if_neg Bool.false_ne_true, if_neg Bool.false_ne_true]
      unfold ConsecutiveLossTracker.recordLoss
      dsimp only
      rw [h.settings.threshold, h.losses]
      refine ⟨h.settings, h.daily, h.peak, rfl, ?_⟩
      dsimp only
      intro u hu
      split_ifs at hu ⊢ with hth
      · have hminutes : l.settings.consecutiveLossesCooldownMinutes
            ≤ t.settings.consecutiveLossesCooldownMinutes :=
          h.settings.limits.consecutiveLossesCooldownMinutes
        refine ⟨_, rfl, ?_⟩
        rw [← Option.some.inj hu]
        have hlen : minutes l.settings.consecutiveLossesCooldownMinutes
            ≤ minutes t.settings.consecutiveLossesCooldownMinutes := by
          unfold minutes
          omega
        exact Int.add_le_add_left hlen now
      · exact h.cooldown u hu

/-- **One call** of both engines. -/
theorem Ahead.call (h : Ahead t l) (c : Call) : Ahead (c.apply t) (c.apply l) := by
  cases c with
  | seedPeakEquity v =>
      cases v with
      | none => exact h
      | some v => exact h.noteEquity v
  | restoreDailyBaseline v now =>
      refine ⟨h.settings, ?_, h.peak, h.losses, h.cooldown⟩
      show t.dailyTracker.restoreToday v now = l.dailyTracker.restoreToday v now
      rw [h.daily]
  | updateDailyValue v now => exact (h.observeDay v now).noteEquity v
  | noteEquity v => exact h.noteEquity v
  | checkBackstop v limit =>
      show Ahead (t.checkBackstop v limit).2 (l.checkBackstop v limit).2
      rw [checkBackstop_engine, checkBackstop_engine]
      exact h.noteEquity v
  | recordOutcome won now => exact h.recordOutcome won now
  | restoreLossStreak n u =>
      exact ⟨h.settings, h.daily, h.peak, rfl, fun v hv => ⟨v, hv, le_refl v⟩⟩
  | evaluate signal portfolio planned price now later =>
      show Ahead (t.evaluate signal portfolio planned price now later).2
        (l.evaluate signal portfolio planned price now later).2
      cases ha : signal.action with
      | buy =>
          rw [evaluate_engine t ha, evaluate_engine l ha]
          exact (h.observeDay _ now).noteEquity _
      | sell => simpa [RiskEngine.evaluate, ha] using h
      | hold => simpa [RiskEngine.evaluate, ha] using h

end Calls

/-! ## The checks -/

section Checks

variable {t l : RiskEngine} (h : Ahead t l) {signal : TradeSignal} {portfolio : PortfolioState}

include h

theorem Ahead.checkConfidence (ht : t.checkConfidence signal = .approved) :
    l.checkConfidence signal = .approved := by
  rw [checkConfidence_iff] at ht ⊢
  have hle : l.settings.minConfidence ≤ t.settings.minConfidence := h.settings.limits.minConfidence
  exact hle.trans ht

theorem Ahead.checkMaxPositions (ht : t.checkMaxPositions signal portfolio = .approved) :
    l.checkMaxPositions signal portfolio = .approved := by
  rw [checkMaxPositions_iff] at ht ⊢
  have hle : t.settings.maxOpenPositions ≤ l.settings.maxOpenPositions :=
    h.settings.limits.maxOpenPositions
  exact ht.imp id (fun hlt => lt_of_lt_of_le hlt hle)

/-- A smaller share of a positive total is a smaller cap. -/
theorem Ahead.checkPositionSize (hbuy : signal.action = .buy) {planned : Option ℚ}
    (ht : t.checkPositionSize signal portfolio planned = .approved) :
    l.checkPositionSize signal portfolio planned = .approved := by
  rw [checkPositionSize_iff _ _ _ hbuy] at ht ⊢
  obtain ⟨hpos, hexposure, hplanned⟩ := ht
  have hle : t.settings.maxPositionPct ≤ l.settings.maxPositionPct :=
    h.settings.limits.maxPositionPct
  have hcap : t.settings.maxPositionPct * portfolio.totalValue
      ≤ l.settings.maxPositionPct * portfolio.totalValue :=
    mul_le_mul_of_nonneg_right hle hpos.le
  have htol : (0 : ℚ) ≤ 1 - RiskEngine.capTolerance := by
    unfold RiskEngine.capTolerance
    norm_num
  have hplan : (0 : ℚ) ≤ 1 + RiskEngine.planTolerance := by
    unfold RiskEngine.planTolerance
    norm_num
  refine ⟨hpos, lt_of_lt_of_le hexposure (mul_le_mul_of_nonneg_right hcap htol), ?_⟩
  intro n hn
  exact (hplanned n hn).trans (mul_le_mul_of_nonneg_right hcap hplan)

theorem Ahead.checkDailyLoss {now : Time}
    (ht : (t.checkDailyLoss portfolio now).1 = .approved) :
    (l.checkDailyLoss portfolio now).1 = .approved := by
  rw [checkDailyLoss_iff] at ht ⊢
  rw [h.daily] at ht
  have hle : t.settings.dailyLossLimitPct ≤ l.settings.dailyLossLimitPct :=
    h.settings.limits.dailyLossLimitPct
  have htol : (0 : ℚ) ≤ 1 - RiskEngine.capTolerance := by
    unfold RiskEngine.capTolerance
    norm_num
  intro b hb hne
  have hlimit := mul_le_mul_of_nonneg_right hle htol
  exact lt_of_le_of_lt (neg_le_neg hlimit) (ht b hb hne)

theorem Ahead.checkDrawdown (hpos : 0 < portfolio.totalValue)
    (ht : (t.checkDrawdown portfolio).1 = .approved) :
    (l.checkDrawdown portfolio).1 = .approved := by
  rw [checkDrawdown_iff _ _ hpos] at ht ⊢
  rw [(h.noteEquity _).peak] at ht
  have hle : t.settings.maxDrawdownPct ≤ l.settings.maxDrawdownPct :=
    h.settings.limits.maxDrawdownPct
  intro p hp
  exact (ht p hp).trans hle

theorem Ahead.checkCooldown {later : Time} (ht : t.checkCooldown later = .approved) :
    l.checkCooldown later = .approved := by
  rw [checkCooldown_iff] at ht ⊢
  intro u hu
  obtain ⟨u', hu', hle⟩ := h.cooldown u hu
  exact hle.trans (ht u' hu')

theorem Ahead.checkStopLoss (hbuy : signal.action = .buy) {price : Option ℚ}
    (ht : t.checkStopLoss signal price = .approved) :
    l.checkStopLoss signal price = .approved := by
  rw [checkStopLoss_iff _ _ hbuy] at ht ⊢
  unfold EntryGeometry at ht ⊢
  rw [← h.settings.stopDistance]
  exact ht

/-- **One evaluation.** What the stricter engine approves, the other approves. -/
theorem Ahead.evaluate {planned price : Option ℚ} {now later : Time}
    (ht : (t.evaluate signal portfolio planned price now later).1 = .approved) :
    (l.evaluate signal portfolio planned price now later).1 = .approved := by
  unfold RiskEngine.evaluate at ht ⊢
  cases ha : signal.action with
  | hold => rfl
  | sell =>
      rw [ha] at ht
      dsimp only at ht ⊢
      unfold RiskEngine.evaluateExit at ht ⊢
      split_ifs at ht ⊢
      exact h.checkConfidence ht
  | buy =>
      rw [ha] at ht
      dsimp only at ht ⊢
      rw [RiskResult.first_eq_approved_iff] at ht ⊢
      simp only [List.mem_cons, List.not_mem_nil, or_false, forall_eq_or_imp, forall_eq] at ht ⊢
      obtain ⟨hconfidence, hcount, hsize, hloss, hdrawdown, hcooldown, hstop⟩ := ht
      have hpos := ((checkPositionSize_iff _ _ _ ha _).mp hsize).1
      simp only [checkDrawdown_engine, checkDailyLoss_engine] at hdrawdown hcooldown hstop ⊢
      -- The later checks read the engines that have observed the day and the equity.
      have hday := h.observeDay portfolio.totalValue now
      have hnoted := hday.noteEquity portfolio.totalValue
      exact ⟨h.checkConfidence hconfidence, h.checkMaxPositions hcount,
        h.checkPositionSize ha hsize, h.checkDailyLoss hloss, hday.checkDrawdown hpos hdrawdown,
        hnoted.checkCooldown hcooldown, hnoted.checkStopLoss ha hstop⟩

end Checks

/-! ## Runs -/

/-- The engines after the same calls. -/
theorem ahead_run {t l : RiskSettings} (h : t.Tighter l) (calls : List Call) :
    Ahead (run t calls) (run l calls) :=
  run_related (fun c _ _ hahead => hahead.call c) calls (ahead_create h)

end SmartyTrader
