import SmartyTrader.Core.ControlConfig
import SmartyTrader.Core.RiskEngine
import SmartyTrader.Lib.Raising

set_option autoImplicit false

/-! # Tighten-only limits

An agent-wide override caps the engine of every sleeve: where the live limit differs from the
config file, a sleeve gets the stricter one of its own value and the live one. The comparison is
made on the values of the sleeve's `risk` mapping as the file has them, before they are
validated, so a value that is no number raises there.
-/

namespace SmartyTrader

open Lib

/-! ## A sleeve's own limits -/

/-- A value of a sleeve's `risk` mapping: one of the field's own type, a string that validates to
one, or `null`, which validates to the default of the class. -/
inductive RawValue (α : Type) where
  | null
  | plain (v : α)
  | quoted (v : α)
  deriving DecidableEq

namespace RawValue

variable {α : Type}

/-- What validation makes of the value. -/
def coerce (dflt : α) : RawValue α → α
  | null => dflt
  | plain v => v
  | quoted v => v

end RawValue

/-- A sleeve's value of a field: its override, else the value of the config file. -/
def ownValue {α : Type} (dflt base : α) (override : Option (RawValue α)) : α :=
  match override with
  | none => base
  | some raw => raw.coerce dflt

/-- `SleeveSpec.risk`: any field of the settings except `enforce_exit_levels`. -/
structure SleeveRisk where
  maxPositionPct : Option (RawValue ℚ)
  dailyLossLimitPct : Option (RawValue ℚ)
  maxDrawdownPct : Option (RawValue ℚ)
  consecutiveLossesCooldownMinutes : Option (RawValue ℤ)
  consecutiveLossesThreshold : Option (RawValue ℤ)
  maxOpenPositions : Option (RawValue ℤ)
  minConfidence : Option (RawValue ℚ)
  maxStopDistancePct : Option (RawValue ℚ)
  riskPerTradePct : Option (RawValue ℚ)
  eventGuardEnabled : Option (RawValue Bool)
  eventBlackoutBeforeMinutes : Option (RawValue ℤ)
  eventBlackoutAfterMinutes : Option (RawValue ℤ)
  eventGuardMinImportance : Option (RawValue EventImportance)
  earningsBlackoutDaysBefore : Option (RawValue ℤ)
  earningsBlackoutHoursAfter : Option (RawValue ℤ)
  delistingBlackoutDays : Option (RawValue ℤ)
  eventBlackoutBeforeMinutes_nonneg : ∀ raw ∈ eventBlackoutBeforeMinutes,
    0 ≤ raw.coerce RiskSettings.default.eventBlackoutBeforeMinutes
  eventBlackoutAfterMinutes_nonneg : ∀ raw ∈ eventBlackoutAfterMinutes,
    0 ≤ raw.coerce RiskSettings.default.eventBlackoutAfterMinutes
  earningsBlackoutDaysBefore_nonneg : ∀ raw ∈ earningsBlackoutDaysBefore,
    0 ≤ raw.coerce RiskSettings.default.earningsBlackoutDaysBefore
  earningsBlackoutHoursAfter_nonneg : ∀ raw ∈ earningsBlackoutHoursAfter,
    0 ≤ raw.coerce RiskSettings.default.earningsBlackoutHoursAfter
  delistingBlackoutDays_nonneg : ∀ raw ∈ delistingBlackoutDays,
    0 ≤ raw.coerce RiskSettings.default.delistingBlackoutDays

theorem ownValue_nonneg {dflt base : ℤ} {override : Option (RawValue ℤ)} (hbase : 0 ≤ base)
    (h : ∀ raw ∈ override, 0 ≤ raw.coerce dflt) : 0 ≤ ownValue dflt base override := by
  cases override with
  | none => exact hbase
  | some raw => exact h raw rfl

/-- The settings a sleeve has by the config file alone. -/
def SleeveRisk.own (o : SleeveRisk) (baseline : RiskSettings) : RiskSettings where
  maxPositionPct := ownValue RiskSettings.default.maxPositionPct baseline.maxPositionPct
    o.maxPositionPct
  dailyLossLimitPct := ownValue RiskSettings.default.dailyLossLimitPct
    baseline.dailyLossLimitPct o.dailyLossLimitPct
  maxDrawdownPct := ownValue RiskSettings.default.maxDrawdownPct baseline.maxDrawdownPct
    o.maxDrawdownPct
  consecutiveLossesCooldownMinutes := ownValue
    RiskSettings.default.consecutiveLossesCooldownMinutes
    baseline.consecutiveLossesCooldownMinutes o.consecutiveLossesCooldownMinutes
  consecutiveLossesThreshold := ownValue RiskSettings.default.consecutiveLossesThreshold
    baseline.consecutiveLossesThreshold o.consecutiveLossesThreshold
  maxOpenPositions := ownValue RiskSettings.default.maxOpenPositions baseline.maxOpenPositions
    o.maxOpenPositions
  minConfidence := ownValue RiskSettings.default.minConfidence baseline.minConfidence
    o.minConfidence
  maxStopDistancePct := ownValue RiskSettings.default.maxStopDistancePct
    baseline.maxStopDistancePct o.maxStopDistancePct
  riskPerTradePct := ownValue RiskSettings.default.riskPerTradePct baseline.riskPerTradePct
    o.riskPerTradePct
  enforceExitLevels := baseline.enforceExitLevels
  eventGuardEnabled := ownValue RiskSettings.default.eventGuardEnabled
    baseline.eventGuardEnabled o.eventGuardEnabled
  eventBlackoutBeforeMinutes := ownValue RiskSettings.default.eventBlackoutBeforeMinutes
    baseline.eventBlackoutBeforeMinutes o.eventBlackoutBeforeMinutes
  eventBlackoutAfterMinutes := ownValue RiskSettings.default.eventBlackoutAfterMinutes
    baseline.eventBlackoutAfterMinutes o.eventBlackoutAfterMinutes
  eventGuardMinImportance := ownValue RiskSettings.default.eventGuardMinImportance
    baseline.eventGuardMinImportance o.eventGuardMinImportance
  earningsBlackoutDaysBefore := ownValue RiskSettings.default.earningsBlackoutDaysBefore
    baseline.earningsBlackoutDaysBefore o.earningsBlackoutDaysBefore
  earningsBlackoutHoursAfter := ownValue RiskSettings.default.earningsBlackoutHoursAfter
    baseline.earningsBlackoutHoursAfter o.earningsBlackoutHoursAfter
  delistingBlackoutDays := ownValue RiskSettings.default.delistingBlackoutDays
    baseline.delistingBlackoutDays o.delistingBlackoutDays
  eventBlackoutBeforeMinutes_nonneg :=
    ownValue_nonneg baseline.eventBlackoutBeforeMinutes_nonneg
      o.eventBlackoutBeforeMinutes_nonneg
  eventBlackoutAfterMinutes_nonneg :=
    ownValue_nonneg baseline.eventBlackoutAfterMinutes_nonneg o.eventBlackoutAfterMinutes_nonneg
  earningsBlackoutDaysBefore_nonneg :=
    ownValue_nonneg baseline.earningsBlackoutDaysBefore_nonneg
      o.earningsBlackoutDaysBefore_nonneg
  earningsBlackoutHoursAfter_nonneg :=
    ownValue_nonneg baseline.earningsBlackoutHoursAfter_nonneg
      o.earningsBlackoutHoursAfter_nonneg
  delistingBlackoutDays_nonneg :=
    ownValue_nonneg baseline.delistingBlackoutDays_nonneg o.delistingBlackoutDays_nonneg

/-! ## The cap of the live settings -/

/-- The comparison of `min` or `max` that raises, by the types of its operands. -/
def notComparable (d : Direction) (live raw : String) : PyError :=
  let op := match d with
    | .le => "<"
    | .ge => ">"
  .raised ("'" ++ op ++ "' not supported between instances of '" ++ live ++ "' and '" ++ raw
    ++ "'")

/-- One limit of a sleeve: where the live limit differs from the config file, the stricter one. -/
def capped {α : Type} [LinearOrder α] (d : Direction) (type : String) (dflt base live : α)
    (override : Option (RawValue α)) : Except PyError α :=
  if live = base then .ok (ownValue dflt base override)
  else
    match override with
    | none => .ok (d.pick base live)
    | some (.plain v) => .ok (d.pick v live)
    | some (.quoted _) => .error (notComparable d type "str")
    | some .null => .error (notComparable d type "NoneType")

/-- A sleeve's effective risk limits. -/
def sleeveRiskSettings (baseline live : RiskSettings) (o : SleeveRisk) :
    Except PyError RiskSettings := do
  let maxPositionPct ← capped .le "float" RiskSettings.default.maxPositionPct
    baseline.maxPositionPct live.maxPositionPct o.maxPositionPct
  let dailyLossLimitPct ← capped .le "float" RiskSettings.default.dailyLossLimitPct
    baseline.dailyLossLimitPct live.dailyLossLimitPct o.dailyLossLimitPct
  let maxDrawdownPct ← capped .le "float" RiskSettings.default.maxDrawdownPct
    baseline.maxDrawdownPct live.maxDrawdownPct o.maxDrawdownPct
  let maxOpenPositions ← capped .le "int" RiskSettings.default.maxOpenPositions
    baseline.maxOpenPositions live.maxOpenPositions o.maxOpenPositions
  let minConfidence ← capped .ge "float" RiskSettings.default.minConfidence
    baseline.minConfidence live.minConfidence o.minConfidence
  let consecutiveLossesCooldownMinutes ← capped .ge "int"
    RiskSettings.default.consecutiveLossesCooldownMinutes
    baseline.consecutiveLossesCooldownMinutes live.consecutiveLossesCooldownMinutes
    o.consecutiveLossesCooldownMinutes
  return { o.own baseline with
    maxPositionPct, dailyLossLimitPct, maxDrawdownPct, maxOpenPositions, minConfidence,
    consecutiveLossesCooldownMinutes }

/-- A configured sleeve: its overrides and its engine. -/
structure SleeveEngine where
  risk : SleeveRisk
  engine : RiskEngine

/-- `apply_risk`: the limits of every engine are derived anew, in configuration order. The
trackers stay. -/
def applySleeveRisk (baseline live : RiskSettings) :
    List SleeveEngine → Except PyError Unit × List SleeveEngine
  | [] => (.ok (), [])
  | s :: rest =>
      match sleeveRiskSettings baseline live s.risk with
      | .error err => (.error err, s :: rest)
      | .ok fresh =>
          let applied := applySleeveRisk baseline live rest
          (applied.1, { s with engine := { s.engine with settings := fresh } } :: applied.2)

/-- The live objects of a runner with sleeves. -/
structure ControlledRunner where
  live : LiveConfig
  sleeves : List SleeveEngine

/-- The engines of freshly configured sleeves. -/
def buildEngines (baseline live : RiskSettings) :
    List SleeveRisk → Except PyError (List SleeveEngine)
  | [] => .ok []
  | o :: rest => do
      let settings ← sleeveRiskSettings baseline live o
      let engines ← buildEngines baseline live rest
      return ⟨o, RiskEngine.create settings⟩ :: engines

def ControlledRunner.build (file : ConfigFile) (component : String) (paper : Bool)
    (sleeves : List SleeveRisk) : Except PyError ControlledRunner := do
  let live := LiveConfig.load file component paper
  let engines ← buildEngines file.risk live.risk sleeves
  return ⟨live, engines⟩

/-- `_apply_overrides`: the blob, then its risk limits to every sleeve. -/
def ControlledRunner.applyBlob (blob : Except PyError (Option SafeConfigOverrides))
    (r : ControlledRunner) : Except PyError (List String) × ControlledRunner :=
  match parseAndApply blob r.live with
  | (.error err, live) => (.error err, { r with live := live })
  | (.ok changed, live) =>
      let applied := applySleeveRisk live.file.risk live.risk r.sleeves
      (applied.1.map (fun _ => changed), ⟨live, applied.2⟩)

/-- The runner after a blob; the caller logs an exception and goes on. -/
def ControlledRunner.afterBlob (blob : Except PyError (Option SafeConfigOverrides))
    (r : ControlledRunner) : ControlledRunner := (r.applyBlob blob).2

/-! ## Strictness -/

section Strictness

variable {α : Type} [LinearOrder α]

theorem Direction.Stricter.refl (d : Direction) (a : α) : d.Stricter a a := by
  cases d with
  | le => exact le_refl a
  | ge => exact le_refl a

theorem Direction.pick_stricter_left (d : Direction) (a b : α) : d.Stricter (d.pick a b) a := by
  cases d with
  | le => exact min_le_left a b
  | ge => exact le_max_left a b

theorem Direction.pick_stricter_right (d : Direction) (a b : α) :
    d.Stricter (d.pick a b) b := by
  cases d with
  | le => exact min_le_right a b
  | ge => exact le_max_right a b

/-- A limit that is no looser than the config file stays so, whatever blob is applied. -/
theorem tighten_stricter {d : Direction} {base live : α} (override : Option α)
    (h : d.Stricter live base) : d.Stricter (tighten d override base live) base := by
  unfold tighten
  cases override with
  | none => exact Direction.Stricter.refl d base
  | some v =>
      dsimp only
      split_ifs with hv
      · exact hv
      · exact h

/-- The value is absent or of the field's own type. -/
def Plain (override : Option (RawValue α)) : Prop :=
  ∀ raw ∈ override, ∃ v, raw = .plain v

theorem capped_ok_iff (d : Direction) (type : String) (dflt base live : α)
    (override : Option (RawValue α)) :
    (∃ v, capped d type dflt base live override = .ok v) ↔ (live ≠ base → Plain override) := by
  unfold capped Plain
  by_cases h : live = base
  · simp [h]
  · rcases override with _ | _ | v | v
    · simp [h]
    · simp [h]
    · simp [h]
    · simp [h]

theorem capped_stricter {d : Direction} {type : String} {dflt base live v : α}
    {override : Option (RawValue α)} (h : capped d type dflt base live override = .ok v) :
    d.Stricter v (ownValue dflt base override) ∧ (live ≠ base → d.Stricter v live) := by
  unfold capped at h
  split_ifs at h with heq
  · obtain rfl : ownValue dflt base override = v := Except.ok.inj h
    exact ⟨Direction.Stricter.refl d _, fun hne => absurd heq hne⟩
  · rcases override with _ | _ | w | w
    · obtain rfl : d.pick base live = v := Except.ok.inj h
      exact ⟨d.pick_stricter_left base live, fun _ => d.pick_stricter_right base live⟩
    · cases h
    · obtain rfl : d.pick w live = v := Except.ok.inj h
      exact ⟨d.pick_stricter_left w live, fun _ => d.pick_stricter_right w live⟩
    · cases h

end Strictness

/-- All six limits are at least as strict. -/
structure AtLeastAsStrict (a b : RiskSettings) : Prop where
  maxPositionPct : Direction.le.Stricter a.maxPositionPct b.maxPositionPct
  dailyLossLimitPct : Direction.le.Stricter a.dailyLossLimitPct b.dailyLossLimitPct
  maxDrawdownPct : Direction.le.Stricter a.maxDrawdownPct b.maxDrawdownPct
  maxOpenPositions : Direction.le.Stricter a.maxOpenPositions b.maxOpenPositions
  minConfidence : Direction.ge.Stricter a.minConfidence b.minConfidence
  consecutiveLossesCooldownMinutes : Direction.ge.Stricter a.consecutiveLossesCooldownMinutes
    b.consecutiveLossesCooldownMinutes

/-- Where the live limit differs from the config file, the limit is at least as strict as the
live one. -/
structure CappedBy (baseline live a : RiskSettings) : Prop where
  maxPositionPct : live.maxPositionPct ≠ baseline.maxPositionPct →
    Direction.le.Stricter a.maxPositionPct live.maxPositionPct
  dailyLossLimitPct : live.dailyLossLimitPct ≠ baseline.dailyLossLimitPct →
    Direction.le.Stricter a.dailyLossLimitPct live.dailyLossLimitPct
  maxDrawdownPct : live.maxDrawdownPct ≠ baseline.maxDrawdownPct →
    Direction.le.Stricter a.maxDrawdownPct live.maxDrawdownPct
  maxOpenPositions : live.maxOpenPositions ≠ baseline.maxOpenPositions →
    Direction.le.Stricter a.maxOpenPositions live.maxOpenPositions
  minConfidence : live.minConfidence ≠ baseline.minConfidence →
    Direction.ge.Stricter a.minConfidence live.minConfidence
  consecutiveLossesCooldownMinutes :
    live.consecutiveLossesCooldownMinutes ≠ baseline.consecutiveLossesCooldownMinutes →
      Direction.ge.Stricter a.consecutiveLossesCooldownMinutes
        live.consecutiveLossesCooldownMinutes

/-- Every value of the sleeve that the cap compares is of its field's type. -/
structure Comparable (baseline live : RiskSettings) (o : SleeveRisk) : Prop where
  maxPositionPct : live.maxPositionPct ≠ baseline.maxPositionPct → Plain o.maxPositionPct
  dailyLossLimitPct : live.dailyLossLimitPct ≠ baseline.dailyLossLimitPct →
    Plain o.dailyLossLimitPct
  maxDrawdownPct : live.maxDrawdownPct ≠ baseline.maxDrawdownPct → Plain o.maxDrawdownPct
  maxOpenPositions : live.maxOpenPositions ≠ baseline.maxOpenPositions →
    Plain o.maxOpenPositions
  minConfidence : live.minConfidence ≠ baseline.minConfidence → Plain o.minConfidence
  consecutiveLossesCooldownMinutes :
    live.consecutiveLossesCooldownMinutes ≠ baseline.consecutiveLossesCooldownMinutes →
      Plain o.consecutiveLossesCooldownMinutes

theorem applyRisk_stricter (o : Option RiskOverride) {base live : RiskSettings}
    (h : AtLeastAsStrict live base) : AtLeastAsStrict (applyRisk o base live) base where
  maxPositionPct := tighten_stricter _ h.maxPositionPct
  dailyLossLimitPct := tighten_stricter _ h.dailyLossLimitPct
  maxDrawdownPct := tighten_stricter _ h.maxDrawdownPct
  maxOpenPositions := tighten_stricter _ h.maxOpenPositions
  minConfidence := tighten_stricter _ h.minConfidence
  consecutiveLossesCooldownMinutes := tighten_stricter _ h.consecutiveLossesCooldownMinutes

/-! ## One sleeve -/

theorem sleeveRiskSettings_ok_of_comparable {baseline live : RiskSettings} {o : SleeveRisk}
    (h : Comparable baseline live o) : ∃ s, sleeveRiskSettings baseline live o = .ok s := by
  obtain ⟨v1, h1⟩ := (capped_ok_iff .le "float" RiskSettings.default.maxPositionPct _ _ _).mpr
    h.maxPositionPct
  obtain ⟨v2, h2⟩ := (capped_ok_iff .le "float" RiskSettings.default.dailyLossLimitPct _ _
    _).mpr h.dailyLossLimitPct
  obtain ⟨v3, h3⟩ := (capped_ok_iff .le "float" RiskSettings.default.maxDrawdownPct _ _ _).mpr
    h.maxDrawdownPct
  obtain ⟨v4, h4⟩ := (capped_ok_iff .le "int" RiskSettings.default.maxOpenPositions _ _ _).mpr
    h.maxOpenPositions
  obtain ⟨v5, h5⟩ := (capped_ok_iff .ge "float" RiskSettings.default.minConfidence _ _ _).mpr
    h.minConfidence
  obtain ⟨v6, h6⟩ := (capped_ok_iff .ge "int"
    RiskSettings.default.consecutiveLossesCooldownMinutes _ _ _).mpr
    h.consecutiveLossesCooldownMinutes
  unfold sleeveRiskSettings
  rw [h1, h2, h3, h4, h5, h6]
  exact ⟨_, rfl⟩

/-- What a derivation that succeeds says of each limit. -/
theorem sleeveRiskSettings_stricter {baseline live s : RiskSettings} {o : SleeveRisk}
    (h : sleeveRiskSettings baseline live o = .ok s) :
    AtLeastAsStrict s (o.own baseline) ∧ CappedBy baseline live s ∧
      Comparable baseline live o := by
  unfold sleeveRiskSettings at h
  obtain ⟨v1, h1, h⟩ := (bind_eq_ok_iff _ _ _).mp h
  obtain ⟨v2, h2, h⟩ := (bind_eq_ok_iff _ _ _).mp h
  obtain ⟨v3, h3, h⟩ := (bind_eq_ok_iff _ _ _).mp h
  obtain ⟨v4, h4, h⟩ := (bind_eq_ok_iff _ _ _).mp h
  obtain ⟨v5, h5, h⟩ := (bind_eq_ok_iff _ _ _).mp h
  obtain ⟨v6, h6, h⟩ := (bind_eq_ok_iff _ _ _).mp h
  obtain rfl := Except.ok.inj h
  obtain ⟨o1, l1⟩ := capped_stricter h1
  obtain ⟨o2, l2⟩ := capped_stricter h2
  obtain ⟨o3, l3⟩ := capped_stricter h3
  obtain ⟨o4, l4⟩ := capped_stricter h4
  obtain ⟨o5, l5⟩ := capped_stricter h5
  obtain ⟨o6, l6⟩ := capped_stricter h6
  refine ⟨⟨o1, o2, o3, o4, o5, o6⟩, ⟨l1, l2, l3, l4, l5, l6⟩, ⟨?_, ?_, ?_, ?_, ?_, ?_⟩⟩
  · exact (capped_ok_iff _ _ _ _ _ _).mp ⟨v1, h1⟩
  · exact (capped_ok_iff _ _ _ _ _ _).mp ⟨v2, h2⟩
  · exact (capped_ok_iff _ _ _ _ _ _).mp ⟨v3, h3⟩
  · exact (capped_ok_iff _ _ _ _ _ _).mp ⟨v4, h4⟩
  · exact (capped_ok_iff _ _ _ _ _ _).mp ⟨v5, h5⟩
  · exact (capped_ok_iff _ _ _ _ _ _).mp ⟨v6, h6⟩

/-! ## All sleeves -/

/-- The limits of one sleeve after an application. -/
structure SleeveEngine.Capped (baseline live : RiskSettings) (s : SleeveEngine) : Prop where
  own : AtLeastAsStrict s.engine.settings (s.risk.own baseline)
  live : CappedBy baseline live s.engine.settings

theorem applySleeveRisk_cons_ok {baseline live fresh : RiskSettings} {s : SleeveEngine}
    (rest : List SleeveEngine) (h : sleeveRiskSettings baseline live s.risk = .ok fresh) :
    applySleeveRisk baseline live (s :: rest) =
      ((applySleeveRisk baseline live rest).1,
        { s with engine := { s.engine with settings := fresh } }
          :: (applySleeveRisk baseline live rest).2) := by
  simp only [applySleeveRisk, h]

theorem applySleeveRisk_cons_error {baseline live : RiskSettings} {s : SleeveEngine}
    {err : PyError} (rest : List SleeveEngine)
    (h : sleeveRiskSettings baseline live s.risk = .error err) :
    applySleeveRisk baseline live (s :: rest) = (.error err, s :: rest) := by
  simp only [applySleeveRisk, h]

/-- An application succeeds exactly if every comparison it makes is one of numbers. -/
theorem applySleeveRisk_ok_iff (baseline live : RiskSettings) (sleeves : List SleeveEngine) :
    (applySleeveRisk baseline live sleeves).1 = .ok () ↔
      ∀ s ∈ sleeves, Comparable baseline live s.risk := by
  induction sleeves with
  | nil => simp [applySleeveRisk]
  | cons s rest ih =>
      rw [List.forall_mem_cons, ← ih]
      cases hs : sleeveRiskSettings baseline live s.risk with
      | ok fresh =>
          have hc := (sleeveRiskSettings_stricter hs).2.2
          rw [applySleeveRisk_cons_ok rest hs]
          exact (and_iff_right hc).symm
      | error err =>
          rw [applySleeveRisk_cons_error rest hs]
          constructor
          · intro h
            cases h
          · rintro ⟨hc, -⟩
            obtain ⟨fresh, hok⟩ := sleeveRiskSettings_ok_of_comparable hc
            rw [hs] at hok
            cases hok

/-- One that succeeds caps every sleeve. -/
theorem applySleeveRisk_capped {baseline live : RiskSettings} {sleeves : List SleeveEngine}
    (h : ∀ s ∈ sleeves, Comparable baseline live s.risk) :
    ∀ s ∈ (applySleeveRisk baseline live sleeves).2, s.Capped baseline live := by
  induction sleeves with
  | nil => simp [applySleeveRisk]
  | cons s rest ih =>
      obtain ⟨hs, hrest⟩ := List.forall_mem_cons.mp h
      obtain ⟨fresh, hok⟩ := sleeveRiskSettings_ok_of_comparable hs
      obtain ⟨hown, hlive, -⟩ := sleeveRiskSettings_stricter hok
      rw [applySleeveRisk_cons_ok rest hok, List.forall_mem_cons]
      exact ⟨⟨hown, hlive⟩, ih hrest⟩

/-- One that raises half way leaves no engine looser than the sleeve's own value. -/
theorem applySleeveRisk_own {baseline live : RiskSettings} {sleeves : List SleeveEngine}
    (h : ∀ s ∈ sleeves, AtLeastAsStrict s.engine.settings (s.risk.own baseline)) :
    ∀ s ∈ (applySleeveRisk baseline live sleeves).2,
      AtLeastAsStrict s.engine.settings (s.risk.own baseline) := by
  induction sleeves with
  | nil => simp [applySleeveRisk]
  | cons s rest ih =>
      obtain ⟨hs, hrest⟩ := List.forall_mem_cons.mp h
      cases hok : sleeveRiskSettings baseline live s.risk with
      | error err =>
          rw [applySleeveRisk_cons_error rest hok]
          exact h
      | ok fresh =>
          rw [applySleeveRisk_cons_ok rest hok, List.forall_mem_cons]
          exact ⟨(sleeveRiskSettings_stricter hok).1, ih hrest⟩

/-- Fresh live limits cap nothing. -/
theorem sleeveRiskSettings_fresh (baseline : RiskSettings) (o : SleeveRisk) :
    sleeveRiskSettings baseline baseline o = .ok (o.own baseline) := by
  simp only [sleeveRiskSettings, capped, if_true]
  rfl

theorem buildEngines_fresh (baseline : RiskSettings) (sleeves : List SleeveRisk) :
    buildEngines baseline baseline sleeves
      = .ok (sleeves.map (fun o => ⟨o, RiskEngine.create (o.own baseline)⟩)) := by
  induction sleeves with
  | nil => rfl
  | cons o rest ih =>
      unfold buildEngines
      rw [sleeveRiskSettings_fresh, ih]
      rfl

/-- A runner as it starts. -/
def ControlledRunner.start (file : ConfigFile) (component : String) (paper : Bool)
    (sleeves : List SleeveRisk) : ControlledRunner :=
  ⟨LiveConfig.load file component paper,
    sleeves.map (fun o => ⟨o, RiskEngine.create (o.own file.risk)⟩)⟩

theorem build_eq_start (file : ConfigFile) (component : String) (paper : Bool)
    (sleeves : List SleeveRisk) :
    ControlledRunner.build file component paper sleeves
      = .ok (ControlledRunner.start file component paper sleeves) := by
  change (buildEngines file.risk file.risk sleeves >>= _) = _
  rw [buildEngines_fresh]
  rfl

/-! ## Runs of blobs -/

/-- The override leaves the limit at a value that differs from the config file: it tightens it,
or it is skipped over a limit tightened before. -/
def Moves {α : Type} [LinearOrder α] (d : Direction) (override : Option α) (base live : α) :
    Prop :=
  match override with
  | none => False
  | some v => if d.Stricter v base then v ≠ base else live ≠ base

theorem tighten_ne_iff {α : Type} [LinearOrder α] (d : Direction) (override : Option α)
    (base live : α) : tighten d override base live ≠ base ↔ Moves d override base live := by
  unfold tighten Moves
  cases override with
  | none => simp
  | some v =>
      dsimp only
      split_ifs <;> rfl

/-- Where the blob moves a limit, the sleeve's value of it is a number. -/
structure Clear (o : Option RiskOverride) (baseline live : RiskSettings) (risk : SleeveRisk) :
    Prop where
  maxPositionPct : Moves .le (o.bind RiskOverride.maxPositionPct) baseline.maxPositionPct
    live.maxPositionPct → Plain risk.maxPositionPct
  dailyLossLimitPct : Moves .le (o.bind RiskOverride.dailyLossLimitPct)
    baseline.dailyLossLimitPct live.dailyLossLimitPct → Plain risk.dailyLossLimitPct
  maxDrawdownPct : Moves .le (o.bind RiskOverride.maxDrawdownPct) baseline.maxDrawdownPct
    live.maxDrawdownPct → Plain risk.maxDrawdownPct
  maxOpenPositions : Moves .le (o.bind RiskOverride.maxOpenPositions) baseline.maxOpenPositions
    live.maxOpenPositions → Plain risk.maxOpenPositions
  minConfidence : Moves .ge (o.bind RiskOverride.minConfidence) baseline.minConfidence
    live.minConfidence → Plain risk.minConfidence
  consecutiveLossesCooldownMinutes :
    Moves .ge (o.bind RiskOverride.consecutiveLossesCooldownMinutes)
      baseline.consecutiveLossesCooldownMinutes live.consecutiveLossesCooldownMinutes →
      Plain risk.consecutiveLossesCooldownMinutes

theorem clear_iff_comparable (o : Option RiskOverride) (baseline live : RiskSettings)
    (risk : SleeveRisk) :
    Clear o baseline live risk ↔ Comparable baseline (applyRisk o baseline live) risk := by
  constructor
  · rintro ⟨h1, h2, h3, h4, h5, h6⟩
    constructor
    · exact fun h => h1 ((tighten_ne_iff _ _ _ _).mp h)
    · exact fun h => h2 ((tighten_ne_iff _ _ _ _).mp h)
    · exact fun h => h3 ((tighten_ne_iff _ _ _ _).mp h)
    · exact fun h => h4 ((tighten_ne_iff _ _ _ _).mp h)
    · exact fun h => h5 ((tighten_ne_iff _ _ _ _).mp h)
    · exact fun h => h6 ((tighten_ne_iff _ _ _ _).mp h)
  · rintro ⟨h1, h2, h3, h4, h5, h6⟩
    constructor
    · exact fun h => h1 ((tighten_ne_iff _ _ _ _).mpr h)
    · exact fun h => h2 ((tighten_ne_iff _ _ _ _).mpr h)
    · exact fun h => h3 ((tighten_ne_iff _ _ _ _).mpr h)
    · exact fun h => h4 ((tighten_ne_iff _ _ _ _).mpr h)
    · exact fun h => h5 ((tighten_ne_iff _ _ _ _).mpr h)
    · exact fun h => h6 ((tighten_ne_iff _ _ _ _).mpr h)

/-- A blob that parses is clear for every sleeve. -/
def ClearBlob (blob : Except PyError (Option SafeConfigOverrides)) (r : ControlledRunner) :
    Prop :=
  ∀ o, blob = .ok o →
    ∀ s ∈ r.sleeves, Clear (overridesOf o).risk r.live.file.risk r.live.risk s.risk

/-- A blob that parses raises exactly if it is not clear for some sleeve. -/
theorem applyBlob_ok_iff (o : Option SafeConfigOverrides) (r : ControlledRunner) :
    (∃ changed, (r.applyBlob (.ok o)).1 = .ok changed) ↔ ClearBlob (.ok o) r := by
  have hiff := applySleeveRisk_ok_iff r.live.file.risk
    (applyRisk (overridesOf o).risk r.live.file.risk r.live.risk) r.sleeves
  have hclear : ClearBlob (.ok o) r ↔ ∀ s ∈ r.sleeves, Comparable r.live.file.risk
      (applyRisk (overridesOf o).risk r.live.file.risk r.live.risk) s.risk := by
    simp [ClearBlob, clear_iff_comparable]
  rw [hclear, ← hiff]
  change (∃ changed, ((applySleeveRisk r.live.file.risk
    (applyRisk (overridesOf o).risk r.live.file.risk r.live.risk) r.sleeves).1.map
      fun _ => changedNames r.live (applyOverrides o r.live)) = .ok changed) ↔ _
  cases (applySleeveRisk r.live.file.risk
    (applyRisk (overridesOf o).risk r.live.file.risk r.live.risk) r.sleeves).1 with
  | ok u => simp [Except.map]
  | error err => simp [Except.map]

/-- No limit is looser than the config file, and no engine than its sleeve's own value. -/
structure Tight (baseline : RiskSettings) (r : ControlledRunner) : Prop where
  file : r.live.file.risk = baseline
  live : AtLeastAsStrict r.live.risk baseline
  own : ∀ s ∈ r.sleeves, AtLeastAsStrict s.engine.settings (s.risk.own baseline)

theorem tight_afterBlob {baseline : RiskSettings} {r : ControlledRunner}
    (blob : Except PyError (Option SafeConfigOverrides)) (h : Tight baseline r) :
    Tight baseline (r.afterBlob blob) := by
  obtain ⟨rfl, hlive, hown⟩ := h
  cases blob with
  | error err => exact ⟨rfl, hlive, hown⟩
  | ok o => exact ⟨rfl, applyRisk_stricter _ hlive, applySleeveRisk_own hown⟩

/-- The engines are capped by the live limits. -/
def Capped (r : ControlledRunner) : Prop :=
  ∀ s ∈ r.sleeves, CappedBy r.live.file.risk r.live.risk s.engine.settings

theorem capped_afterBlob {blob : Except PyError (Option SafeConfigOverrides)}
    {r : ControlledRunner} (hclear : ClearBlob blob r) (h : Capped r) :
    Capped (r.afterBlob blob) := by
  cases blob with
  | error err => exact h
  | ok o =>
      have hcomp : ∀ s ∈ r.sleeves, Comparable r.live.file.risk
          (applyRisk (overridesOf o).risk r.live.file.risk r.live.risk) s.risk :=
        fun s hs => (clear_iff_comparable _ _ _ _).mp (hclear o rfl s hs)
      exact fun s hs => (applySleeveRisk_capped hcomp s hs).live

theorem AtLeastAsStrict.refl (a : RiskSettings) : AtLeastAsStrict a a := by
  constructor <;> exact Direction.Stricter.refl _ _

theorem tight_start (file : ConfigFile) (component : String) (paper : Bool)
    (sleeves : List SleeveRisk) :
    Tight file.risk (ControlledRunner.start file component paper sleeves) := by
  refine ⟨rfl, AtLeastAsStrict.refl file.risk, ?_⟩
  intro s hs
  obtain ⟨o, -, rfl⟩ := List.mem_map.mp hs
  exact AtLeastAsStrict.refl (o.own file.risk)

theorem capped_start (file : ConfigFile) (component : String) (paper : Bool)
    (sleeves : List SleeveRisk) :
    Capped (ControlledRunner.start file component paper sleeves) := by
  intro s hs
  constructor <;> exact fun h => absurd rfl h

/-- **Tighten only.** A runner with any sleeves starts, and after any blobs its live limits are
at least as strict as the config file and every engine as its sleeve's own values; if no blob
moved a limit that a sleeve overrides with something other than a number, every engine is capped
by the live limits too. -/
theorem tighten_only (file : ConfigFile) (component : String) (paper : Bool)
    (sleeves : List SleeveRisk) :
    let start := ControlledRunner.start file component paper sleeves
    ControlledRunner.build file component paper sleeves = .ok start ∧
      ∀ blobs : List (Except PyError (Option SafeConfigOverrides)),
        let r := Lib.run ControlledRunner.afterBlob blobs start
        Tight file.risk r ∧
          (EachStep ControlledRunner.afterBlob ClearBlob blobs start → Capped r) := by
  intro start
  refine ⟨build_eq_start file component paper sleeves, ?_⟩
  intro blobs r
  constructor
  · exact run_invariant (I := Tight file.risk) (fun blob _ h => tight_afterBlob blob h) blobs
      (tight_start file component paper sleeves)
  · intro hclear
    exact run_preserves (fun _ _ hc h => capped_afterBlob hc h) blobs hclear
      (capped_start file component paper sleeves)

/-- A sleeve with one override, of the position cap. -/
def capOverride (raw : RawValue ℚ) : SleeveRisk where
  maxPositionPct := some raw
  dailyLossLimitPct := none
  maxDrawdownPct := none
  consecutiveLossesCooldownMinutes := none
  consecutiveLossesThreshold := none
  maxOpenPositions := none
  minConfidence := none
  maxStopDistancePct := none
  riskPerTradePct := none
  eventGuardEnabled := none
  eventBlackoutBeforeMinutes := none
  eventBlackoutAfterMinutes := none
  eventGuardMinImportance := none
  earningsBlackoutDaysBefore := none
  earningsBlackoutHoursAfter := none
  delistingBlackoutDays := none
  eventBlackoutBeforeMinutes_nonneg := by simp
  eventBlackoutAfterMinutes_nonneg := by simp
  earningsBlackoutDaysBefore_nonneg := by simp
  earningsBlackoutHoursAfter_nonneg := by simp
  delistingBlackoutDays_nonneg := by simp

/-- An agent-wide cap reaches a sleeve that sets a cap of its own. -/
theorem tighten_only_own_cap :
    Capped ((ControlledRunner.start shippedFile "crypto" true
      [capOverride (.plain (1 / 5))]).afterBlob
        (.ok (some (positionCap (1 / 20) (by norm_num))))) := by
  refine ((tighten_only shippedFile "crypto" true [capOverride (.plain (1 / 5))]).2
    [.ok (some (positionCap (1 / 20) (by norm_num)))]).2 ⟨?_, trivial⟩
  rintro o ⟨⟩ s hs
  obtain rfl := List.mem_singleton.mp hs
  refine ⟨fun _ => ?_, ?_, ?_, ?_, ?_, ?_⟩
  · rintro raw ⟨⟩
    exact ⟨_, rfl⟩
  all_goals exact fun h => h.elim

/-- A sleeve whose cap is `null` starts with the default of the class, and an agent-wide cap of
5 % raises before it reaches the sleeve. -/
theorem null_limit_uncapped :
    let start := ControlledRunner.start shippedFile "crypto" true [capOverride .null]
    let blob : Except PyError (Option SafeConfigOverrides) :=
      .ok (some (positionCap (1 / 20) (by norm_num)))
    let after := start.afterBlob blob
    (start.applyBlob blob).1.toOption = none ∧
      after.live.file.risk.maxPositionPct = 1 / 10 ∧
      after.live.risk.maxPositionPct = 1 / 20 ∧
      after.sleeves.map (fun s => s.engine.settings.maxPositionPct) = [1 / 10] ∧
      ¬ Capped after := by
  intro start blob after
  have hfile : after.live.file.risk.maxPositionPct = 1 / 10 := by decide +kernel
  have hlive : after.live.risk.maxPositionPct = 1 / 20 := by decide +kernel
  have hengines : after.sleeves.map (fun s => s.engine.settings.maxPositionPct) = [1 / 10] := by
    decide +kernel
  refine ⟨by decide +kernel, hfile, hlive, hengines, ?_⟩
  intro h
  have hmem : 1 / 10 ∈ after.sleeves.map (fun s => s.engine.settings.maxPositionPct) := by
    rw [hengines]
    exact List.mem_singleton.mpr rfl
  obtain ⟨s, hs, heq⟩ := List.mem_map.mp hmem
  have hcap : s.engine.settings.maxPositionPct ≤ after.live.risk.maxPositionPct :=
    (h s hs).maxPositionPct (by rw [hfile, hlive]; norm_num)
  rw [heq, hlive] at hcap
  norm_num at hcap

end SmartyTrader
