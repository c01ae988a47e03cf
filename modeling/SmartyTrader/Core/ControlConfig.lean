import SmartyTrader.Core.Settings
import SmartyTrader.Lib.Dict
import SmartyTrader.Lib.Runs

set_option autoImplicit false

/-! # Safe config overrides

The control plane stores one blob of overrides; `parseAndApply` writes it to the live objects.
Each field resolves as *override, else the value of the config file*, and risk overrides may only
tighten. Two kinds of fields do not follow that rule: a risk override that would loosen leaves
the live value as it is, and a field that resolves to nothing is not written.
-/

namespace SmartyTrader

open Lib

/-! ## Overrides -/

/-- Which direction is stricter for a limit. -/
inductive Direction where
  | le
  | ge
  deriving DecidableEq

section Direction

variable {α : Type} [LinearOrder α]

/-- `a` is at least as strict as `b`. -/
def Direction.Stricter : Direction → α → α → Prop
  | .le, a, b => a ≤ b
  | .ge, a, b => b ≤ a

instance (d : Direction) (a b : α) : Decidable (d.Stricter a b) :=
  match d with
  | .le => inferInstanceAs (Decidable (a ≤ b))
  | .ge => inferInstanceAs (Decidable (b ≤ a))

/-- The stricter one of two values. -/
def Direction.pick : Direction → α → α → α
  | .le, a, b => min a b
  | .ge, a, b => max a b

end Direction

/-- `risk.*`: the limits that may be tightened. -/
structure RiskOverride where
  maxPositionPct : Option ℚ
  dailyLossLimitPct : Option ℚ
  maxDrawdownPct : Option ℚ
  consecutiveLossesCooldownMinutes : Option ℤ
  maxOpenPositions : Option ℤ
  minConfidence : Option ℚ
  maxPositionPct_bounds : ∀ v ∈ maxPositionPct, 0 < v ∧ v ≤ 1
  dailyLossLimitPct_bounds : ∀ v ∈ dailyLossLimitPct, 0 < v ∧ v ≤ 1
  maxDrawdownPct_bounds : ∀ v ∈ maxDrawdownPct, 0 < v ∧ v ≤ 1
  consecutiveLossesCooldownMinutes_bounds : ∀ v ∈ consecutiveLossesCooldownMinutes, 0 ≤ v
  maxOpenPositions_bounds : ∀ v ∈ maxOpenPositions, 1 ≤ v
  minConfidence_bounds : ∀ v ∈ minConfidence, 0 ≤ v ∧ v ≤ 1

/-- `execution.*`: the cost model of the paper executor. -/
structure ExecutionOverride where
  paperFeePct : Option ℚ
  paperSlippagePct : Option ℚ
  paperFeePct_bounds : ∀ v ∈ paperFeePct, 0 ≤ v ∧ v < 1
  paperSlippagePct_bounds : ∀ v ∈ paperSlippagePct, 0 ≤ v ∧ v < 1

inductive ReasoningMode where
  | default
  | off
  | low
  | medium
  | high
  | xhigh
  deriving DecidableEq

/-- `llm.*`: tuning knobs. -/
structure LLMOverride where
  maxTokens : Option ℤ
  timeoutSeconds : Option ℤ
  temperature : Option ℚ
  reasoning : Option ReasoningMode
  maxTokens_bounds : ∀ v ∈ maxTokens, 1024 ≤ v ∧ v ≤ 65536
  timeoutSeconds_bounds : ∀ v ∈ timeoutSeconds, 30 ≤ v ∧ v ≤ 3600
  temperature_bounds : ∀ v ∈ temperature, 0 ≤ v ∧ v ≤ 1

/-- The complete surface. -/
structure SafeConfigOverrides where
  intervalMinutes : Option ℤ
  pairs : Option (List Symbol)
  symbols : Option (List Symbol)
  marketHours : Option String
  decisionHistoryLimit : Option ℤ
  risk : Option RiskOverride
  execution : Option ExecutionOverride
  llm : Option LLMOverride
  intervalMinutes_bounds : ∀ v ∈ intervalMinutes, 1 ≤ v ∧ v ≤ 1440
  decisionHistoryLimit_bounds : ∀ v ∈ decisionHistoryLimit, 0 ≤ v ∧ v ≤ 100

/-- `SafeConfigOverrides()`. -/
def SafeConfigOverrides.none : SafeConfigOverrides where
  intervalMinutes := Option.none
  pairs := Option.none
  symbols := Option.none
  marketHours := Option.none
  decisionHistoryLimit := Option.none
  risk := Option.none
  execution := Option.none
  llm := Option.none
  intervalMinutes_bounds := by simp
  decisionHistoryLimit_bounds := by simp

/-! ## Settings -/

/-- The fields of an agent's block that the overrides reach, and the currency they are checked
against. -/
structure AgentConfig where
  intervalMinutes : ℤ
  pairs : List Symbol
  symbols : List Symbol
  marketHours : Option String
  decisionHistoryLimit : ℤ
  quoteCurrency : Option String
  deriving DecidableEq

structure LLMSettings where
  maxTokens : ℤ
  timeoutSeconds : ℤ
  temperature : ℚ
  reasoning : ReasoningMode
  deriving DecidableEq

/-- A cost schedule: the flat fields of the block, or what an executor charges. -/
structure CostParams where
  feePct : ℚ
  slippagePct : ℚ
  minCommission : ℚ
  fxFeePct : ℚ
  deriving DecidableEq

/-- The cost profile of one component: what it replaces of the flat fields. -/
structure CostProfile where
  feePct : Option ℚ
  slippagePct : Option ℚ
  minCommission : Option ℚ
  fxFeePct : Option ℚ

def CostProfile.empty : CostProfile := ⟨none, none, none, none⟩

structure ExecutionSettings where
  flat : CostParams
  paperCosts : Dict String CostProfile

/-- `paper_cost_params`. -/
def ExecutionSettings.paperCostParams (s : ExecutionSettings) (agent : String) : CostParams :=
  let profile := (s.paperCosts.get? agent).getD CostProfile.empty
  { feePct := profile.feePct.getD s.flat.feePct
    slippagePct := profile.slippagePct.getD s.flat.slippagePct
    minCommission := profile.minCommission.getD s.flat.minCommission
    fxFeePct := profile.fxFeePct.getD s.flat.fxFeePct }

/-- The blocks of the config file that the overrides reach, for the agent of one runner. -/
structure ConfigFile where
  agent : AgentConfig
  risk : RiskSettings
  llm : LLMSettings
  execution : ExecutionSettings

/-- The live objects of a runner, next to the untouched copies of the file. -/
structure LiveConfig where
  file : ConfigFile
  agent : AgentConfig
  risk : RiskSettings
  llm : LLMSettings
  /-- What the executor charges; only the paper executor has these attributes. -/
  executor : Option CostParams
  /-- `decision_history_limit` of the pipeline. -/
  historyLimit : ℤ

/-- The objects a runner builds from a freshly loaded file. -/
def LiveConfig.load (file : ConfigFile) (component : String) (paper : Bool) : LiveConfig where
  file := file
  agent := file.agent
  risk := file.risk
  llm := file.llm
  executor := if paper then some (file.execution.paperCostParams component) else none
  historyLimit := file.agent.decisionHistoryLimit

/-! ## Applying overrides -/

/-- The part after the last slash. -/
def quoteOf (pair : Symbol) : String :=
  String.ofList (pair.toList.reverse.takeWhile (· ≠ '/')).reverse

/-- `pairs_not_quoted_in`. -/
def pairsNotQuotedIn (pairs : List Symbol) (quoteCurrency : Option String) : List Symbol :=
  match quoteCurrency with
  | none => []
  | some quote =>
      if quote = "" then []
      else pairs.filter (fun p => upper (quoteOf p) ≠ upper quote)

/-- `_set`: a value that is `None` is not written. -/
def assign {α : Type} (live : α) (value : Option α) : α := value.getD live

/-- One limit: an override that would loosen it is skipped, without one the file's value is
written. -/
def tighten {α : Type} [LinearOrder α] (d : Direction) (override : Option α) (base live : α) :
    α :=
  match override with
  | none => base
  | some v => if d.Stricter v base then v else live

/-- The loop over `RiskOverride.model_fields`. -/
def applyRisk (o : Option RiskOverride) (base live : RiskSettings) : RiskSettings :=
  { live with
    maxPositionPct := tighten .le (o.bind RiskOverride.maxPositionPct)
      base.maxPositionPct live.maxPositionPct
    dailyLossLimitPct := tighten .le (o.bind RiskOverride.dailyLossLimitPct)
      base.dailyLossLimitPct live.dailyLossLimitPct
    maxDrawdownPct := tighten .le (o.bind RiskOverride.maxDrawdownPct)
      base.maxDrawdownPct live.maxDrawdownPct
    consecutiveLossesCooldownMinutes := tighten .ge
      (o.bind RiskOverride.consecutiveLossesCooldownMinutes)
      base.consecutiveLossesCooldownMinutes live.consecutiveLossesCooldownMinutes
    maxOpenPositions := tighten .le (o.bind RiskOverride.maxOpenPositions)
      base.maxOpenPositions live.maxOpenPositions
    minConfidence := tighten .ge (o.bind RiskOverride.minConfidence)
      base.minConfidence live.minConfidence }

/-- The fields of the agent's block. Pairs that its currency cannot pay for are skipped. -/
def applyAgent (o : SafeConfigOverrides) (base live : AgentConfig) : AgentConfig :=
  let pairs := o.pairs.getD base.pairs
  { live with
    intervalMinutes := assign live.intervalMinutes (o.intervalMinutes.or base.intervalMinutes)
    marketHours := (o.marketHours.or base.marketHours).or live.marketHours
    decisionHistoryLimit := assign live.decisionHistoryLimit
      (o.decisionHistoryLimit.or base.decisionHistoryLimit)
    pairs :=
      if o.pairs.isSome ∧ pairsNotQuotedIn pairs live.quoteCurrency ≠ [] then base.pairs
      else pairs
    symbols := o.symbols.getD base.symbols }

/-- The cost attributes of an executor that has them. -/
def applyExecution (o : Option ExecutionOverride) (base : ExecutionSettings)
    (costs : CostParams) : CostParams :=
  { costs with
    feePct := (o.bind ExecutionOverride.paperFeePct).getD base.flat.feePct
    slippagePct := (o.bind ExecutionOverride.paperSlippagePct).getD base.flat.slippagePct }

def applyLLM (o : Option LLMOverride) (base : LLMSettings) : LLMSettings where
  maxTokens := (o.bind LLMOverride.maxTokens).getD base.maxTokens
  timeoutSeconds := (o.bind LLMOverride.timeoutSeconds).getD base.timeoutSeconds
  temperature := (o.bind LLMOverride.temperature).getD base.temperature
  reasoning := (o.bind LLMOverride.reasoning).getD base.reasoning

/-- The name of an attribute, if it changed. -/
def changedName {α : Type} [DecidableEq α] (name : String) (old new : α) : List String :=
  if old = new then [] else [name]

/-- The names of the attributes that differ, in the order they are written. -/
def changedNames (old new : LiveConfig) : List String :=
  changedName "interval_minutes" old.agent.intervalMinutes new.agent.intervalMinutes
    ++ changedName "market_hours" old.agent.marketHours new.agent.marketHours
    ++ changedName "decision_history_limit" old.agent.decisionHistoryLimit
      new.agent.decisionHistoryLimit
    ++ changedName "pairs" old.agent.pairs new.agent.pairs
    ++ changedName "symbols" old.agent.symbols new.agent.symbols
    ++ changedName "max_position_pct" old.risk.maxPositionPct new.risk.maxPositionPct
    ++ changedName "daily_loss_limit_pct" old.risk.dailyLossLimitPct new.risk.dailyLossLimitPct
    ++ changedName "max_drawdown_pct" old.risk.maxDrawdownPct new.risk.maxDrawdownPct
    ++ changedName "consecutive_losses_cooldown_minutes"
      old.risk.consecutiveLossesCooldownMinutes new.risk.consecutiveLossesCooldownMinutes
    ++ changedName "max_open_positions" old.risk.maxOpenPositions new.risk.maxOpenPositions
    ++ changedName "min_confidence" old.risk.minConfidence new.risk.minConfidence
    ++ changedName "fee_pct" (old.executor.map CostParams.feePct)
      (new.executor.map CostParams.feePct)
    ++ changedName "slippage_pct" (old.executor.map CostParams.slippagePct)
      (new.executor.map CostParams.slippagePct)
    ++ changedName "decision_history_limit" old.historyLimit new.historyLimit
    ++ changedName "max_tokens" old.llm.maxTokens new.llm.maxTokens
    ++ changedName "timeout_seconds" old.llm.timeoutSeconds new.llm.timeoutSeconds
    ++ changedName "temperature" old.llm.temperature new.llm.temperature
    ++ changedName "reasoning" old.llm.reasoning new.llm.reasoning

/-- The live objects after a blob that parses; `none` is an absent one. -/
def applyOverrides (blob : Option SafeConfigOverrides) (c : LiveConfig) : LiveConfig :=
  let o := blob.getD SafeConfigOverrides.none
  { c with
    agent := applyAgent o c.file.agent c.agent
    risk := applyRisk o.risk c.file.risk c.risk
    executor := c.executor.map (applyExecution o.execution c.file.execution)
    historyLimit := o.decisionHistoryLimit.getD c.file.agent.decisionHistoryLimit
    llm := applyLLM o.llm c.file.llm }

/-- `parse_and_apply`: a blob that does not parse raises before anything is written. -/
def parseAndApply (blob : Except PyError (Option SafeConfigOverrides)) (c : LiveConfig) :
    Except PyError (List String) × LiveConfig :=
  match blob with
  | .error err => (.error err, c)
  | .ok blob => (.ok (changedNames c (applyOverrides blob c)), applyOverrides blob c)

/-! ## What the blobs before leave behind -/

/-- The overrides of a blob. -/
def overridesOf (blob : Option SafeConfigOverrides) : SafeConfigOverrides :=
  blob.getD SafeConfigOverrides.none

/-- The limit is not skipped, or skipping it leaves the value of the file. -/
def Settles {α : Type} [LinearOrder α] (d : Direction) (override : Option α) (base live : α) :
    Prop :=
  ∀ v ∈ override, ¬ d.Stricter v base → live = base

theorem tighten_eq_iff {α : Type} [LinearOrder α] (d : Direction) (override : Option α)
    (base live : α) :
    tighten d override base live = tighten d override base base ↔
      Settles d override base live := by
  unfold tighten Settles
  cases override with
  | none => simp
  | some v =>
      dsimp only
      split_ifs with h
      · simp [h]
      · simp [h]

/-- A blob writes every field it does not skip: the limits that settle, and the market hours,
unless there are none to write and some to keep. -/
structure Resets (c : LiveConfig) (blob : Option SafeConfigOverrides) : Prop where
  maxPositionPct : Settles .le ((overridesOf blob).risk.bind RiskOverride.maxPositionPct)
    c.file.risk.maxPositionPct c.risk.maxPositionPct
  dailyLossLimitPct : Settles .le ((overridesOf blob).risk.bind RiskOverride.dailyLossLimitPct)
    c.file.risk.dailyLossLimitPct c.risk.dailyLossLimitPct
  maxDrawdownPct : Settles .le ((overridesOf blob).risk.bind RiskOverride.maxDrawdownPct)
    c.file.risk.maxDrawdownPct c.risk.maxDrawdownPct
  consecutiveLossesCooldownMinutes : Settles .ge
    ((overridesOf blob).risk.bind RiskOverride.consecutiveLossesCooldownMinutes)
    c.file.risk.consecutiveLossesCooldownMinutes c.risk.consecutiveLossesCooldownMinutes
  maxOpenPositions : Settles .le ((overridesOf blob).risk.bind RiskOverride.maxOpenPositions)
    c.file.risk.maxOpenPositions c.risk.maxOpenPositions
  minConfidence : Settles .ge ((overridesOf blob).risk.bind RiskOverride.minConfidence)
    c.file.risk.minConfidence c.risk.minConfidence
  marketHours : (overridesOf blob).marketHours = none → c.file.agent.marketHours = none →
    c.agent.marketHours = none

/-- The settings with the six limits of others. -/
def RiskSettings.withLimits (s limits : RiskSettings) : RiskSettings :=
  { s with
    maxPositionPct := limits.maxPositionPct
    dailyLossLimitPct := limits.dailyLossLimitPct
    maxDrawdownPct := limits.maxDrawdownPct
    consecutiveLossesCooldownMinutes := limits.consecutiveLossesCooldownMinutes
    maxOpenPositions := limits.maxOpenPositions
    minConfidence := limits.minConfidence }

/-- What no override reaches is the same. -/
structure SameRest (a b : LiveConfig) : Prop where
  file : b.file = a.file
  quote : b.agent.quoteCurrency = a.agent.quoteCurrency
  risk : b.risk.withLimits a.risk = a.risk
  executor : b.executor.map (fun c => (c.minCommission, c.fxFeePct)) =
    a.executor.map (fun c => (c.minCommission, c.fxFeePct))

theorem SameRest.refl (a : LiveConfig) : SameRest a a := ⟨rfl, rfl, rfl, rfl⟩

theorem sameRest_apply {a b : LiveConfig} (h : SameRest a b)
    (blob : Option SafeConfigOverrides) : SameRest a (applyOverrides blob b) where
  file := h.file
  quote := h.quote
  risk := h.risk
  executor := by
    rw [← h.executor]
    unfold applyOverrides
    cases b.executor <;> rfl

theorem sameRest_run {a : LiveConfig} (blobs : List (Option SafeConfigOverrides)) :
    SameRest a (Lib.run applyOverrides blobs a) :=
  run_invariant (I := SameRest a) (fun blob _ h => sameRest_apply h blob) blobs
    (SameRest.refl a)

/-- Two live settings that differ in the limits only come out the same exactly when each limit
does. -/
theorem applyRisk_eq_iff (o : Option RiskOverride) (base a b : RiskSettings)
    (h : b.withLimits a = a) :
    applyRisk o base b = applyRisk o base a ↔
      tighten .le (o.bind RiskOverride.maxPositionPct) base.maxPositionPct b.maxPositionPct
          = tighten .le (o.bind RiskOverride.maxPositionPct) base.maxPositionPct
            a.maxPositionPct ∧
        tighten .le (o.bind RiskOverride.dailyLossLimitPct) base.dailyLossLimitPct
            b.dailyLossLimitPct
          = tighten .le (o.bind RiskOverride.dailyLossLimitPct) base.dailyLossLimitPct
            a.dailyLossLimitPct ∧
        tighten .le (o.bind RiskOverride.maxDrawdownPct) base.maxDrawdownPct b.maxDrawdownPct
          = tighten .le (o.bind RiskOverride.maxDrawdownPct) base.maxDrawdownPct
            a.maxDrawdownPct ∧
        tighten .ge (o.bind RiskOverride.consecutiveLossesCooldownMinutes)
            base.consecutiveLossesCooldownMinutes b.consecutiveLossesCooldownMinutes
          = tighten .ge (o.bind RiskOverride.consecutiveLossesCooldownMinutes)
            base.consecutiveLossesCooldownMinutes a.consecutiveLossesCooldownMinutes ∧
        tighten .le (o.bind RiskOverride.maxOpenPositions) base.maxOpenPositions
            b.maxOpenPositions
          = tighten .le (o.bind RiskOverride.maxOpenPositions) base.maxOpenPositions
            a.maxOpenPositions ∧
        tighten .ge (o.bind RiskOverride.minConfidence) base.minConfidence b.minConfidence
          = tighten .ge (o.bind RiskOverride.minConfidence) base.minConfidence
            a.minConfidence := by
  cases a
  cases b
  simp only [RiskSettings.withLimits, RiskSettings.mk.injEq, true_and] at h
  simp only [applyRisk, RiskSettings.mk.injEq]
  tauto

theorem applyExecution_eq (o : Option ExecutionOverride) (base : ExecutionSettings)
    {a b : Option CostParams}
    (h : b.map (fun c => (c.minCommission, c.fxFeePct))
      = a.map (fun c => (c.minCommission, c.fxFeePct))) :
    b.map (applyExecution o base) = a.map (applyExecution o base) := by
  cases a with
  | none => rw [Option.map_eq_none_iff.mp h]
  | some a =>
      cases b with
      | none => cases h
      | some b =>
          simp only [Option.map_some, Option.some.injEq, Prod.mk.injEq] at h
          simp [applyExecution, h.1, h.2]

theorem applyAgent_eq_iff (o : SafeConfigOverrides) (base live : AgentConfig)
    (hquote : live.quoteCurrency = base.quoteCurrency) :
    applyAgent o base live = applyAgent o base base ↔
      (o.marketHours = none → base.marketHours = none → live.marketHours = none) := by
  unfold applyAgent assign
  simp only [AgentConfig.mk.injEq, hquote, Option.or_some, Option.getD_some, true_and, and_true]
  cases o.marketHours <;> cases base.marketHours <;> simp

theorem applyAgent_none (base : AgentConfig) :
    applyAgent SafeConfigOverrides.none base base = base := by
  unfold applyAgent assign SafeConfigOverrides.none
  cases hm : base.marketHours <;> simp [← hm]

/-- Without overrides, loaded objects change in the costs of the executor only. -/
theorem applyOverrides_none (file : ConfigFile) (component : String) (paper : Bool) :
    let fresh := LiveConfig.load file component paper
    applyOverrides none fresh =
      { fresh with executor := fresh.executor.map (applyExecution none file.execution) } := by
  intro fresh
  have hagent : applyAgent SafeConfigOverrides.none fresh.file.agent fresh.agent = fresh.agent :=
    applyAgent_none file.agent
  simp only [applyOverrides, Option.getD_none, hagent]
  rfl

/-- **History independence of overrides.** After any blobs, a blob leaves the live objects as it
leaves freshly loaded ones, if and only if it resets what the blobs before it left; and an
absent blob changes nothing on freshly loaded objects if and only if the cost profile of the
component has the flat fee and slippage. -/
theorem override_history (file : ConfigFile) (component : String) (paper : Bool)
    (blobs : List (Option SafeConfigOverrides)) (blob : Option SafeConfigOverrides) :
    let fresh := LiveConfig.load file component paper
    (Lib.run applyOverrides (blobs ++ [blob]) fresh = applyOverrides blob fresh ↔
      Resets (Lib.run applyOverrides blobs fresh) blob) ∧
    (applyOverrides none fresh = fresh ↔ (paper = true →
      (file.execution.paperCostParams component).feePct = file.execution.flat.feePct ∧
        (file.execution.paperCostParams component).slippagePct
          = file.execution.flat.slippagePct)) := by
  intro fresh
  constructor
  · have hrest := sameRest_run (a := fresh) blobs
    rw [run_append, run_cons, run_nil]
    generalize Lib.run applyOverrides blobs fresh = c at hrest ⊢
    have hfile : c.file = file := hrest.file
    have hagent := applyAgent_eq_iff (overridesOf blob) file.agent c.agent hrest.quote
    have hrisk := applyRisk_eq_iff (overridesOf blob).risk file.risk file.risk c.risk hrest.risk
    have hexec := applyExecution_eq (overridesOf blob).execution file.execution hrest.executor
    have heq : applyOverrides blob c = applyOverrides blob fresh ↔
        applyAgent (overridesOf blob) file.agent c.agent
            = applyAgent (overridesOf blob) file.agent file.agent ∧
          applyRisk (overridesOf blob).risk file.risk c.risk
            = applyRisk (overridesOf blob).risk file.risk file.risk := by
      unfold applyOverrides
      simp only [LiveConfig.mk.injEq, hfile]
      constructor
      · rintro ⟨-, ha, hr, -⟩
        exact ⟨ha, hr⟩
      · rintro ⟨ha, hr⟩
        exact ⟨rfl, ha, hr, rfl, hexec, rfl⟩
    rw [heq, hagent, hrisk]
    simp only [tighten_eq_iff]
    constructor
    · rintro ⟨hm, h1, h2, h3, h4, h5, h6⟩
      constructor <;> rw [hfile] <;> assumption
    · rintro ⟨h1, h2, h3, h4, h5, h6, hm⟩
      rw [hfile] at h1 h2 h3 h4 h5 h6 hm
      exact ⟨hm, h1, h2, h3, h4, h5, h6⟩
  · rw [applyOverrides_none]
    cases paper with
    | false => simp [fresh, LiveConfig.load]
    | true =>
        simp only [fresh, LiveConfig.load, LiveConfig.mk.injEq, if_true, Option.map_some,
          Option.some.injEq, true_and, and_true, forall_const, applyExecution, Option.bind_none,
          Option.getD_none]
        generalize file.execution.paperCostParams component = params
        cases params
        simp [eq_comm]

/-! ## Blobs that leave something behind -/

/-- The crypto agent as shipped: no market hours, and a fee profile of its own. -/
def shippedFile : ConfigFile where
  agent := ⟨5, ["BTC/EUR"], [], none, 10, some "EUR"⟩
  risk := RiskSettings.default
  llm := ⟨1024, 30, 1 / 5, .default⟩
  execution :=
    { flat := ⟨1 / 1000, 1 / 1000, 0, 0⟩
      paperCosts := Dict.empty.set "crypto" ⟨some (1 / 500), none, none, none⟩ }

/-- A blob that sets the position cap. -/
def positionCap (v : ℚ) (h : 0 < v ∧ v ≤ 1) : SafeConfigOverrides :=
  { SafeConfigOverrides.none with
    risk := some
      { maxPositionPct := some v
        dailyLossLimitPct := none
        maxDrawdownPct := none
        consecutiveLossesCooldownMinutes := none
        maxOpenPositions := none
        minConfidence := none
        maxPositionPct_bounds := by
          rintro w ⟨⟩
          exact h
        dailyLossLimitPct_bounds := by simp
        maxDrawdownPct_bounds := by simp
        consecutiveLossesCooldownMinutes_bounds := by simp
        maxOpenPositions_bounds := by simp
        minConfidence_bounds := by simp } }

/-- A blob that sets market hours. -/
def nightHours : SafeConfigOverrides :=
  { SafeConfigOverrides.none with marketHours := some "06:00-07:00" }

/-- A cap that loosens keeps the cap before it, removed market hours stay, and no override at
all changes the fee. -/
theorem overrides_left_behind :
    let fresh := LiveConfig.load shippedFile "crypto" true
    let tight := positionCap (1 / 20) (by norm_num)
    let loose := positionCap (1 / 5) (by norm_num)
    (Lib.run applyOverrides [some tight, some loose] fresh).risk.maxPositionPct = 1 / 20 ∧
      (applyOverrides (some loose) fresh).risk.maxPositionPct = 1 / 10 ∧
      (Lib.run applyOverrides [some nightHours, none] fresh).agent.marketHours = some "06:00-07:00" ∧
      (applyOverrides none fresh).agent.marketHours = none ∧
      fresh.executor.map CostParams.feePct = some (1 / 500) ∧
      (applyOverrides none fresh).executor.map CostParams.feePct = some (1 / 1000) := by
  decide +kernel

end SmartyTrader
