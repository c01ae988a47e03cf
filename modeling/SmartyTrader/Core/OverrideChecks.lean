import SmartyTrader.Core.ControlConfig

set_option autoImplicit false

/-! # Checking and storing overrides

Before a blob is stored it is validated, and the fields that equal the config file are dropped from
it. Dropping them is meant to leave the effect of the blob as it is: `apply_strip` compares the two
on every state of the live objects.
-/

namespace SmartyTrader

/-! ## Validation -/

/-- A field of the risk overrides that loosens the limit of the file. -/
def loosened {α : Type} [LinearOrder α] (name : String) (d : Direction) (override : Option α)
    (base : α) : List String :=
  match override with
  | none => []
  | some v => if d.Stricter v base then [] else [name]

/-- `loosened_risk_fields`, the names. -/
def loosenedRiskFields (o : Option RiskOverride) (baseline : Option RiskSettings) : List String :=
  match o, baseline with
  | some o, some base =>
      loosened "max_position_pct" .le o.maxPositionPct base.maxPositionPct
        ++ loosened "daily_loss_limit_pct" .le o.dailyLossLimitPct base.dailyLossLimitPct
        ++ loosened "max_drawdown_pct" .le o.maxDrawdownPct base.maxDrawdownPct
        ++ loosened "max_open_positions" .le o.maxOpenPositions base.maxOpenPositions
        ++ loosened "min_confidence" .ge o.minConfidence base.minConfidence
        ++ loosened "consecutive_losses_cooldown_minutes" .ge
          o.consecutiveLossesCooldownMinutes base.consecutiveLossesCooldownMinutes
  | _, _ => []

/-- Why a body is rejected. -/
inductive Rejection where
  | invalid (key : String)
  | loosens (fields : List String)
  | unquoted (pairs : List Symbol)
  deriving DecidableEq

/-- `validate_overrides_payload`, of a body that is one of the model or has an invalid key. -/
def validateOverridesPayload (payload : Except String SafeConfigOverrides)
    (baseline : Option RiskSettings) (quoteCurrency : Option String) :
    Except Rejection SafeConfigOverrides :=
  match payload with
  | .error key => .error (.invalid key)
  | .ok model =>
      let problems := loosenedRiskFields model.risk baseline
      if problems ≠ [] then .error (.loosens problems)
      else
        let unquoted := pairsNotQuotedIn (model.pairs.getD []) quoteCurrency
        if unquoted ≠ [] then .error (.unquoted unquoted)
        else .ok model

/-! ## Dropping what equals the file -/

section DropSame

variable {α : Type} [DecidableEq α]

/-- A value that is not that of the file. -/
def dropSame (value base : Option α) : Option α := if value = base then none else value

theorem mem_of_mem_dropSame {value base : Option α} {v : α} (h : v ∈ dropSame value base) :
    v ∈ value := by
  unfold dropSame at h
  split_ifs at h
  · cases h
  · exact h

theorem dropSame_none (base : Option α) : dropSame none base = none := by
  unfold dropSame
  split_ifs <;> rfl

theorem dropSame_dropSame (value base : Option α) :
    dropSame (dropSame value base) base = dropSame value base := by
  by_cases h : value = base
  · have hdrop : dropSame value base = none := if_pos h
    rw [hdrop, dropSame_none]
  · have hkeep : dropSame value base = value := if_neg h
    rw [hkeep, hkeep]

theorem dropSame_or (value base : Option α) : (dropSame value base).or base = value.or base := by
  unfold dropSame
  split_ifs with h
  · subst h
    cases value <;> rfl
  · rfl

theorem dropSame_getD (value : Option α) (base : α) :
    (dropSame value (some base)).getD base = value.getD base := by
  unfold dropSame
  split_ifs with h
  · rw [h]
    rfl
  · rfl

end DropSame

theorem dropSame_tighten {α : Type} [LinearOrder α] (d : Direction) (value : Option α)
    (base live : α) :
    tighten d (dropSame value (some base)) base live = tighten d value base live := by
  unfold dropSame
  split_ifs with h
  · -- The value of the file is no looser than itself.
    rw [h]
    have hself : d.Stricter base base := by cases d <;> exact le_refl base
    exact (if_pos hself).symm
  · rfl

section Nonempty

variable {σ : Type}

/-- `kept or None`. -/
def orNone (Empty : σ → Prop) [DecidablePred Empty] (kept : σ) : Option σ :=
  if Empty kept then none else some kept

theorem orNone_bind {α : Type} {Empty : σ → Prop} [DecidablePred Empty] {kept : σ}
    {field : σ → Option α} (h : Empty kept → field kept = none) :
    (orNone Empty kept).bind field = field kept := by
  unfold orNone
  split_ifs with hempty
  · exact (h hempty).symm
  · rfl

end Nonempty

/-- The limits without those of the file. -/
def RiskOverride.strip (o : RiskOverride) (base : RiskSettings) : RiskOverride where
  maxPositionPct := dropSame o.maxPositionPct (some base.maxPositionPct)
  dailyLossLimitPct := dropSame o.dailyLossLimitPct (some base.dailyLossLimitPct)
  maxDrawdownPct := dropSame o.maxDrawdownPct (some base.maxDrawdownPct)
  consecutiveLossesCooldownMinutes := dropSame o.consecutiveLossesCooldownMinutes
    (some base.consecutiveLossesCooldownMinutes)
  maxOpenPositions := dropSame o.maxOpenPositions (some base.maxOpenPositions)
  minConfidence := dropSame o.minConfidence (some base.minConfidence)
  maxPositionPct_bounds _ h := o.maxPositionPct_bounds _ (mem_of_mem_dropSame h)
  dailyLossLimitPct_bounds _ h := o.dailyLossLimitPct_bounds _ (mem_of_mem_dropSame h)
  maxDrawdownPct_bounds _ h := o.maxDrawdownPct_bounds _ (mem_of_mem_dropSame h)
  consecutiveLossesCooldownMinutes_bounds _ h :=
    o.consecutiveLossesCooldownMinutes_bounds _ (mem_of_mem_dropSame h)
  maxOpenPositions_bounds _ h := o.maxOpenPositions_bounds _ (mem_of_mem_dropSame h)
  minConfidence_bounds _ h := o.minConfidence_bounds _ (mem_of_mem_dropSame h)

def RiskOverride.Empty (o : RiskOverride) : Prop :=
  o.maxPositionPct = none ∧ o.dailyLossLimitPct = none ∧ o.maxDrawdownPct = none ∧
    o.consecutiveLossesCooldownMinutes = none ∧ o.maxOpenPositions = none ∧ o.minConfidence = none

instance : DecidablePred RiskOverride.Empty := fun _ => inferInstanceAs (Decidable (_ ∧ _))

def ExecutionOverride.strip (o : ExecutionOverride) (base : CostParams) : ExecutionOverride where
  paperFeePct := dropSame o.paperFeePct (some base.feePct)
  paperSlippagePct := dropSame o.paperSlippagePct (some base.slippagePct)
  paperFeePct_bounds _ h := o.paperFeePct_bounds _ (mem_of_mem_dropSame h)
  paperSlippagePct_bounds _ h := o.paperSlippagePct_bounds _ (mem_of_mem_dropSame h)

def ExecutionOverride.Empty (o : ExecutionOverride) : Prop :=
  o.paperFeePct = none ∧ o.paperSlippagePct = none

instance : DecidablePred ExecutionOverride.Empty := fun _ => inferInstanceAs (Decidable (_ ∧ _))

def LLMOverride.strip (o : LLMOverride) (base : LLMSettings) : LLMOverride where
  maxTokens := dropSame o.maxTokens (some base.maxTokens)
  timeoutSeconds := dropSame o.timeoutSeconds (some base.timeoutSeconds)
  temperature := dropSame o.temperature (some base.temperature)
  reasoning := dropSame o.reasoning (some base.reasoning)
  maxTokens_bounds _ h := o.maxTokens_bounds _ (mem_of_mem_dropSame h)
  timeoutSeconds_bounds _ h := o.timeoutSeconds_bounds _ (mem_of_mem_dropSame h)
  temperature_bounds _ h := o.temperature_bounds _ (mem_of_mem_dropSame h)

def LLMOverride.Empty (o : LLMOverride) : Prop :=
  o.maxTokens = none ∧ o.timeoutSeconds = none ∧ o.temperature = none ∧ o.reasoning = none

instance : DecidablePred LLMOverride.Empty := fun _ => inferInstanceAs (Decidable (_ ∧ _))

def stripRisk (o : Option RiskOverride) (base : RiskSettings) : Option RiskOverride :=
  o.bind fun o => orNone RiskOverride.Empty (o.strip base)

def stripExecution (o : Option ExecutionOverride) (base : CostParams) :
    Option ExecutionOverride :=
  o.bind fun o => orNone ExecutionOverride.Empty (o.strip base)

def stripLLM (o : Option LLMOverride) (base : LLMSettings) : Option LLMOverride :=
  o.bind fun o => orNone LLMOverride.Empty (o.strip base)

/-- `strip_noop_overrides`. -/
def stripNoopOverrides (o : SafeConfigOverrides) (file : ConfigFile) : SafeConfigOverrides where
  intervalMinutes := dropSame o.intervalMinutes (some file.agent.intervalMinutes)
  pairs := dropSame o.pairs (some file.agent.pairs)
  symbols := dropSame o.symbols (some file.agent.symbols)
  marketHours := dropSame o.marketHours file.agent.marketHours
  decisionHistoryLimit := dropSame o.decisionHistoryLimit (some file.agent.decisionHistoryLimit)
  risk := stripRisk o.risk file.risk
  execution := stripExecution o.execution file.execution.flat
  llm := stripLLM o.llm file.llm
  intervalMinutes_bounds _ h := o.intervalMinutes_bounds _ (mem_of_mem_dropSame h)
  decisionHistoryLimit_bounds _ h := o.decisionHistoryLimit_bounds _ (mem_of_mem_dropSame h)

/-! ## The fields of a stripped section -/

section Section

variable {σ α : Type} [DecidableEq α] {Empty : σ → Prop} [DecidablePred Empty] {strip : σ → σ}
  (field : σ → Option α) (base : Option α)

/-- Stripping a section strips each of its fields. -/
theorem bind_strip (o : Option σ) (hfield : ∀ o, field (strip o) = dropSame (field o) base)
    (hempty : ∀ o, Empty o → field o = none) :
    (o.bind fun o => orNone Empty (strip o)).bind field = dropSame (o.bind field) base := by
  cases o with
  | none => exact (dropSame_none base).symm
  | some o =>
      show (orNone Empty (strip o)).bind field = dropSame (field o) base
      rw [orNone_bind (hempty (strip o)), hfield]

/-- A stripped section is stripped once and for all. -/
theorem strip_strip (o : Option σ) (h : ∀ o, strip (strip o) = strip o) :
    ((o.bind fun o => orNone Empty (strip o)).bind fun o => orNone Empty (strip o))
      = o.bind fun o => orNone Empty (strip o) := by
  cases o with
  | none => rfl
  | some o =>
      show (orNone Empty (strip o)).bind (fun o => orNone Empty (strip o))
        = orNone Empty (strip o)
      by_cases hempty : Empty (strip o)
      · have hnone : orNone Empty (strip o) = none := if_pos hempty
        rw [hnone]
        rfl
      · have hsome : orNone Empty (strip o) = some (strip o) := if_neg hempty
        rw [hsome]
        show orNone Empty (strip (strip o)) = some (strip o)
        rw [h, hsome]

end Section

theorem applyRisk_strip (o : Option RiskOverride) (base live : RiskSettings) :
    applyRisk (stripRisk o base) base live = applyRisk o base live := by
  have hposition : (stripRisk o base).bind RiskOverride.maxPositionPct = _ :=
    bind_strip _ (some base.maxPositionPct) o (fun _ => rfl) (fun _ h => h.1)
  have hloss : (stripRisk o base).bind RiskOverride.dailyLossLimitPct = _ :=
    bind_strip _ (some base.dailyLossLimitPct) o (fun _ => rfl) (fun _ h => h.2.1)
  have hdrawdown : (stripRisk o base).bind RiskOverride.maxDrawdownPct = _ :=
    bind_strip _ (some base.maxDrawdownPct) o (fun _ => rfl) (fun _ h => h.2.2.1)
  have hcooldown : (stripRisk o base).bind RiskOverride.consecutiveLossesCooldownMinutes = _ :=
    bind_strip _ (some base.consecutiveLossesCooldownMinutes) o (fun _ => rfl)
      (fun _ h => h.2.2.2.1)
  have hopen : (stripRisk o base).bind RiskOverride.maxOpenPositions = _ :=
    bind_strip _ (some base.maxOpenPositions) o (fun _ => rfl) (fun _ h => h.2.2.2.2.1)
  have hconfidence : (stripRisk o base).bind RiskOverride.minConfidence = _ :=
    bind_strip _ (some base.minConfidence) o (fun _ => rfl) (fun _ h => h.2.2.2.2.2)
  unfold applyRisk
  rw [hposition, hloss, hdrawdown, hcooldown, hopen, hconfidence]
  simp only [dropSame_tighten]

theorem applyExecution_strip (o : Option ExecutionOverride) (base : ExecutionSettings)
    (costs : CostParams) :
    applyExecution (stripExecution o base.flat) base costs = applyExecution o base costs := by
  have hfee : (stripExecution o base.flat).bind ExecutionOverride.paperFeePct = _ :=
    bind_strip _ (some base.flat.feePct) o (fun _ => rfl) (fun _ h => h.1)
  have hslippage : (stripExecution o base.flat).bind ExecutionOverride.paperSlippagePct = _ :=
    bind_strip _ (some base.flat.slippagePct) o (fun _ => rfl) (fun _ h => h.2)
  unfold applyExecution
  rw [hfee, hslippage, dropSame_getD, dropSame_getD]

theorem applyLLM_strip (o : Option LLMOverride) (base : LLMSettings) :
    applyLLM (stripLLM o base) base = applyLLM o base := by
  have htokens : (stripLLM o base).bind LLMOverride.maxTokens = _ :=
    bind_strip _ (some base.maxTokens) o (fun _ => rfl) (fun _ h => h.1)
  have htimeout : (stripLLM o base).bind LLMOverride.timeoutSeconds = _ :=
    bind_strip _ (some base.timeoutSeconds) o (fun _ => rfl) (fun _ h => h.2.1)
  have htemperature : (stripLLM o base).bind LLMOverride.temperature = _ :=
    bind_strip _ (some base.temperature) o (fun _ => rfl) (fun _ h => h.2.2.1)
  have hreasoning : (stripLLM o base).bind LLMOverride.reasoning = _ :=
    bind_strip _ (some base.reasoning) o (fun _ => rfl) (fun _ h => h.2.2.2)
  unfold applyLLM
  rw [htokens, htimeout, htemperature, hreasoning]
  simp only [dropSame_getD]

/-- Pairs of the file are written whether they are overridden with themselves or not. -/
theorem applyAgent_strip (o : SafeConfigOverrides) (file : ConfigFile) (live : AgentConfig) :
    applyAgent (stripNoopOverrides o file) file.agent live = applyAgent o file.agent live := by
  have hpairs : (if (dropSame o.pairs (some file.agent.pairs)).isSome ∧
        pairsNotQuotedIn ((dropSame o.pairs (some file.agent.pairs)).getD file.agent.pairs)
          live.quoteCurrency ≠ []
      then file.agent.pairs
      else (dropSame o.pairs (some file.agent.pairs)).getD file.agent.pairs)
      = if o.pairs.isSome ∧
          pairsNotQuotedIn (o.pairs.getD file.agent.pairs) live.quoteCurrency ≠ []
        then file.agent.pairs
        else o.pairs.getD file.agent.pairs := by
    rw [dropSame_getD]
    unfold dropSame
    split_ifs with hsame <;> simp_all
  unfold applyAgent stripNoopOverrides
  dsimp only
  rw [hpairs]
  simp only [dropSame_getD, dropSame_or]

/-! ## The effect of a stripped blob -/

/-- The symbols an agent trades after the blob is applied: those of the live settings, unless they
are empty. -/
def agentSymbols (agentKey : String) (live : AgentConfig) (symbols : List Symbol) : List Symbol :=
  let effective := if agentKey = "crypto" then live.pairs else live.symbols
  if effective = [] then symbols else effective

theorem applyOverrides_strip (o : SafeConfigOverrides) (c : LiveConfig) :
    applyOverrides (some (stripNoopOverrides o c.file)) c = applyOverrides (some o) c := by
  unfold applyOverrides
  simp only [Option.getD_some, applyAgent_strip]
  have hrisk : applyRisk (stripNoopOverrides o c.file).risk c.file.risk c.risk
      = applyRisk o.risk c.file.risk c.risk := applyRisk_strip o.risk c.file.risk c.risk
  have hexecution : applyExecution (stripNoopOverrides o c.file).execution c.file.execution
      = applyExecution o.execution c.file.execution :=
    funext fun costs => applyExecution_strip o.execution c.file.execution costs
  have hllm : applyLLM (stripNoopOverrides o c.file).llm c.file.llm
      = applyLLM o.llm c.file.llm := applyLLM_strip o.llm c.file.llm
  have hhistory : (stripNoopOverrides o c.file).decisionHistoryLimit.getD
      c.file.agent.decisionHistoryLimit
      = o.decisionHistoryLimit.getD c.file.agent.decisionHistoryLimit := dropSame_getD _ _
  rw [hrisk, hexecution, hllm, hhistory]

theorem stripNoopOverrides_idem (o : SafeConfigOverrides) (file : ConfigFile) :
    stripNoopOverrides (stripNoopOverrides o file) file = stripNoopOverrides o file := by
  have hrisk : stripRisk (stripRisk o.risk file.risk) file.risk = stripRisk o.risk file.risk :=
    strip_strip o.risk fun o => by simp only [RiskOverride.strip, dropSame_dropSame]
  have hexecution : stripExecution (stripExecution o.execution file.execution.flat)
      file.execution.flat = stripExecution o.execution file.execution.flat :=
    strip_strip o.execution fun o => by simp only [ExecutionOverride.strip, dropSame_dropSame]
  have hllm : stripLLM (stripLLM o.llm file.llm) file.llm = stripLLM o.llm file.llm :=
    strip_strip o.llm fun o => by simp only [LLMOverride.strip, dropSame_dropSame]
  unfold stripNoopOverrides
  simp only [dropSame_dropSame, hrisk, hexecution, hllm]

/-- **Stripping preserves meaning.** On every state of the live objects a stripped blob has the
effect of the blob, reports the same changes and leaves the agent the same symbols; and stripping
twice is stripping once. -/
theorem strip_preserves (o : SafeConfigOverrides) (c : LiveConfig) (agentKey : String)
    (symbols : List Symbol) :
    parseAndApply (.ok (some (stripNoopOverrides o c.file))) c = parseAndApply (.ok (some o)) c ∧
      agentSymbols agentKey
          (applyOverrides (some (stripNoopOverrides o c.file)) c).agent symbols
        = agentSymbols agentKey (applyOverrides (some o) c).agent symbols ∧
      stripNoopOverrides (stripNoopOverrides o c.file) c.file = stripNoopOverrides o c.file := by
  refine ⟨?_, ?_, stripNoopOverrides_idem o c.file⟩
  · unfold parseAndApply
    dsimp only
    rw [applyOverrides_strip]
  · rw [applyOverrides_strip]

end SmartyTrader
