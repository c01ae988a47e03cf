import SmartyTrader.Core.JsonModels
import SmartyTrader.Core.OverrideChecks

set_option autoImplicit false

/-! # Overrides as stored text

The control API checks a body, drops what equals the config file and stores the rest as JSON in the
agent's row; the agent reads the text back at its next cycle and applies it. `saved_config_applies`
follows a body all the way: the agent ends up where the overrides that were checked would have taken
it.

How a float is printed is left to `print`, of which the results ask that it spells the float
(`Spells`), and how a number is read from a string to `Coercions`. Other conversions between types
are left out.
-/

namespace SmartyTrader

open Lib

/-! ## Writing -/

section Write

variable (print : ℚ → Text)

def intValue (n : ℤ) : Json.Value := .num (intText n)

def floatValue (x : ℚ) : Json.Value := .num (print x)

def ReasoningMode.text : ReasoningMode → String
  | .default => "default"
  | .off => "off"
  | .low => "low"
  | .medium => "medium"
  | .high => "high"
  | .xhigh => "xhigh"

def RiskOverride.fields (o : RiskOverride) : List (String × Option Json.Value) :=
  [("max_position_pct", o.maxPositionPct.map (floatValue print)),
    ("daily_loss_limit_pct", o.dailyLossLimitPct.map (floatValue print)),
    ("max_drawdown_pct", o.maxDrawdownPct.map (floatValue print)),
    ("consecutive_losses_cooldown_minutes", o.consecutiveLossesCooldownMinutes.map intValue),
    ("max_open_positions", o.maxOpenPositions.map intValue),
    ("min_confidence", o.minConfidence.map (floatValue print))]

def ExecutionOverride.fields (o : ExecutionOverride) : List (String × Option Json.Value) :=
  [("paper_fee_pct", o.paperFeePct.map (floatValue print)),
    ("paper_slippage_pct", o.paperSlippagePct.map (floatValue print))]

def LLMOverride.fields (o : LLMOverride) : List (String × Option Json.Value) :=
  [("max_tokens", o.maxTokens.map intValue), ("timeout_seconds", o.timeoutSeconds.map intValue),
    ("temperature", o.temperature.map (floatValue print)),
    ("reasoning", o.reasoning.map fun mode => strValue mode.text)]

/-- The fields of a nested model, as an object. -/
def nested {σ : Type} (fields : σ → List (String × Option Json.Value)) (o : σ) : Json.Value :=
  .obj (present (fields o))

def SafeConfigOverrides.fields (o : SafeConfigOverrides) : List (String × Option Json.Value) :=
  [("interval_minutes", o.intervalMinutes.map intValue), ("pairs", o.pairs.map strsValue),
    ("symbols", o.symbols.map strsValue), ("market_hours", o.marketHours.map strValue),
    ("decision_history_limit", o.decisionHistoryLimit.map intValue),
    ("risk", o.risk.map (nested (RiskOverride.fields print))),
    ("execution", o.execution.map (nested (ExecutionOverride.fields print))),
    ("llm", o.llm.map (nested (LLMOverride.fields print)))]

/-- `model_dump(exclude_none=True)`. -/
def SafeConfigOverrides.modelDump (o : SafeConfigOverrides) : Members := present (o.fields print)

/-- `model_dump_json(exclude_none=True)`. -/
def SafeConfigOverrides.modelDumpJson (o : SafeConfigOverrides) : Text :=
  Json.dump .compact (.obj (o.modelDump print))

/-- What of checked overrides is handed to the storage: nothing where nothing is left of them. -/
def storeOverrides (file : ConfigFile) (model : SafeConfigOverrides) : Option Text :=
  let model := stripNoopOverrides model file
  if model.modelDump print = [] then none else some (model.modelDumpJson print)

/-- `put_config`. -/
def putConfig (payload : Except String SafeConfigOverrides) (file : ConfigFile) :
    Except Rejection (Option Text) :=
  (validateOverridesPayload payload (some file.risk) file.agent.quoteCurrency).map
    (storeOverrides print file)

end Write

/-! ## Reading -/

/-- Why a stored text is not taken. -/
inductive ParseError where
  /-- `JSONDecodeError`. -/
  | notJson
  /-- `ValidationError`. -/
  | invalid
  deriving DecidableEq

def readReasoning : Json.Value → Option ReasoningMode
  | .str s => [.default, .off, .low, .medium, .high, .xhigh].find? fun mode => codes mode.text = s
  | _ => none

/-- `RiskOverride.model_fields`, and those of the other models. -/
def riskFields : List String :=
  ["max_position_pct", "daily_loss_limit_pct", "max_drawdown_pct",
    "consecutive_losses_cooldown_minutes", "max_open_positions", "min_confidence"]

def executionFields : List String := ["paper_fee_pct", "paper_slippage_pct"]

def llmFields : List String := ["max_tokens", "timeout_seconds", "temperature", "reasoning"]

def overrideFields : List String :=
  ["interval_minutes", "pairs", "symbols", "market_hours", "decision_history_limit", "risk",
    "execution", "llm"]

section Validate

variable (lax : Coercions)

def validateRisk (v : Json.Value) : Option RiskOverride := do
  let data ← asDict v
  guard (onlyKeys riskFields data)
  let position ← readField (fun x => 0 < x ∧ x ≤ 1) (readFloat lax) data "max_position_pct"
  let loss ← readField (fun x => 0 < x ∧ x ≤ 1) (readFloat lax) data "daily_loss_limit_pct"
  let drawdown ← readField (fun x => 0 < x ∧ x ≤ 1) (readFloat lax) data "max_drawdown_pct"
  let cooldown ← readField (fun n => 0 ≤ n) (readInt lax) data "consecutive_losses_cooldown_minutes"
  let positions ← readField (fun n => 1 ≤ n) (readInt lax) data "max_open_positions"
  let confidence ← readField (fun x => 0 ≤ x ∧ x ≤ 1) (readFloat lax) data "min_confidence"
  return {
    maxPositionPct := position.1
    dailyLossLimitPct := loss.1
    maxDrawdownPct := drawdown.1
    consecutiveLossesCooldownMinutes := cooldown.1
    maxOpenPositions := positions.1
    minConfidence := confidence.1
    maxPositionPct_bounds := position.2
    dailyLossLimitPct_bounds := loss.2
    maxDrawdownPct_bounds := drawdown.2
    consecutiveLossesCooldownMinutes_bounds := cooldown.2
    maxOpenPositions_bounds := positions.2
    minConfidence_bounds := confidence.2 }

def validateExecution (v : Json.Value) : Option ExecutionOverride := do
  let data ← asDict v
  guard (onlyKeys executionFields data)
  let fee ← readField (fun x => 0 ≤ x ∧ x < 1) (readFloat lax) data "paper_fee_pct"
  let slippage ← readField (fun x => 0 ≤ x ∧ x < 1) (readFloat lax) data "paper_slippage_pct"
  return {
    paperFeePct := fee.1
    paperSlippagePct := slippage.1
    paperFeePct_bounds := fee.2
    paperSlippagePct_bounds := slippage.2 }

def validateLLM (v : Json.Value) : Option LLMOverride := do
  let data ← asDict v
  guard (onlyKeys llmFields data)
  let tokens ← readField (fun n => 1024 ≤ n ∧ n ≤ 65536) (readInt lax) data "max_tokens"
  let timeout ← readField (fun n => 30 ≤ n ∧ n ≤ 3600) (readInt lax) data "timeout_seconds"
  let temperature ← readField (fun x => 0 ≤ x ∧ x ≤ 1) (readFloat lax) data "temperature"
  let reasoning ← readField (fun _ => True) readReasoning data "reasoning"
  return {
    maxTokens := tokens.1
    timeoutSeconds := timeout.1
    temperature := temperature.1
    reasoning := reasoning.1
    maxTokens_bounds := tokens.2
    timeoutSeconds_bounds := timeout.2
    temperature_bounds := temperature.2 }

/-- `SafeConfigOverrides.model_validate`. -/
def modelValidate (v : Json.Value) : Option SafeConfigOverrides := do
  let data ← asDict v
  guard (onlyKeys overrideFields data)
  let interval ← readField (fun n => 1 ≤ n ∧ n ≤ 1440) (readInt lax) data "interval_minutes"
  let pairs ← readField (fun _ => True) readStrs data "pairs"
  let symbols ← readField (fun _ => True) readStrs data "symbols"
  let hours ← readField (fun _ => True) readStr data "market_hours"
  let limit ← readField (fun n => 0 ≤ n ∧ n ≤ 100) (readInt lax) data "decision_history_limit"
  let risk ← readField (fun _ => True) (validateRisk lax) data "risk"
  let execution ← readField (fun _ => True) (validateExecution lax) data "execution"
  let llm ← readField (fun _ => True) (validateLLM lax) data "llm"
  return {
    intervalMinutes := interval.1
    pairs := pairs.1
    symbols := symbols.1
    marketHours := hours.1
    decisionHistoryLimit := limit.1
    risk := risk.1
    execution := execution.1
    llm := llm.1
    intervalMinutes_bounds := interval.2
    decisionHistoryLimit_bounds := limit.2 }

/-- `parse_overrides`. -/
def parseOverrides : Option Text → Except ParseError (Option SafeConfigOverrides)
  | none => .ok none
  | some raw =>
      if raw.all isSpace then .ok none
      else
        match Json.loads raw with
        | none => .error .notJson
        | some v =>
            match modelValidate lax v with
            | none => .error .invalid
            | some o => .ok (some o)

end Validate

/-! ## What is written is read back -/

def RiskOverride.floats (o : RiskOverride) : List ℚ :=
  o.maxPositionPct.toList ++ o.dailyLossLimitPct.toList ++ o.maxDrawdownPct.toList ++
    o.minConfidence.toList

def ExecutionOverride.floats (o : ExecutionOverride) : List ℚ :=
  o.paperFeePct.toList ++ o.paperSlippagePct.toList

def LLMOverride.floats (o : LLMOverride) : List ℚ := o.temperature.toList

/-- The floats that are printed. -/
def SafeConfigOverrides.floats (o : SafeConfigOverrides) : List ℚ :=
  o.risk.toList.flatMap RiskOverride.floats ++ o.execution.toList.flatMap ExecutionOverride.floats
    ++ o.llm.toList.flatMap LLMOverride.floats

section Read

variable {print : ℚ → Text} (lax : Coercions)

section Fields

variable {fields : List (String × Option Json.Value)} (hnodup : (fields.map Prod.fst).Nodup)
  (name : String)

include hnodup

theorem readFloat_present {p : ℚ → Prop} [DecidablePred p] {x : Option ℚ}
    (hmem : (name, x.map (floatValue print)) ∈ fields) (hp : ∀ v ∈ x, p v)
    (hx : ∀ v ∈ x, Spells (print v) v) :
    readField p (readFloat lax) (present fields) name = some ⟨x, hp⟩ :=
  readField_present (field_present hnodup hmem) hp
    fun v hv => ⟨(hx v hv).value, by simp [floatValue]⟩

theorem readInt_present {p : ℤ → Prop} [DecidablePred p] {x : Option ℤ}
    (hmem : (name, x.map intValue) ∈ fields) (hp : ∀ v ∈ x, p v) :
    readField p (readInt lax) (present fields) name = some ⟨x, hp⟩ :=
  readField_present (field_present hnodup hmem) hp
    fun v _ => ⟨readInt_intText lax v, by simp [intValue]⟩

/-- A field of any other type, which has no bounds. -/
theorem readAny_present {α : Type} (read : Json.Value → Option α) (write : α → Json.Value)
    (x : Option α) (hmem : (name, x.map write) ∈ fields)
    (hread : ∀ v ∈ x, read (write v) = some v ∧ write v ≠ .null) :
    readField (fun _ => True) read (present fields) name = some ⟨x, fun _ _ => trivial⟩ :=
  readField_present (field_present hnodup hmem) (fun _ _ => trivial) hread

end Fields

theorem readReasoning_text (mode : ReasoningMode) :
    readReasoning (strValue mode.text) = some mode ∧ strValue mode.text ≠ .null := by
  refine ⟨?_, by simp [strValue]⟩
  cases mode <;> rfl

theorem guard_eq_some {b : Bool} (h : b = true) : (guard (b = true) : Option Unit) = some () := by
  rw [h]
  rfl

theorem validateRisk_nested {o : RiskOverride} (h : ∀ x ∈ o.floats, Spells (print x) x) :
    validateRisk lax (nested (RiskOverride.fields print) o) = some o := by
  have hnodup : ((o.fields print).map Prod.fst).Nodup := by simp [RiskOverride.fields]
  have hkeys : onlyKeys riskFields (present (o.fields print)) = true := onlyKeys_present
  simp only [RiskOverride.floats, List.mem_append, Option.mem_toList, or_imp, forall_and] at h
  obtain ⟨⟨⟨hposition, hloss⟩, hdrawdown⟩, hconfidence⟩ := h
  have readPosition := readFloat_present lax hnodup "max_position_pct"
    (by simp [RiskOverride.fields]) o.maxPositionPct_bounds hposition
  have readLoss := readFloat_present lax hnodup "daily_loss_limit_pct"
    (by simp [RiskOverride.fields]) o.dailyLossLimitPct_bounds hloss
  have readDrawdown := readFloat_present lax hnodup "max_drawdown_pct"
    (by simp [RiskOverride.fields]) o.maxDrawdownPct_bounds hdrawdown
  have readCooldown := readInt_present lax hnodup "consecutive_losses_cooldown_minutes"
    (by simp [RiskOverride.fields]) o.consecutiveLossesCooldownMinutes_bounds
  have readOpenPositions := readInt_present lax hnodup "max_open_positions"
    (by simp [RiskOverride.fields]) o.maxOpenPositions_bounds
  have readConfidence := readFloat_present lax hnodup "min_confidence"
    (by simp [RiskOverride.fields]) o.minConfidence_bounds hconfidence
  show validateRisk lax (.obj (present (o.fields print))) = some o
  simp only [validateRisk, asDict, Option.bind_eq_bind, Option.bind_some, guard_eq_some hkeys,
    readPosition, readLoss, readDrawdown, readCooldown, readOpenPositions, readConfidence]
  rfl

theorem validateExecution_nested {o : ExecutionOverride}
    (h : ∀ x ∈ o.floats, Spells (print x) x) :
    validateExecution lax (nested (ExecutionOverride.fields print) o) = some o := by
  have hnodup : ((o.fields print).map Prod.fst).Nodup := by simp [ExecutionOverride.fields]
  have hkeys : onlyKeys executionFields (present (o.fields print)) = true := onlyKeys_present
  simp only [ExecutionOverride.floats, List.mem_append, Option.mem_toList, or_imp,
    forall_and] at h
  have readFee := readFloat_present lax hnodup "paper_fee_pct"
    (by simp [ExecutionOverride.fields]) o.paperFeePct_bounds h.1
  have readSlippage := readFloat_present lax hnodup "paper_slippage_pct"
    (by simp [ExecutionOverride.fields]) o.paperSlippagePct_bounds h.2
  show validateExecution lax (.obj (present (o.fields print))) = some o
  simp only [validateExecution, asDict, Option.bind_eq_bind, Option.bind_some,
    guard_eq_some hkeys, readFee, readSlippage]
  rfl

theorem validateLLM_nested {o : LLMOverride} (h : ∀ x ∈ o.floats, Spells (print x) x) :
    validateLLM lax (nested (LLMOverride.fields print) o) = some o := by
  have hnodup : ((o.fields print).map Prod.fst).Nodup := by simp [LLMOverride.fields]
  have hkeys : onlyKeys llmFields (present (o.fields print)) = true := onlyKeys_present
  have readTokens := readInt_present lax hnodup "max_tokens"
    (by simp [LLMOverride.fields]) o.maxTokens_bounds
  have readTimeout := readInt_present lax hnodup "timeout_seconds"
    (by simp [LLMOverride.fields]) o.timeoutSeconds_bounds
  have readTemperature := readFloat_present lax hnodup "temperature"
    (by simp [LLMOverride.fields]) o.temperature_bounds
    fun v hv => h v (by simpa [LLMOverride.floats] using hv)
  have readMode := readAny_present hnodup "reasoning" readReasoning
    (fun mode => strValue mode.text) o.reasoning (by simp [LLMOverride.fields])
    fun mode _ => readReasoning_text mode
  show validateLLM lax (.obj (present (o.fields print))) = some o
  simp only [validateLLM, asDict, Option.bind_eq_bind, Option.bind_some, guard_eq_some hkeys,
    readTokens, readTimeout, readTemperature, readMode]
  rfl

/-- **The model comes back.** -/
theorem modelValidate_modelDump {o : SafeConfigOverrides} (h : ∀ x ∈ o.floats, Spells (print x) x) :
    modelValidate lax (.obj (o.modelDump print)) = some o := by
  have hnodup : ((o.fields print).map Prod.fst).Nodup := by simp [SafeConfigOverrides.fields]
  have hkeys : onlyKeys overrideFields (present (o.fields print)) = true := onlyKeys_present
  simp only [SafeConfigOverrides.floats, List.mem_append, List.mem_flatMap, Option.mem_toList,
    or_imp, forall_and, forall_exists_index, and_imp] at h
  obtain ⟨⟨hrisk, hexecution⟩, hllm⟩ := h
  have readInterval := readInt_present lax hnodup "interval_minutes"
    (by simp [SafeConfigOverrides.fields]) o.intervalMinutes_bounds
  have readPairs := readAny_present hnodup "pairs" readStrs strsValue o.pairs
    (by simp [SafeConfigOverrides.fields])
    fun pairs _ => ⟨readStrs_strsValue pairs, by simp [strsValue]⟩
  have readSymbols := readAny_present hnodup "symbols" readStrs strsValue o.symbols
    (by simp [SafeConfigOverrides.fields])
    fun symbols _ => ⟨readStrs_strsValue symbols, by simp [strsValue]⟩
  have readHours := readAny_present hnodup "market_hours" readStr strValue o.marketHours
    (by simp [SafeConfigOverrides.fields])
    fun hours _ => ⟨readStr_strValue hours, by simp [strValue]⟩
  have readLimit := readInt_present lax hnodup "decision_history_limit"
    (by simp [SafeConfigOverrides.fields]) o.decisionHistoryLimit_bounds
  -- the sections are read by their own models
  have readRisk := readAny_present hnodup "risk" (validateRisk lax)
    (nested (RiskOverride.fields print)) o.risk (by simp [SafeConfigOverrides.fields])
    fun r hr => ⟨validateRisk_nested lax fun x hx => hrisk x r hr hx, by simp [nested]⟩
  have readExecution := readAny_present hnodup "execution" (validateExecution lax)
    (nested (ExecutionOverride.fields print)) o.execution (by simp [SafeConfigOverrides.fields])
    fun e he => ⟨validateExecution_nested lax fun x hx => hexecution x e he hx, by simp [nested]⟩
  have readLlm := readAny_present hnodup "llm" (validateLLM lax)
    (nested (LLMOverride.fields print)) o.llm (by simp [SafeConfigOverrides.fields])
    fun l hl => ⟨validateLLM_nested lax fun x hx => hllm x l hl hx, by simp [nested]⟩
  show modelValidate lax (.obj (present (o.fields print))) = some o
  simp only [modelValidate, asDict, Option.bind_eq_bind, Option.bind_some, guard_eq_some hkeys,
    readInterval, readPairs, readSymbols, readHours, readLimit, readRisk, readExecution, readLlm]
  rfl

/-! ## The text is read back -/

theorem writable_floats {x : Option ℚ} (h : ∀ v ∈ x, Spells (print v) v) :
    ∀ v ∈ x.map (floatValue print), Json.Writable v := by
  intro v hv
  obtain ⟨a, ha, rfl⟩ := Option.map_eq_some_iff.mp hv
  exact (h a ha).number

theorem writable_ints (x : Option ℤ) : ∀ v ∈ x.map intValue, Json.Writable v := by
  intro v hv
  obtain ⟨n, -, rfl⟩ := Option.map_eq_some_iff.mp hv
  exact isNumber_intText n

theorem writable_of_map {α : Type} {write : α → Json.Value} {x : Option α}
    (h : ∀ a ∈ x, Json.Writable (write a)) : ∀ v ∈ x.map write, Json.Writable v := by
  intro v hv
  obtain ⟨a, ha, rfl⟩ := Option.map_eq_some_iff.mp hv
  exact h a ha

theorem writable_risk {o : RiskOverride} (h : ∀ x ∈ o.floats, Spells (print x) x) :
    Json.Writable (nested (RiskOverride.fields print) o) := by
  simp only [RiskOverride.floats, List.mem_append, Option.mem_toList, or_imp, forall_and] at h
  obtain ⟨⟨⟨hposition, hloss⟩, hdrawdown⟩, hconfidence⟩ := h
  apply writable_present
  simp only [RiskOverride.fields, List.forall_mem_cons]
  exact ⟨writable_floats hposition, writable_floats hloss, writable_floats hdrawdown,
    writable_ints _, writable_ints _, writable_floats hconfidence, by simp⟩

theorem writable_execution {o : ExecutionOverride} (h : ∀ x ∈ o.floats, Spells (print x) x) :
    Json.Writable (nested (ExecutionOverride.fields print) o) := by
  simp only [ExecutionOverride.floats, List.mem_append, Option.mem_toList, or_imp,
    forall_and] at h
  apply writable_present
  simp only [ExecutionOverride.fields, List.forall_mem_cons]
  exact ⟨writable_floats h.1, writable_floats h.2, by simp⟩

theorem writable_llm {o : LLMOverride} (h : ∀ x ∈ o.floats, Spells (print x) x) :
    Json.Writable (nested (LLMOverride.fields print) o) := by
  simp only [LLMOverride.floats, Option.mem_toList] at h
  apply writable_present
  simp only [LLMOverride.fields, List.forall_mem_cons]
  exact ⟨writable_ints _, writable_ints _, writable_floats h,
    writable_of_map fun mode _ => scalars_codes mode.text, by simp⟩

theorem writable_overrides {o : SafeConfigOverrides} (h : ∀ x ∈ o.floats, Spells (print x) x) :
    Json.Writable (.obj (o.modelDump print)) := by
  simp only [SafeConfigOverrides.floats, List.mem_append, List.mem_flatMap, Option.mem_toList,
    or_imp, forall_and, forall_exists_index, and_imp] at h
  obtain ⟨⟨hrisk, hexecution⟩, hllm⟩ := h
  apply writable_present
  simp only [SafeConfigOverrides.fields, List.forall_mem_cons]
  exact ⟨writable_ints _, writable_of_map fun ss _ => writable_strsValue ss,
    writable_of_map fun ss _ => writable_strsValue ss,
    writable_of_map fun hours _ => scalars_codes hours, writable_ints _,
    writable_of_map fun r hr => writable_risk fun x hx => hrisk x r hr hx,
    writable_of_map fun e he => writable_execution fun x hx => hexecution x e he hx,
    writable_of_map fun l hl => writable_llm fun x hx => hllm x l hl hx, by simp⟩

/-- The stored text gives the overrides back. -/
theorem parseOverrides_modelDumpJson {o : SafeConfigOverrides}
    (h : ∀ x ∈ o.floats, Spells (print x) x) :
    parseOverrides lax (some (o.modelDumpJson print)) = .ok (some o) := by
  have hblank : (o.modelDumpJson print).all isSpace = false := rfl
  have hload : Json.loads (o.modelDumpJson print) = some (.obj (o.modelDump print)) :=
    Json.loads_dump .compact (writable_overrides h)
  rw [parseOverrides, hblank, hload]
  simp [modelValidate_modelDump lax h]

/-! ## From the body to the live objects -/

/-- The floats of a stripped section are floats of the section. -/
theorem mem_floats_section {σ : Type} {Empty : σ → Prop} [DecidablePred Empty] {strip : σ → σ}
    {floats : σ → List ℚ} (hstrip : ∀ s, ∀ x ∈ floats (strip s), x ∈ floats s) {o : Option σ}
    {x : ℚ} (hx : x ∈ (o.bind fun s => orNone Empty (strip s)).toList.flatMap floats) :
    x ∈ o.toList.flatMap floats := by
  cases o with
  | none => exact hx
  | some s =>
      simp only [Option.bind_some, orNone] at hx
      split_ifs at hx
      · simp at hx
      · have hstripped := hstrip s x (by simpa using hx)
        simpa using hstripped

theorem RiskOverride.floats_strip (o : RiskOverride) (base : RiskSettings) :
    ∀ x ∈ (o.strip base).floats, x ∈ o.floats := by
  intro x hx
  simp only [RiskOverride.floats, RiskOverride.strip, List.mem_append, Option.mem_toList] at hx ⊢
  rcases hx with ((hx | hx) | hx) | hx
  · exact .inl (.inl (.inl (mem_of_mem_dropSame hx)))
  · exact .inl (.inl (.inr (mem_of_mem_dropSame hx)))
  · exact .inl (.inr (mem_of_mem_dropSame hx))
  · exact .inr (mem_of_mem_dropSame hx)

theorem ExecutionOverride.floats_strip (o : ExecutionOverride) (base : CostParams) :
    ∀ x ∈ (o.strip base).floats, x ∈ o.floats := by
  intro x hx
  simp only [ExecutionOverride.floats, ExecutionOverride.strip, List.mem_append,
    Option.mem_toList] at hx ⊢
  exact hx.imp mem_of_mem_dropSame mem_of_mem_dropSame

theorem LLMOverride.floats_strip (o : LLMOverride) (base : LLMSettings) :
    ∀ x ∈ (o.strip base).floats, x ∈ o.floats := by
  intro x hx
  simp only [LLMOverride.floats, LLMOverride.strip, Option.mem_toList] at hx ⊢
  exact mem_of_mem_dropSame hx

theorem floats_stripNoopOverrides {o : SafeConfigOverrides} {file : ConfigFile} {x : ℚ}
    (hx : x ∈ (stripNoopOverrides o file).floats) : x ∈ o.floats := by
  simp only [SafeConfigOverrides.floats, List.mem_append] at hx ⊢
  rcases hx with (hx | hx) | hx
  · exact .inl (.inl (mem_floats_section (fun r => r.floats_strip file.risk) hx))
  · exact .inl (.inr (mem_floats_section (fun e => e.floats_strip file.execution.flat) hx))
  · exact .inr (mem_floats_section (fun l => l.floats_strip file.llm) hx)

/-- Nothing is written of the overrides that override nothing. -/
theorem eq_none_of_modelDump_nil {o : SafeConfigOverrides} (h : o.modelDump print = []) :
    o = SafeConfigOverrides.none := by
  have hnone : ∀ f ∈ o.fields print, f.2 = none := by
    rintro ⟨name, v⟩ hf
    cases v with
    | none => rfl
    | some v =>
        have hmem : (codes name, v) ∈ o.modelDump print := mem_present_iff.mpr hf
        rw [h] at hmem
        cases hmem
  simp only [SafeConfigOverrides.fields, List.forall_mem_cons, Option.map_eq_none_iff] at hnone
  obtain ⟨h1, h2, h3, h4, h5, h6, h7, h8, -⟩ := hnone
  cases o
  simp only at h1 h2 h3 h4 h5 h6 h7 h8
  subst h1 h2 h3 h4 h5 h6 h7 h8
  rfl

/-- What is stored gives the overrides back, without what equals the file. -/
theorem parseOverrides_storeOverrides {model : SafeConfigOverrides} (file : ConfigFile)
    (h : ∀ x ∈ model.floats, Spells (print x) x) :
    ∃ blob, parseOverrides lax (storeOverrides print file model) = .ok blob ∧
      overridesOf blob = stripNoopOverrides model file := by
  have hstripped : ∀ x ∈ (stripNoopOverrides model file).floats, Spells (print x) x :=
    fun x hx => h x (floats_stripNoopOverrides hx)
  unfold storeOverrides
  dsimp only
  split
  next hnil => exact ⟨none, rfl, (eq_none_of_modelDump_nil hnil).symm⟩
  · exact ⟨_, parseOverrides_modelDumpJson lax hstripped, rfl⟩

end Read

/-- **What is saved is what applies.** A body that the control API accepts is stored as a text that
the agent reads back, and applying that has on every state of the live objects the effect of the
overrides that were checked: the changes reported are the same and so is the state afterwards. -/
theorem saved_config_applies (print : ℚ → Text) (lax : Coercions)
    (payload : Except String SafeConfigOverrides) (model : SafeConfigOverrides) (c : LiveConfig)
    (hvalid : validateOverridesPayload payload (some c.file.risk) c.file.agent.quoteCurrency
      = .ok model)
    (hprint : ∀ x ∈ model.floats, Spells (print x) x) :
    ∃ stored blob, putConfig print payload c.file = .ok stored ∧
      parseOverrides lax stored = .ok blob ∧
      parseAndApply (.ok blob) c = parseAndApply (.ok (some model)) c := by
  obtain ⟨blob, hblob, hoverrides⟩ := parseOverrides_storeOverrides lax c.file hprint
  refine ⟨_, blob, ?_, hblob, ?_⟩
  · rw [putConfig, hvalid]
    rfl
  · -- what equals the file is applied from the file either way
    have happly : applyOverrides blob c = applyOverrides (some model) c := by
      rw [← applyOverrides_strip, ← hoverrides]
      rfl
    unfold parseAndApply
    dsimp only
    rw [happly]

/-- Numbers in a string are written as in JSON. -/
def plainCoercions : Coercions := ⟨intOf, decimalOf⟩

/-- A cap of a twentieth, half of the file's, which is printed as `0.05`. -/
theorem saved_config_applies_cap :
    ∃ stored blob,
      putConfig (fun _ => "0.05".toList) (.ok (positionCap (1 / 20) (by norm_num))) shippedFile
          = .ok stored ∧
        parseOverrides plainCoercions stored = .ok blob ∧
        parseAndApply (.ok blob) (.load shippedFile "crypto" true)
          = parseAndApply (.ok (some (positionCap (1 / 20) (by norm_num))))
            (.load shippedFile "crypto" true) := by
  refine saved_config_applies _ plainCoercions _ _ (.load shippedFile "crypto" true) ?_ ?_
  · have hproblems : loosenedRiskFields (positionCap (1 / 20) (by norm_num)).risk
        (some shippedFile.risk) = [] := by decide +kernel
    show validateOverridesPayload _ (some shippedFile.risk) _ = _
    rw [validateOverridesPayload, hproblems]
    rfl
  · intro x hx
    have hfloats : (positionCap (1 / 20) (by norm_num)).floats = [1 / 20] := rfl
    rw [hfloats, List.mem_singleton] at hx
    rw [hx]
    exact ⟨rfl, by decide +kernel⟩

end SmartyTrader
