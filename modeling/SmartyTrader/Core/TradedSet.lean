import SmartyTrader.Core.TightenOnly
import SmartyTrader.Core.Watchlist
import SmartyTrader.Execution.PositionTracker
import SmartyTrader.Lib.Runs

set_option autoImplicit false

/-! # The traded list of a runner

The list of symbols an agent trades is written at the start, by the overrides of the control row
and by the watchlist. Positions open and close in between, in any order with these writes. A
symbol that is open but not on the list is neither marked nor protected by its exit levels. An
override sets the configured list first and merges the extras of the last refresh back in at the
end; between the two it caps the sleeves, which can raise.
-/

namespace SmartyTrader

open Lib WatchlistManager

/-! ## The runner -/

/-- `config_override_json` of the control row, with what its text parses to. -/
structure ControlBlob where
  raw : Option String
  parsed : Except PyError (Option SafeConfigOverrides)
  parsed_of_none : raw = none ∨ raw = some "" → parsed = .ok none

/-- `config_override_json or None`. -/
def ControlBlob.text (blob : ControlBlob) : Option String := blob.raw.filter (· ≠ "")

/-- What a runner and its agent know about the symbols. -/
structure Runner where
  component : String
  config : LiveConfig
  sleeves : List SleeveEngine
  /-- The settings of the watchlist, where it is on. -/
  watchlist : Option WatchlistSettings
  /-- `agent.symbols`. -/
  symbols : List Symbol
  /-- `watchlist_extras`. -/
  extras : List Symbol
  /-- `_applied_overrides_raw`. -/
  applied : Option String
  /-- The executor's ledger. -/
  ledger : PositionTracker
  entries : WatchlistTable
  /-- The core symbols of a refresh that is under way. -/
  refreshing : Option (List Symbol)
  /-- The list that the cycle under way goes through. -/
  trading : List Symbol

/-- `_core_symbols`. -/
def AgentConfig.coreSymbols (s : AgentConfig) : List Symbol :=
  if s.pairs ≠ [] then s.pairs else s.symbols

/-- The list of the agent's own market. -/
def AgentConfig.marketSymbols (s : AgentConfig) (component : String) : List Symbol :=
  if component = "crypto" then s.pairs else s.symbols

namespace Runner

/-- `set_symbols`. -/
def setSymbols (a : Runner) (symbols : List Symbol) : Runner :=
  if symbols ≠ [] then { a with symbols := symbols } else a

/-- `_apply_overrides`. -/
def applyOverrides (blob : ControlBlob) (a : Runner) : Except PyError (List String) × Runner :=
  match parseAndApply blob.parsed a.config with
  | (.error err, _) => (.error err, a)
  | (.ok changed, config) =>
      let a := { a with config := config }.setSymbols (config.agent.marketSymbols a.component)
      let capped := applySleeveRisk config.file.risk config.risk a.sleeves
      let a := { a with sleeves := capped.2 }
      match capped.1 with
      | .error err => (.error err, a)
      | .ok _ =>
          if a.extras ≠ [] then
            (.ok changed, a.setSymbols (config.agent.coreSymbols ++ a.extras).eraseDups)
          else (.ok changed, a)

/-- The overrides of `_handle_control`: a blob that is rejected is tried again next cycle. -/
def handleControl (blob : ControlBlob) (a : Runner) : Runner :=
  if blob.text = a.applied then a
  else
    match a.applyOverrides blob with
    | (.error _, a) => a
    | (.ok _, a) => { a with applied := blob.text }

/-- `_refresh_watchlist` up to the positions it asks the executor for. -/
def refreshBegin (a : Runner) : Runner :=
  if a.watchlist.isSome ∧ a.refreshing = none then
    { a with refreshing := some a.config.agent.coreSymbols }
  else a

/-- `_refresh_watchlist` from the positions it has read. A refresh that fails keeps the list. -/
def refreshEnd (positions : Except PyError (List Symbol)) (input : RefreshInput) (a : Runner) :
    Runner :=
  match a.watchlist, a.refreshing, positions with
  | some cfg, some core, .ok held =>
      match refresh cfg input core held a.entries with
      | (.error _, entries) => { a with entries := entries, refreshing := none }
      | (.ok result, entries) =>
          { a with
            entries := entries
            refreshing := none
            extras := result.symbols.filter (fun s => s ∉ core) }.setSymbols result.symbols
  | _, _, _ => { a with refreshing := none }

end Runner

/-- What a start of the program loads and reads. -/
structure Boot where
  component : String
  file : ConfigFile
  paper : Bool
  /-- The risk overrides of the configured sleeves. -/
  sleeves : List SleeveRisk
  watchlist : Option WatchlistSettings
  stored : Option ControlBlob
  /-- The ledger the executor is rebuilt with. -/
  ledger : PositionTracker
  positions : Except PyError (List Symbol)
  input : RefreshInput

/-- The agent as it is built. -/
def Boot.built (boot : Boot) (entries : WatchlistTable) : Runner where
  component := boot.component
  config := LiveConfig.load boot.file boot.component boot.paper
  sleeves := (ControlledRunner.start boot.file boot.component boot.paper boot.sleeves).sleeves
  watchlist := boot.watchlist
  symbols := boot.file.agent.marketSymbols boot.component
  extras := []
  applied := none
  ledger := boot.ledger
  entries := entries
  refreshing := none
  trading := []

/-- The stored overrides are applied before anything is scheduled. -/
def Boot.configured (boot : Boot) (entries : WatchlistTable) : Runner :=
  match boot.stored.filter (fun blob => blob.text.isSome) with
  | none => boot.built entries
  | some blob => ((boot.built entries).applyOverrides blob).2

/-- `run_agent` up to its first cycle. -/
def Boot.runner (boot : Boot) (entries : WatchlistTable) : Runner :=
  (boot.configured entries).refreshBegin.refreshEnd boot.positions boot.input

/-- What happens next to a runner. -/
inductive RunnerStep where
  | start (boot : Boot)
  | control (blob : ControlBlob)
  /-- A placement, a fill, a close or any other call of the executor. -/
  | executor (ledger : PositionTracker)
  | cycleStart
  | refreshBegin
  | refreshEnd (positions : Except PyError (List Symbol)) (input : RefreshInput)

def Runner.step : RunnerStep → Runner → Runner
  | .start boot, a => boot.runner a.entries
  | .control blob, a => a.handleControl blob
  | .executor ledger, a => { a with ledger := ledger }
  | .cycleStart, a => { a with trading := a.symbols }
  | .refreshBegin, a => a.refreshBegin
  | .refreshEnd positions input, a => a.refreshEnd positions input

/-! ## What the writers leave on the list -/

/-- The agent block that overrides leave. -/
def Runner.overridden (a : Runner) (o : Option SafeConfigOverrides) : AgentConfig :=
  applyAgent (overridesOf o) a.config.file.agent a.config.agent

/-- No sleeve raises at the limits that overrides leave. -/
def Runner.Takes (a : Runner) (o : Option SafeConfigOverrides) : Prop :=
  ∀ s ∈ a.sleeves, Clear (overridesOf o).risk a.config.file.risk a.config.risk s.risk

/-- A symbol on the list after overrides that parse: one of the core and the extras, where there
are extras and no sleeve raises before they are merged back, and else one of the agent's own
market. -/
def Runner.Follows (a : Runner) (o : Option SafeConfigOverrides) (x : Symbol) : Prop :=
  (a.Takes o ∧ a.extras ≠ [] → x ∈ (a.overridden o).coreSymbols ∨ x ∈ a.extras) ∧
    (¬(a.Takes o ∧ a.extras ≠ []) →
      if (a.overridden o).marketSymbols a.component ≠ [] then
        x ∈ (a.overridden o).marketSymbols a.component
      else x ∈ a.symbols)

/-- A symbol that a refresh lists: one of the core it began with, one that keeps its watchlist
slot, one that gets a slot, or one it read as held. -/
def Listed (cfg : WatchlistSettings) (input : RefreshInput) (core held : List Symbol)
    (entries : WatchlistTable) (x : Symbol) : Prop :=
  x ∈ core ∨ x ∈ active input entries ∨ x ∈ picked cfg input core held entries ∨ x ∈ held

/-- A refresh that reads the positions, does not fail and lists anything at all. -/
def Relists (cfg : WatchlistSettings) (input : RefreshInput) (core held : List Symbol)
    (entries : WatchlistTable) : Prop :=
  Completes cfg input core held entries ∧ ∃ x, Listed cfg input core held entries x

/-- A symbol on the list after a refresh that began with these core symbols; `kept` are those on
the list before. -/
def RefreshLists (watchlist : Option WatchlistSettings) (core : Option (List Symbol))
    (positions : Except PyError (List Symbol)) (input : RefreshInput) (entries : WatchlistTable)
    (kept : Symbol → Prop) (x : Symbol) : Prop :=
  match watchlist, core, positions with
  | some cfg, some core, .ok held =>
      (Relists cfg input core held entries → Listed cfg input core held entries x) ∧
        (¬ Relists cfg input core held entries → kept x)
  | _, _, _ => kept x

namespace Runner

theorem mem_setSymbols (a : Runner) (symbols : List Symbol) (x : Symbol) :
    x ∈ (a.setSymbols symbols).symbols ↔ if symbols ≠ [] then x ∈ symbols else x ∈ a.symbols := by
  unfold setSymbols
  split_ifs <;> rfl

@[simp] theorem ledger_setSymbols (a : Runner) (symbols : List Symbol) :
    (a.setSymbols symbols).ledger = a.ledger := by
  unfold setSymbols
  split_ifs <;> rfl

@[simp] theorem component_setSymbols (a : Runner) (symbols : List Symbol) :
    (a.setSymbols symbols).component = a.component := by
  unfold setSymbols
  split_ifs <;> rfl

@[simp] theorem sleeves_setSymbols (a : Runner) (symbols : List Symbol) :
    (a.setSymbols symbols).sleeves = a.sleeves := by
  unfold setSymbols
  split_ifs <;> rfl

@[simp] theorem extras_setSymbols (a : Runner) (symbols : List Symbol) :
    (a.setSymbols symbols).extras = a.extras := by
  unfold setSymbols
  split_ifs <;> rfl

/-- Overrides change neither the watchlist nor what is stored and open. -/
theorem applyOverrides_rest (a : Runner) (blob : ControlBlob) :
    (a.applyOverrides blob).2.watchlist = a.watchlist ∧
      (a.applyOverrides blob).2.refreshing = a.refreshing ∧
      (a.applyOverrides blob).2.entries = a.entries ∧
      (a.applyOverrides blob).2.ledger = a.ledger := by
  unfold applyOverrides setSymbols
  split
  · exact ⟨rfl, rfl, rfl, rfl⟩
  · dsimp only
    split
    · dsimp only
      split_ifs <;> exact ⟨rfl, rfl, rfl, rfl⟩
    · split_ifs <;> exact ⟨rfl, rfl, rfl, rfl⟩

@[simp] theorem ledger_applyOverrides (a : Runner) (blob : ControlBlob) :
    (a.applyOverrides blob).2.ledger = a.ledger := (a.applyOverrides_rest blob).2.2.2

/-- A blob that parses rewrites the list from the agent block it leaves. -/
theorem mem_applyOverrides (a : Runner) {blob : ControlBlob} {o : Option SafeConfigOverrides}
    (hparsed : blob.parsed = .ok o) (x : Symbol) :
    x ∈ (a.applyOverrides blob).2.symbols ↔ a.Follows o x := by
  have htakes : a.Takes o ↔ (applySleeveRisk a.config.file.risk
      (applyRisk (overridesOf o).risk a.config.file.risk a.config.risk) a.sleeves).1 = .ok () := by
    rw [applySleeveRisk_ok_iff]
    exact forall₂_congr fun s _ => clear_iff_comparable _ _ _ _
  have hcapped : applySleeveRisk (SmartyTrader.applyOverrides o a.config).file.risk
      (SmartyTrader.applyOverrides o a.config).risk a.sleeves = applySleeveRisk a.config.file.risk
        (applyRisk (overridesOf o).risk a.config.file.risk a.config.risk) a.sleeves := rfl
  have hblock : (SmartyTrader.applyOverrides o a.config).agent = a.overridden o := rfl
  unfold applyOverrides parseAndApply Follows
  rw [hparsed]
  dsimp only
  rw [sleeves_setSymbols, hcapped, hblock]
  split
  · rename_i err herr
    have hnot : ¬(a.Takes o ∧ a.extras ≠ []) := fun h => by
      rw [htakes.mp h.1] at herr
      cases herr
    simp only [hnot, not_false_eq_true, true_implies, false_implies, true_and]
    exact mem_setSymbols _ _ x
  · rename_i herr
    by_cases hextras : a.extras ≠ []
    · have hnonempty : ((a.overridden o).coreSymbols ++ a.extras).eraseDups ≠ [] := by
        obtain ⟨x, hx⟩ := List.exists_mem_of_ne_nil _ hextras
        exact List.ne_nil_of_mem (List.mem_eraseDups.mpr (List.mem_append_right _ hx))
      have hboth : a.Takes o ∧ a.extras ≠ [] := ⟨htakes.mpr herr, hextras⟩
      simp only [extras_setSymbols, hboth, if_true, true_implies, not_true_eq_false, false_implies,
        and_true, ne_eq, not_false_eq_true]
      rw [mem_setSymbols, if_pos hnonempty, List.mem_eraseDups, List.mem_append]
    · have hnot : ¬(a.Takes o ∧ a.extras ≠ []) := fun h => hextras h.2
      rw [extras_setSymbols, if_neg hextras]
      simp only [hnot, not_false_eq_true, true_implies, false_implies, true_and]
      exact mem_setSymbols _ _ x

/-- A symbol on the list after the overrides of a control row: those that are the ones last
applied, or do not parse, leave the list alone. -/
def ControlLists (a : Runner) (blob : ControlBlob) (x : Symbol) : Prop :=
  if blob.text = a.applied then x ∈ a.symbols
  else
    match blob.parsed with
    | .error _ => x ∈ a.symbols
    | .ok o => a.Follows o x

theorem mem_handleControl (a : Runner) (blob : ControlBlob) (x : Symbol) :
    x ∈ (a.handleControl blob).symbols ↔ a.ControlLists blob x := by
  unfold handleControl ControlLists
  by_cases hsame : blob.text = a.applied
  · rw [if_pos hsame, if_pos hsame]
  · rw [if_neg hsame, if_neg hsame]
    cases hparsed : blob.parsed with
    | error err =>
        have herr : a.applyOverrides blob = (.error err, a) := by
          unfold applyOverrides parseAndApply
          rw [hparsed]
        rw [herr]
    | ok o =>
        dsimp only
        rw [← a.mem_applyOverrides hparsed]
        split
        · rename_i heq
          rw [heq]
        · rename_i heq
          rw [heq]

@[simp] theorem ledger_handleControl (a : Runner) (blob : ControlBlob) :
    (a.handleControl blob).ledger = a.ledger := by
  have h := a.ledger_applyOverrides blob
  unfold handleControl
  split_ifs
  · rfl
  · split
    · rename_i heq
      rw [heq] at h
      exact h
    · rename_i heq
      rw [heq] at h
      exact h

@[simp] theorem symbols_refreshBegin (a : Runner) : a.refreshBegin.symbols = a.symbols := by
  unfold refreshBegin
  split_ifs <;> rfl

@[simp] theorem ledger_refreshBegin (a : Runner) : a.refreshBegin.ledger = a.ledger := by
  unfold refreshBegin
  split_ifs <;> rfl

@[simp] theorem ledger_refreshEnd (a : Runner) (positions : Except PyError (List Symbol))
    (input : RefreshInput) : (a.refreshEnd positions input).ledger = a.ledger := by
  unfold refreshEnd
  split
  · split
    · rfl
    · simp
  · rfl

/-- A refresh rewrites the list with what it lists, or keeps it. -/
theorem mem_refreshEnd (a : Runner) (positions : Except PyError (List Symbol))
    (input : RefreshInput) (x : Symbol) :
    x ∈ (a.refreshEnd positions input).symbols ↔
      RefreshLists a.watchlist a.refreshing positions input a.entries (· ∈ a.symbols) x := by
  unfold refreshEnd RefreshLists
  split
  · rename_i cfg core held hcfg hcore
    rcases refresh_cases cfg input core held a.entries with
      ⟨hcompletes, r, hok, hmem⟩ | ⟨hfails, err, herr⟩
    · split
      · rename_i heq
        rw [heq] at hok
        cases hok
      · rename_i result entries heq
        rw [heq] at hok
        obtain rfl := Except.ok.inj hok
        rw [mem_setSymbols]
        have hlisted : ∀ y, y ∈ result.symbols ↔ Listed cfg input core held a.entries y := hmem
        by_cases hempty : result.symbols = []
        · have hnone : ¬ Relists cfg input core held a.entries := by
            rintro ⟨-, y, hy⟩
            have hin := (hlisted y).mpr hy
            rw [hempty] at hin
            exact List.not_mem_nil hin
          rw [if_neg (not_not.mpr hempty)]
          exact ⟨fun h => ⟨fun hr => absurd hr hnone, fun _ => h⟩, fun h => h.2 hnone⟩
        · have hrelists : Relists cfg input core held a.entries := by
            obtain ⟨y, hy⟩ := List.exists_mem_of_ne_nil _ hempty
            exact ⟨hcompletes, y, (hlisted y).mp hy⟩
          rw [if_pos hempty, hlisted]
          exact ⟨fun h => ⟨fun _ => h, fun hn => absurd hrelists hn⟩, fun h => h.1 hrelists⟩
    · have hnone : ¬ Relists cfg input core held a.entries := fun h => hfails h.1
      split
      · exact ⟨fun h => ⟨fun hr => absurd hr hnone, fun _ => h⟩, fun h => h.2 hnone⟩
      · rename_i heq
        rw [heq] at herr
        cases herr
  · rfl

end Runner

namespace Boot

/-- The agent block at the end of the start. -/
def block (boot : Boot) (entries : WatchlistTable) : AgentConfig :=
  (boot.configured entries).config.agent

/-- A symbol on the list once the stored overrides are applied. -/
def Configures (boot : Boot) (entries : WatchlistTable) (x : Symbol) : Prop :=
  match boot.stored.filter (fun blob => blob.text.isSome) with
  | none => x ∈ boot.file.agent.marketSymbols boot.component
  | some blob =>
      match blob.parsed with
      | .error _ => x ∈ boot.file.agent.marketSymbols boot.component
      | .ok o => (boot.built entries).Follows o x

/-- A symbol on the list after a start and its first refresh. -/
def Lists (boot : Boot) (entries : WatchlistTable) (x : Symbol) : Prop :=
  RefreshLists boot.watchlist (some (boot.block entries).coreSymbols) boot.positions boot.input
    entries (boot.Configures entries) x

theorem mem_configured (boot : Boot) (entries : WatchlistTable) (x : Symbol) :
    x ∈ (boot.configured entries).symbols ↔ boot.Configures entries x := by
  unfold configured Configures
  split
  · rfl
  · rename_i blob _
    cases hparsed : blob.parsed with
    | error err =>
        unfold Runner.applyOverrides parseAndApply
        rw [hparsed]
        rfl
    | ok o => exact (boot.built entries).mem_applyOverrides hparsed x

/-- The overrides change neither the watchlist nor what is stored and open. -/
theorem configured_rest (boot : Boot) (entries : WatchlistTable) :
    (boot.configured entries).watchlist = boot.watchlist ∧
      (boot.configured entries).refreshing = none ∧
      (boot.configured entries).entries = entries ∧
      (boot.configured entries).ledger = boot.ledger := by
  unfold configured
  split
  · exact ⟨rfl, rfl, rfl, rfl⟩
  · exact (boot.built entries).applyOverrides_rest _

theorem mem_runner (boot : Boot) (entries : WatchlistTable) (x : Symbol) :
    x ∈ (boot.runner entries).symbols ↔ boot.Lists entries x := by
  obtain ⟨hwatchlist, hrefreshing, hentries, -⟩ := boot.configured_rest entries
  have hconfigured := boot.mem_configured entries
  unfold runner Lists
  rw [Runner.mem_refreshEnd]
  unfold Runner.refreshBegin
  by_cases hon : boot.watchlist.isSome
  · rw [if_pos ⟨by rw [hwatchlist]; exact hon, hrefreshing⟩]
    simp only [hwatchlist, hentries, hconfigured]
    rfl
  · rw [if_neg (by rw [hwatchlist]; exact fun h => hon h.1), hwatchlist,
      Option.not_isSome_iff_eq_none.mp hon]
    exact hconfigured x

@[simp] theorem ledger_runner (boot : Boot) (entries : WatchlistTable) :
    (boot.runner entries).ledger = boot.ledger := by
  unfold runner
  rw [Runner.ledger_refreshEnd, Runner.ledger_refreshBegin]
  exact (boot.configured_rest entries).2.2.2

end Boot

/-! ## Runs -/

/-- Every symbol with an open position is on the list. -/
def Runner.Covered (a : Runner) : Prop := ∀ x ∈ a.ledger.symbols, x ∈ a.symbols

instance (a : Runner) : Decidable a.Covered :=
  inferInstanceAs (Decidable (∀ x ∈ a.ledger.symbols, x ∈ a.symbols))

/-- A start, an override and a refresh leave every open symbol on the list, and an executor opens
positions only in symbols that are on it. -/
def Runner.Keeps : RunnerStep → Runner → Prop
  | .start boot, a => ∀ x ∈ boot.ledger.symbols, boot.Lists a.entries x
  | .control blob, a => ∀ x ∈ a.ledger.symbols, a.ControlLists blob x
  | .executor ledger, a => ∀ x ∈ ledger.symbols, x ∉ a.ledger.symbols → x ∈ a.symbols
  | .refreshEnd positions input, a => ∀ x ∈ a.ledger.symbols,
      RefreshLists a.watchlist a.refreshing positions input a.entries (· ∈ a.symbols) x
  | _, _ => True

/-- A step keeps the open symbols on the list exactly when it meets the condition. -/
theorem Runner.covered_step (s : RunnerStep) (a : Runner) (h : a.Covered) :
    (Runner.step s a).Covered ↔ Runner.Keeps s a := by
  cases s with
  | start boot =>
      show (∀ x ∈ (boot.runner a.entries).ledger.symbols, _) ↔ _
      rw [boot.ledger_runner]
      exact forall₂_congr fun x _ => boot.mem_runner a.entries x
  | control blob =>
      show (∀ x ∈ (a.handleControl blob).ledger.symbols, _) ↔ _
      rw [a.ledger_handleControl]
      exact forall₂_congr fun x _ => a.mem_handleControl blob x
  | executor ledger =>
      constructor
      · exact fun hcovered x hx _ => hcovered x hx
      · intro hopens x hx
        by_cases hold : x ∈ a.ledger.symbols
        · exact h x hold
        · exact hopens x hx hold
  | cycleStart => exact ⟨fun _ => trivial, fun _ => h⟩
  | refreshBegin =>
      refine ⟨fun _ => trivial, fun _ => ?_⟩
      show ∀ x ∈ a.refreshBegin.ledger.symbols, x ∈ a.refreshBegin.symbols
      rw [a.ledger_refreshBegin, a.symbols_refreshBegin]
      exact h
  | refreshEnd positions input =>
      show (∀ x ∈ (a.refreshEnd positions input).ledger.symbols, _) ↔ _
      rw [a.ledger_refreshEnd]
      exact forall₂_congr fun x _ => a.mem_refreshEnd positions input x

/-- In every state of a run every open symbol is on the list exactly when every step meets the
condition. -/
theorem Runner.covered_run_iff (steps : List RunnerStep) (a : Runner) (h : a.Covered) :
    (∀ before after, steps = before ++ after → (Lib.run Runner.step before a).Covered) ↔
      EachStep Runner.step Runner.Keeps steps a :=
  forall_prefix_iff (P := fun _ _ => True) (I := fun _ => True) (fun _ _ _ _ => trivial)
    (fun s a _ _ h => Runner.covered_step s a h) steps
    (EachStep.of_forall (fun _ _ => trivial) steps a) trivial h

/-- **Held symbols stay traded.** In every run from a start whose steps leave the open symbols on
the list, every symbol with an open position is on the list in every state, and a cycle that
starts there goes through it. -/
theorem held_symbols_traded (boot : Boot) (entries : WatchlistTable) (steps : List RunnerStep)
    (hboot : ∀ x ∈ boot.ledger.symbols, boot.Lists entries x)
    (hsteps : EachStep Runner.step Runner.Keeps steps (boot.runner entries))
    (before after : List RunnerStep) (hsplit : steps = before ++ after) {x : Symbol}
    (hx : x ∈ (Lib.run Runner.step before (boot.runner entries)).ledger.symbols) :
    x ∈ (Lib.run Runner.step before (boot.runner entries)).symbols ∧
      x ∈ (Lib.run Runner.step (before ++ [.cycleStart]) (boot.runner entries)).trading := by
  have hstart : (boot.runner entries).Covered := by
    intro y hy
    rw [boot.ledger_runner] at hy
    exact (boot.mem_runner entries y).mpr (hboot y hy)
  have hlisted := (Runner.covered_run_iff steps _ hstart).mpr hsteps before after hsplit x hx
  refine ⟨hlisted, ?_⟩
  rw [run_append]
  exact hlisted

/-! ## A core symbol that the pairs override drops -/

/-- Two pairs, a sleeve with a cap of its own, and a watchlist that is on. -/
def twoPairs : Boot where
  component := "crypto"
  file := { shippedFile with agent := { shippedFile.agent with pairs := ["BTC/EUR", "ETH/EUR"] } }
  paper := true
  sleeves := [capOverride (.plain (1 / 5))]
  watchlist := some
    { maxDynamicSymbols := 2
      ttl := 345600000000
      minQuoteVolume24h := 1000000
      minDailyVolatility := 1 / 200
      maxDailyVolatility := some (1 / 4)
      maxCandidates := 20
      excludeSymbols := []
      minMentions := 2
      maxDynamicSymbols_pos := by norm_num
      maxCandidates_pos := by norm_num }
  stored := none
  ledger := .empty
  positions := .ok []
  input :=
    { now := 0
      deletes := .ok ()
      reads := .ok ()
      quoteVolumes := .ok Dict.empty
      tradable := none
      metrics := fun _ => none
      mentions := none
      writes := fun _ => .ok 0 }

/-- A blob that sets the pairs. -/
def onlyPairs (pairs : List Symbol) : ControlBlob where
  raw := some "pairs"
  parsed := .ok (some { SafeConfigOverrides.none with pairs := some pairs })
  parsed_of_none := by simp

/-- ETH is bought, a refresh reads it as held, and then the pairs are overridden. -/
def pairsOverridden (pairs : List Symbol) : List RunnerStep :=
  [.cycleStart, .executor (PositionTracker.empty.onBuy "ETH/EUR" 1 2000 0 none), .refreshBegin,
    .refreshEnd (.ok ["ETH/EUR"]) twoPairs.input, .control (onlyPairs pairs)]

/-- No cycle after the override goes through the symbol that is open. -/
theorem open_symbol_dropped :
    let a := Lib.run Runner.step (pairsOverridden ["BTC/EUR"] ++ [.cycleStart])
      (twoPairs.runner Dict.empty)
    a.ledger.symbols = ["ETH/EUR"] ∧ a.symbols = ["BTC/EUR"] ∧ a.trading = ["BTC/EUR"] := by
  decide +kernel

/-- An override that keeps the open symbol. -/
theorem held_symbols_traded_kept :
    "ETH/EUR" ∈ (Lib.run Runner.step (pairsOverridden ["ETH/EUR"])
        (twoPairs.runner Dict.empty)).symbols ∧
      "ETH/EUR" ∈ (Lib.run Runner.step (pairsOverridden ["ETH/EUR"] ++ [.cycleStart])
        (twoPairs.runner Dict.empty)).trading := by
  refine held_symbols_traded twoPairs Dict.empty (pairsOverridden ["ETH/EUR"]) ?_ ?_
    (pairsOverridden ["ETH/EUR"]) [] (List.append_nil _).symm (by decide +kernel)
  · intro x hx
    cases hx
  · have hkeeps : ∀ (s : RunnerStep) (a : Runner), a.Covered → (Runner.step s a).Covered →
        Runner.Keeps s a := fun s a h h' => (Runner.covered_step s a h).mp h'
    refine ⟨hkeeps _ _ ?_ ?_, hkeeps _ _ ?_ ?_, hkeeps _ _ ?_ ?_, hkeeps _ _ ?_ ?_,
      hkeeps _ _ ?_ ?_, trivial⟩ <;> decide +kernel

end SmartyTrader
