import SmartyTrader.Core.TightenOnly
import SmartyTrader.Lib.History

set_option autoImplicit false

/-! # The control plane

The operator writes intent into the agent's row of `agent_control`, and the agent carries it out
when its next cycle reads the row. Between any two storage calls of a cycle the operator may write
again, the process may be asked to stop or die, and a storage call may fail. The world below is the
row, the agent's process and a history of what happened; its step takes whichever party moves next.

`close_all_served` is about the close-all latch, `trades_as_commanded` about what a cycle that
decides has read and `limits_bound_cycles` about the limits it decides under. At most one cycle runs
at a time (`cycles_exclusive` of `CycleLock`), so the world has one phase.
-/

namespace SmartyTrader

open Lib

/-! ## The row -/

inductive RunState where
  | running
  | paused
  deriving DecidableEq

/-- A row of `agent_control`. -/
structure AgentControl where
  state : RunState
  closeAllRequested : Bool
  lastCycleAt : Option Time
  lastError : Option String
  configOverrideJson : Option String
  deriving DecidableEq

/-- A new row with the defaults of its columns. -/
def AgentControl.new : AgentControl where
  state := .running
  closeAllRequested := false
  lastCycleAt := none
  lastError := none
  configOverrideJson := none

/-- `_upsert_agent_control`: the row is created on the first write, then the given columns are
patched. -/
def upsertAgentControl (patch : AgentControl → AgentControl) (row : Option AgentControl) :
    Option AgentControl :=
  some (patch (row.getD AgentControl.new))

/-- `set_agent_state` -/
def setAgentState (state : RunState) : Option AgentControl → Option AgentControl :=
  upsertAgentControl fun row => { row with state := state }

/-- `request_close_all` -/
def requestCloseAll (requested : Bool) : Option AgentControl → Option AgentControl :=
  upsertAgentControl fun row => { row with closeAllRequested := requested }

/-- `record_cycle_health` -/
def recordCycleHealth (now : Time) (lastError : Option String) :
    Option AgentControl → Option AgentControl :=
  upsertAgentControl fun row => { row with lastCycleAt := some now, lastError := lastError }

/-- `set_config_override` -/
def setConfigOverride (raw : Option String) : Option AgentControl → Option AgentControl :=
  upsertAgentControl fun row => { row with configOverrideJson := raw }

/-- `config_override_json or None` -/
def AgentControl.overrides (row : AgentControl) : Option String :=
  row.configOverrideJson.filter (· ≠ "")

/-- What the operator can ask for. -/
inductive Command where
  | setState (state : RunState)
  | closeAll
  | setConfig (raw : Option String)
  deriving DecidableEq

def Command.write : Command → Option AgentControl → Option AgentControl
  | .setState state => setAgentState state
  | .closeAll => requestCloseAll true
  | .setConfig raw => setConfigOverride raw

/-! ## One decision loop's report -/

/-- A decision loop of a cycle: the symbol and the sleeve, if any. -/
structure RunKey where
  symbol : Symbol
  sleeve : Option String
  deriving DecidableEq

/-- `label` -/
def RunKey.label (key : RunKey) : String :=
  match key.sleeve with
  | none => key.symbol
  | some sleeve => s!"{key.symbol} [{sleeve}]"

/-- What came of a decision loop. -/
inductive RunReport where
  /-- The symbol's exchange is closed. -/
  | skipped
  /-- `pipeline.run` raised. -/
  | raised (exc : String)
  /-- The result's error, the reasoning of a fallback signal, and what post-processing raised. -/
  | finished (error fallback post : Option String)
  deriving DecidableEq

/-- The cycle's error after a decision loop. -/
def errorAfter (key : RunKey) (report : RunReport) (cycleError : Option String) : Option String :=
  match report with
  | .skipped => cycleError
  | .raised exc => some s!"{key.label}: {exc}"
  | .finished _ _ (some exc) => some s!"{key.label}: post-processing failed: {exc}"
  | .finished (some error) _ none => some s!"{key.label}: {error}"
  | .finished none (some reasoning) none =>
      some s!"{key.label}: LLM unavailable — fallback HOLD ({reasoning})"
  | .finished none none none => cycleError

/-! ## The world -/

/-- Where the agent is in its cycle, with what it has read. -/
inductive Phase where
  | idle
  | reading
  | closing (state : RunState)
  | clearing (state : RunState)
  | guarding
  | reconciling
  | trading (todo : List RunKey) (cycleError : Option String)
  | beating (cycleError : Option String)
  deriving DecidableEq

inductive ControlEvent where
  | command (c : Command)
  | started
  | read
  | readFailed
  | applied (raw : Option String)
  | rejected (raw : Option String)
  | closingAll
  | closedAll
  | latchCleared
  | latchKept
  | marketClosed
  | reconciled
  | ran (key : RunKey) (report : RunReport)
  | beat (cycleError : Option String)
  | ended
  | stopped
  | restarted
  deriving DecidableEq

/-- The row, the agent's process, and the history, the newest event first. -/
structure ControlWorld (γ : Type) where
  row : Option AgentControl
  phase : Phase
  stopping : Bool
  /-- `_applied_overrides_raw` -/
  applied : Option String
  live : γ
  history : List ControlEvent

variable {γ : Type}

/-- What happens next. -/
inductive ControlInput (γ : Type) where
  | command (c : Command)
  /-- The schedule calls `run_cycle`. -/
  | tick
  | read (ok : Bool)
  /-- The close-all is over; `cut` if post-processing raised. -/
  | closeAll (cut : Bool)
  | clear (ok : Bool)
  /-- `_skip_cycle_reason` -/
  | guard (reason : Except PyError (Option String))
  /-- `_reconcile_orders` is over; `cut` if it raised. -/
  | reconcile (cut : Bool)
  | run (report : RunReport)
  | beat (ok : Bool) (now : Time)
  /-- The LLM client refused a request because the agent is shutting down. -/
  | interrupt
  | stop
  /-- The process is gone; a new one starts on this configuration. -/
  | restart (fresh : γ) (ok : Bool)

section Step

variable (apply : Option String → γ → Except PyError Unit × γ) (runs : γ → List RunKey)

/-- The overrides part of `_handle_control`. -/
def syncOverrides (raw : Option String) (w : ControlWorld γ) : ControlWorld γ :=
  if raw = w.applied then w
  else
    match apply raw w.live with
    | (.ok _, live) =>
        { w with live := live, applied := raw, history := .applied raw :: w.history }
    | (.error _, live) => { w with live := live, history := .rejected raw :: w.history }

/-- The pause check at the end of `_handle_control`. -/
def pauseCheck (state : RunState) (w : ControlWorld γ) : ControlWorld γ :=
  match state with
  | .paused => { w with phase := .beating none }
  | .running => { w with phase := .guarding }

/-- A latched close-all comes before the pause check. -/
def beginCloseAll (control : AgentControl) (w : ControlWorld γ) : ControlWorld γ :=
  match control.closeAllRequested with
  | true => { w with phase := .closing control.state, history := .closingAll :: w.history }
  | false => pauseCheck control.state w

/-- `_handle_control`, up to the close-all. -/
def handleControl (control : AgentControl) (w : ControlWorld γ) : ControlWorld γ :=
  beginCloseAll control (syncOverrides apply control.overrides w)

/-- `_read_control` and what follows it without a further wait. -/
def readControl (ok : Bool) (w : ControlWorld γ) : ControlWorld γ :=
  match ok, w.row with
  | false, _ => { w with phase := .guarding, history := .readFailed :: w.history }
  | true, none => { w with phase := .guarding, history := .read :: w.history }
  | true, some control => handleControl apply control { w with history := .read :: w.history }

/-- The latch is cleared once a close-all was attempted. -/
def clearLatch (ok : Bool) (w : ControlWorld γ) : ControlWorld γ :=
  match ok with
  | true => { w with row := requestCloseAll false w.row, history := .latchCleared :: w.history }
  | false => { w with history := .latchKept :: w.history }

/-- The cycle ends, normally or by an exception, and the lock is released. -/
def endCycle (w : ControlWorld γ) : ControlWorld γ :=
  { w with phase := .idle, history := .ended :: w.history }

/-- `_record_health` -/
def recordHealth (ok : Bool) (now : Time) (cycleError : Option String) (w : ControlWorld γ) :
    ControlWorld γ :=
  match ok with
  | true => { w with row := recordCycleHealth now cycleError w.row }
  | false => w

/-- The overrides that a starting process finds are applied before its first cycle. -/
def startUp (fresh : γ) (ok : Bool) (row : Option AgentControl) : γ :=
  match ok, row.bind AgentControl.overrides with
  | true, some raw => (apply (some raw) fresh).2
  | _, _ => fresh

/-- One step; a move that the phase does not allow changes nothing. -/
def controlStep (i : ControlInput γ) (w : ControlWorld γ) : ControlWorld γ :=
  match i, w.phase with
  | .command c, _ => { w with row := c.write w.row, history := .command c :: w.history }
  | .tick, .idle =>
      if w.stopping then w
      else { w with phase := .reading, history := .started :: w.history }
  | .read ok, .reading => readControl apply ok w
  | .closeAll true, .closing _ => endCycle w
  | .closeAll false, .closing state =>
      { w with phase := .clearing state, history := .closedAll :: w.history }
  | .clear ok, .clearing state => pauseCheck state (clearLatch ok w)
  | .guard (.error _), .guarding => endCycle w
  | .guard (.ok (some _)), .guarding =>
      { w with phase := .beating none, history := .marketClosed :: w.history }
  | .guard (.ok none), .guarding => { w with phase := .reconciling }
  | .reconcile true, .reconciling => endCycle { w with history := .reconciled :: w.history }
  | .reconcile false, .reconciling =>
      { w with phase := .trading (runs w.live) none, history := .reconciled :: w.history }
  | .run report, .trading (key :: todo) cycleError =>
      { w with
        phase := .trading todo (errorAfter key report cycleError)
        history := .ran key report :: w.history }
  | .run _, .trading [] cycleError => { w with phase := .beating cycleError }
  | .beat ok now, .beating cycleError =>
      endCycle (recordHealth ok now cycleError { w with history := .beat cycleError :: w.history })
  | .interrupt, .trading _ _ => if w.stopping then endCycle w else w
  | .stop, _ => { w with stopping := true, history := .stopped :: w.history }
  | .restart fresh ok, _ =>
      { w with
        phase := .idle
        stopping := false
        applied := none
        live := startUp apply fresh ok w.row
        history := .restarted :: w.history }
  | _, _ => w

end Step

/-- An agent never touched, its process not yet started. -/
def ControlWorld.initial (live : γ) : ControlWorld γ where
  row := none
  phase := .idle
  stopping := false
  applied := none
  live := live
  history := []

/-! ## Reading the history

Each function below is what the events so far, the newest first, say about one thing.
-/

/-- The state last commanded. -/
def stateOf : List ControlEvent → RunState
  | [] => .running
  | .command (.setState state) :: _ => state
  | _ :: older => stateOf older

/-- Whether a close-all was requested and its latch not cleared since. -/
def latchOf : List ControlEvent → Bool
  | [] => false
  | .command .closeAll :: _ => true
  | .latchCleared :: _ => false
  | _ :: older => latchOf older

/-- The overrides last saved. -/
def overridesSaved : List ControlEvent → Option String
  | [] => none
  | .command (.setConfig raw) :: _ => raw.filter (· ≠ "")
  | _ :: older => overridesSaved older

/-- The overrides this process last applied in a cycle. -/
def overridesApplied : List ControlEvent → Option String
  | [] => none
  | .applied raw :: _ => raw
  | .restarted :: _ => none
  | _ :: older => overridesApplied older

/-- Whether a cycle holds the lock. -/
def inCycle : List ControlEvent → Bool
  | [] => false
  | .started :: _ => true
  | .ended :: _ => false
  | .restarted :: _ => false
  | _ :: older => inCycle older

/-- Whether this process was asked to stop. -/
def stopAsked : List ControlEvent → Bool
  | [] => false
  | .stopped :: _ => true
  | .restarted :: _ => false
  | _ :: older => stopAsked older

/-- Whether a close-all has begun and its latch was not yet dealt with. -/
def attemptOpen : List ControlEvent → Bool
  | [] => false
  | .closingAll :: _ => true
  | .latchCleared :: _ => false
  | .latchKept :: _ => false
  | .ended :: _ => false
  | .restarted :: _ => false
  | _ :: older => attemptOpen older

/-- Whether a request for a close-all came outside an attempt and no attempt began since. -/
def owed : List ControlEvent → Bool
  | [] => false
  | .command .closeAll :: older => owed older || !attemptOpen older
  | .closingAll :: _ => false
  | _ :: older => owed older

/-- The error of the cycle so far. -/
def errorOf : List ControlEvent → Option String
  | [] => none
  | .ran key report :: older => errorAfter key report (errorOf older)
  | .started :: _ => none
  | .restarted :: _ => none
  | _ :: older => errorOf older

/-- The events that say what the cycle under way has read. -/
def ControlEvent.isRead : ControlEvent → Bool
  | .read | .readFailed | .started | .restarted => true
  | _ => false

/-- The cycle has read the row, in the state last commanded before the read. -/
def ReadState (state : RunState) : List ControlEvent → Prop :=
  Latest ControlEvent.isRead fun e earlier => e = .read ∧ stateOf earlier = state

/-- The read of the cycle failed, or the agent was not paused at it. -/
def Unpaused : List ControlEvent → Prop :=
  Latest ControlEvent.isRead fun e earlier =>
    e = .readFailed ∨ e = .read ∧ stateOf earlier = .running

/-- The cycle has begun a close-all, or there was none to begin when it read the row. -/
def LatchServed : List ControlEvent → Prop :=
  Latest (fun e => e.isRead || e = .closingAll) fun e earlier =>
    e = .closingAll ∨ e = .readFailed ∨ e = .read ∧ latchOf earlier = false

def ControlEvent.isRejected : ControlEvent → Bool
  | .rejected _ => true
  | _ => false

/-- The overrides `applied` are those saved when the cycle read the row, or the saved ones were
rejected. -/
def SyncedWith (applied : Option String) : List ControlEvent → Prop :=
  Latest (fun e => e.isRead || e.isRejected) fun e earlier =>
    e = .rejected (overridesSaved earlier) ∨ e = .readFailed ∨
      e = .read ∧ applied = overridesSaved earlier

/-- The cycle has carried out what it read, up to the pause. -/
structure Handled (history : List ControlEvent) : Prop where
  latch : LatchServed history
  synced : SyncedWith (overridesApplied history) history

/-- The cycle goes on past the control plane. -/
structure MayTrade (history : List ControlEvent) : Prop extends Handled history where
  unpaused : Unpaused history

/-- What the history must say when an event happens. -/
def Guarded : ControlEvent → List ControlEvent → Prop
  | .started, older => inCycle older = false ∧ stopAsked older = false
  | .closingAll, older => inCycle older = true ∧ latchOf older = true
  | .latchCleared, older => inCycle older = true ∧ attemptOpen older = true
  | .marketClosed, older => inCycle older = true ∧ MayTrade older
  | .reconciled, older => inCycle older = true ∧ MayTrade older
  | .ran _ _, older => inCycle older = true ∧ MayTrade older
  | .beat cycleError, older =>
      inCycle older = true ∧ Handled older ∧ cycleError = errorOf older
  | .ended, older => inCycle older = true ∧ Handled older
  | _, _ => True

/-! ## The invariant -/

/-- What the phase knows about the history. -/
def PhaseOk (history : List ControlEvent) : Phase → Prop
  | .idle => True
  | .reading => errorOf history = none
  | .closing state | .clearing state =>
      attemptOpen history = true ∧ owed history = false ∧ ReadState state history ∧
        Handled history ∧ errorOf history = none
  | .guarding | .reconciling => MayTrade history ∧ errorOf history = none
  | .trading _ cycleError => MayTrade history ∧ cycleError = errorOf history
  | .beating cycleError => Handled history ∧ cycleError = errorOf history

/-- The row and the process, but for its phase, are what the history says. -/
structure OnRecord (w : ControlWorld γ) : Prop where
  state : (w.row.getD AgentControl.new).state = stateOf w.history
  latch : (w.row.getD AgentControl.new).closeAllRequested = latchOf w.history
  saved : (w.row.getD AgentControl.new).overrides = overridesSaved w.history
  untouched : w.row = none → w.applied = none
  applied : w.applied = overridesApplied w.history
  stopping : stopAsked w.history = w.stopping
  owed : owed w.history = true → latchOf w.history = true
  justified : Justified Guarded w.history

structure Consistent (w : ControlWorld γ) : Prop extends OnRecord w where
  cycle : inCycle w.history = true ↔ w.phase ≠ .idle
  phase : PhaseOk w.history w.phase

/-! ## One step -/

theorem handled_cons {e : ControlEvent} {older : List ControlEvent} (hread : e.isRead = false)
    (hclose : e ≠ .closingAll) (hrej : e.isRejected = false)
    (happlied : overridesApplied (e :: older) = overridesApplied older) :
    Handled (e :: older) ↔ Handled older := by
  have hlatch : LatchServed (e :: older) ↔ LatchServed older := by
    simp [LatchServed, latest_cons, hread, hclose]
  have hsynced : ∀ a, SyncedWith a (e :: older) ↔ SyncedWith a older := by
    intro a
    simp [SyncedWith, latest_cons, hread, hrej]
  constructor
  · rintro ⟨hl, hs⟩
    exact ⟨hlatch.mp hl, by rw [happlied] at hs; exact (hsynced _).mp hs⟩
  · rintro ⟨hl, hs⟩
    exact ⟨hlatch.mpr hl, by rw [happlied]; exact (hsynced _).mpr hs⟩

theorem mayTrade_cons {e : ControlEvent} {older : List ControlEvent} (hread : e.isRead = false)
    (hclose : e ≠ .closingAll) (hrej : e.isRejected = false)
    (happlied : overridesApplied (e :: older) = overridesApplied older) :
    MayTrade (e :: older) ↔ MayTrade older := by
  have hunpaused : Unpaused (e :: older) ↔ Unpaused older := by
    simp [Unpaused, latest_cons, hread]
  have hhandled := handled_cons hread hclose hrej happlied
  exact ⟨fun h => ⟨hhandled.mp h.toHandled, hunpaused.mp h.unpaused⟩,
    fun h => ⟨hhandled.mpr h.toHandled, hunpaused.mpr h.unpaused⟩⟩

theorem readState_cons {state : RunState} {e : ControlEvent} {older : List ControlEvent}
    (hread : e.isRead = false) : ReadState state (e :: older) ↔ ReadState state older := by
  simp [ReadState, latest_cons, hread]

/-- What the operator does, and a request to stop, change nothing that the phase knows. -/
theorem phaseOk_beside {e : ControlEvent} {history : List ControlEvent} {phase : Phase}
    (he : (∃ c, e = .command c) ∨ e = .stopped) (h : PhaseOk history phase) :
    PhaseOk (e :: history) phase := by
  have hread : e.isRead = false := by
    rcases he with ⟨c, rfl⟩ | rfl <;> rfl
  have hclose : e ≠ .closingAll := by
    rcases he with ⟨c, rfl⟩ | rfl <;> simp
  have hrej : e.isRejected = false := by
    rcases he with ⟨c, rfl⟩ | rfl <;> rfl
  have happlied : overridesApplied (e :: history) = overridesApplied history := by
    rcases he with ⟨c, rfl⟩ | rfl <;> rfl
  have herror : errorOf (e :: history) = errorOf history := by
    rcases he with ⟨c, rfl⟩ | rfl <;> rfl
  have hattempt : attemptOpen (e :: history) = attemptOpen history := by
    rcases he with ⟨c, rfl⟩ | rfl <;> rfl
  have howed : attemptOpen history = true → owed (e :: history) = owed history := by
    intro hopen
    rcases he with ⟨c, rfl⟩ | rfl
    · cases c with
      | closeAll => simp [owed, hopen]
      | setState state => rfl
      | setConfig raw => rfl
    · rfl
  have hmay := mayTrade_cons hread hclose hrej happlied
  have hhandled := handled_cons hread hclose hrej happlied
  cases phase with
  | idle => trivial
  | reading => exact herror.trans h
  | closing state =>
      obtain ⟨hopen, how, hstate, hdone, herr⟩ := h
      exact ⟨hattempt.trans hopen, (howed hopen).trans how, (readState_cons hread).mpr hstate,
        hhandled.mpr hdone, herror.trans herr⟩
  | clearing state =>
      obtain ⟨hopen, how, hstate, hdone, herr⟩ := h
      exact ⟨hattempt.trans hopen, (howed hopen).trans how, (readState_cons hread).mpr hstate,
        hhandled.mpr hdone, herror.trans herr⟩
  | guarding => exact ⟨hmay.mpr h.1, herror.trans h.2⟩
  | reconciling => exact ⟨hmay.mpr h.1, herror.trans h.2⟩
  | trading todo cycleError => exact ⟨hmay.mpr h.1, h.2.trans herror.symm⟩
  | beating cycleError => exact ⟨hhandled.mpr h.1, h.2.trans herror.symm⟩

theorem consistent_command (c : Command) {w : ControlWorld γ} (h : Consistent w) :
    Consistent { w with row := c.write w.row, history := .command c :: w.history } := by
  have hphase := phaseOk_beside (.inl ⟨c, rfl⟩) h.phase
  have howed : owed (.command c :: w.history) = true → latchOf (.command c :: w.history) = true := by
    cases c with
    | closeAll => simp [latchOf]
    | setState state => exact h.owed
    | setConfig raw => exact h.owed
  have hrow : c.write w.row ≠ none := by
    cases c <;> exact Option.some_ne_none _
  refine ⟨⟨?_, ?_, ?_, fun hnone => absurd hnone hrow, h.applied, h.stopping, howed,
    ⟨trivial, h.justified⟩⟩, h.cycle, hphase⟩
  · cases c with
    | setState state => rfl
    | closeAll => exact h.state
    | setConfig raw => exact h.state
  · cases c with
    | setState state => exact h.latch
    | closeAll => rfl
    | setConfig raw => exact h.latch
  · cases c with
    | setState state => exact h.saved
    | closeAll => exact h.saved
    | setConfig raw => rfl

/-- An event that says nothing about the commands, the overrides, the shutdown or what is owed. -/
structure Silent (e : ControlEvent) (history : List ControlEvent) : Prop where
  state : stateOf (e :: history) = stateOf history
  latch : latchOf (e :: history) = latchOf history
  saved : overridesSaved (e :: history) = overridesSaved history
  applied : overridesApplied (e :: history) = overridesApplied history
  stopping : stopAsked (e :: history) = stopAsked history
  owed : owed (e :: history) = owed history

theorem OnRecord.record {w : ControlWorld γ} (h : OnRecord w) {e : ControlEvent}
    (silent : Silent e w.history) (hguard : Guarded e w.history) (phase : Phase) :
    OnRecord { w with phase := phase, history := e :: w.history } where
  state := h.state.trans silent.state.symm
  latch := h.latch.trans silent.latch.symm
  saved := h.saved.trans silent.saved.symm
  untouched := h.untouched
  applied := h.applied.trans silent.applied.symm
  stopping := silent.stopping.trans h.stopping
  owed := fun ho => silent.latch.trans (h.owed (silent.owed.symm.trans ho))
  justified := ⟨hguard, h.justified⟩

theorem OnRecord.advance {w : ControlWorld γ} (h : OnRecord w) {e : ControlEvent}
    {phase : Phase} (silent : Silent e w.history)
    (hcycle : inCycle (e :: w.history) = true ↔ phase ≠ .idle)
    (hphase : PhaseOk (e :: w.history) phase) (hguard : Guarded e w.history) :
    Consistent { w with phase := phase, history := e :: w.history } :=
  ⟨h.record silent hguard phase, hcycle, hphase⟩

/-- A move to another phase of the same cycle, with nothing to record. -/
theorem OnRecord.turn {w : ControlWorld γ} (h : OnRecord w) {phase : Phase}
    (hcycle : inCycle w.history = true ↔ phase ≠ .idle) (hphase : PhaseOk w.history phase) :
    Consistent { w with phase := phase } where
  state := h.state
  latch := h.latch
  saved := h.saved
  untouched := h.untouched
  applied := h.applied
  cycle := hcycle
  stopping := h.stopping
  owed := h.owed
  phase := hphase
  justified := h.justified

theorem Consistent.holdsLock {w : ControlWorld γ} (h : Consistent w) (hbusy : w.phase ≠ .idle) :
    inCycle w.history = true := h.cycle.mpr hbusy

theorem consistent_endCycle {w : ControlWorld γ} (h : OnRecord w)
    (hcycle : inCycle w.history = true) (hdone : Handled w.history) : Consistent (endCycle w) :=
  h.advance ⟨rfl, rfl, rfl, rfl, rfl, rfl⟩ ⟨fun hend => absurd hend (by simp [inCycle]),
    fun hne => absurd rfl hne⟩ trivial ⟨hcycle, hdone⟩

/-- What the cycle has read is carried out in every phase that can end it. -/
theorem Consistent.handled {w : ControlWorld γ} (h : Consistent w) (hidle : w.phase ≠ .idle)
    (hreading : w.phase ≠ .reading) : Handled w.history := by
  have hok := h.phase
  cases hphase : w.phase with
  | idle => exact absurd hphase hidle
  | reading => exact absurd hphase hreading
  | closing state =>
      rw [hphase] at hok
      exact hok.2.2.2.1
  | clearing state =>
      rw [hphase] at hok
      exact hok.2.2.2.1
  | guarding =>
      rw [hphase] at hok
      exact hok.1.toHandled
  | reconciling =>
      rw [hphase] at hok
      exact hok.1.toHandled
  | trading todo cycleError =>
      rw [hphase] at hok
      exact hok.1.toHandled
  | beating cycleError =>
      rw [hphase] at hok
      exact hok.1

theorem Consistent.endCycle {w : ControlWorld γ} (h : Consistent w) (hidle : w.phase ≠ .idle)
    (hreading : w.phase ≠ .reading) : Consistent (endCycle w) :=
  consistent_endCycle h.toOnRecord (h.holdsLock hidle) (h.handled hidle hreading)

theorem consistent_tick {w : ControlWorld γ} (h : Consistent w) (hidle : w.phase = .idle)
    (hgo : w.stopping = false) :
    Consistent { w with phase := .reading, history := .started :: w.history } := by
  have hfree : inCycle w.history = false := by
    by_contra hbusy
    exact h.cycle.mp (by simpa using hbusy) hidle
  exact h.advance ⟨rfl, rfl, rfl, rfl, rfl, rfl⟩ (by simp [inCycle]) rfl
    ⟨hfree, h.stopping.trans hgo⟩

theorem consistent_stop {w : ControlWorld γ} (h : Consistent w) :
    Consistent { w with stopping := true, history := .stopped :: w.history } where
  state := h.state
  latch := h.latch
  saved := h.saved
  untouched := h.untouched
  applied := h.applied
  cycle := h.cycle
  stopping := rfl
  owed := h.owed
  phase := phaseOk_beside (.inr rfl) h.phase
  justified := ⟨trivial, h.justified⟩

theorem consistent_restart {w : ControlWorld γ} (h : Consistent w) (live : γ) :
    Consistent { w with
      phase := .idle
      stopping := false
      applied := none
      live := live
      history := .restarted :: w.history } where
  state := h.state
  latch := h.latch
  saved := h.saved
  untouched := fun _ => rfl
  applied := rfl
  cycle := ⟨fun hend => absurd hend (by simp [inCycle]), fun hne => absurd rfl hne⟩
  stopping := rfl
  owed := h.owed
  phase := trivial
  justified := ⟨trivial, h.justified⟩

/-! ### The control read -/

/-- What holds right after the overrides of the row that was read were dealt with. -/
structure Synced (control : AgentControl) (w : ControlWorld γ) : Prop extends Consistent w where
  row : w.row = some control
  busy : w.phase = .reading
  read : ReadState control.state w.history
  noLatch : control.closeAllRequested = false → LatchServed w.history
  synced : SyncedWith (overridesApplied w.history) w.history

theorem synced_syncOverrides (apply : Option String → γ → Except PyError Unit × γ)
    {control : AgentControl} {w : ControlWorld γ} (h : Consistent w)
    (hrow : w.row = some control) (hbusy : w.phase = .reading) :
    Synced control
      (syncOverrides apply control.overrides { w with history := .read :: w.history }) := by
  have hcycle : inCycle w.history = true := h.holdsLock (by simp [hbusy])
  have herror : errorOf w.history = none := by
    have hok := h.phase
    rw [hbusy] at hok
    exact hok
  have hstate : stateOf w.history = control.state := by
    have hs := h.state
    rw [hrow] at hs
    exact hs.symm
  have hlatch : latchOf w.history = control.closeAllRequested := by
    have hs := h.latch
    rw [hrow] at hs
    exact hs.symm
  have hsaved : overridesSaved w.history = control.overrides := by
    have hs := h.saved
    rw [hrow] at hs
    exact hs.symm
  have hread : Consistent { w with history := .read :: w.history } := by
    have hgo : Consistent { w with phase := .reading, history := .read :: w.history } :=
      h.advance ⟨rfl, rfl, rfl, rfl, rfl, rfl⟩
        (by simpa [inCycle] using hcycle) herror trivial
    rwa [← hbusy] at hgo
  unfold syncOverrides
  by_cases hsame : control.overrides = w.applied
  · rw [if_pos hsame]
    refine ⟨hread, hrow, hbusy, ?_, ?_, ?_⟩
    · exact ⟨rfl, hstate⟩
    · intro hno
      exact .inr (.inr ⟨rfl, hlatch.trans hno⟩)
    · refine .inr (.inr ⟨rfl, ?_⟩)
      rw [hsaved, hsame]
      exact h.applied.symm
  · rw [if_neg hsame]
    rcases hres : apply control.overrides w.live with ⟨res, live⟩
    cases res with
    | ok u =>
        refine ⟨⟨⟨h.state, h.latch, h.saved, ?_, rfl, h.stopping, h.owed,
          ⟨trivial, hread.justified⟩⟩, hread.cycle, ?_⟩, hrow, hbusy, ⟨rfl, hstate⟩, ?_, ?_⟩
        · exact fun hnone => absurd (hrow.symm.trans hnone) (Option.some_ne_none _)
        · rw [hbusy]
          exact herror
        · intro hno
          exact .inr (.inr ⟨rfl, hlatch.trans hno⟩)
        · exact .inr (.inr ⟨rfl, hsaved.symm⟩)
    | error err =>
        refine ⟨⟨⟨h.state, h.latch, h.saved, h.untouched, h.applied, h.stopping, h.owed,
          ⟨trivial, hread.justified⟩⟩, hread.cycle, ?_⟩, hrow, hbusy, ⟨rfl, hstate⟩, ?_, ?_⟩
        · rw [hbusy]
          exact herror
        · intro hno
          exact .inr (.inr ⟨rfl, hlatch.trans hno⟩)
        · exact .inl (congrArg ControlEvent.rejected hsaved.symm)

theorem Synced.handled {control : AgentControl} {w : ControlWorld γ} (h : Synced control w)
    (hno : control.closeAllRequested = false) : Handled w.history := ⟨h.noLatch hno, h.synced⟩

/-- The pause check of a cycle that has carried out what it read. -/
theorem consistent_pauseCheck {state : RunState} {w : ControlWorld γ} (h : OnRecord w)
    (hcycle : inCycle w.history = true) (hread : ReadState state w.history)
    (hdone : Handled w.history) (herror : errorOf w.history = none) :
    Consistent (pauseCheck state w) := by
  cases state with
  | paused => exact h.turn (by simpa using hcycle) ⟨hdone, herror.symm⟩
  | running =>
      have hunpaused : Unpaused w.history := hread.mono fun _ _ hp => .inr hp
      exact h.turn (by simpa using hcycle) ⟨⟨hdone, hunpaused⟩, herror⟩

theorem consistent_beginCloseAll {control : AgentControl} {w : ControlWorld γ}
    (h : Synced control w) : Consistent (beginCloseAll control w) := by
  have hcycle : inCycle w.history = true :=
    h.toConsistent.holdsLock (by simp [h.busy])
  have herror : errorOf w.history = none := by
    have hok := h.phase
    rw [h.busy] at hok
    exact hok
  unfold beginCloseAll
  cases hlatch : control.closeAllRequested with
  | false => exact consistent_pauseCheck h.toOnRecord hcycle h.read (h.handled hlatch) herror
  | true =>
      have hset : latchOf w.history = true := by
        have hs := h.latch
        rw [h.row] at hs
        exact hs.symm.trans hlatch
      have hread : ReadState control.state (.closingAll :: w.history) :=
        (readState_cons rfl).mpr h.read
      have hdone : Handled (.closingAll :: w.history) := by
        refine ⟨.inl rfl, ?_⟩
        have hs := h.synced
        simpa [SyncedWith, latest_cons, ControlEvent.isRead, ControlEvent.isRejected,
          overridesApplied] using hs
      exact {
        state := h.state
        latch := h.latch
        saved := h.saved
        untouched := h.untouched
        applied := h.applied
        cycle := by simpa [inCycle] using hcycle
        stopping := h.stopping
        owed := fun ho => absurd ho (by simp [owed])
        phase := ⟨rfl, rfl, hread, hdone, herror⟩
        justified := ⟨⟨hcycle, hset⟩, h.justified⟩ }

theorem consistent_readControl (apply : Option String → γ → Except PyError Unit × γ) (ok : Bool)
    {w : ControlWorld γ} (h : Consistent w) (hbusy : w.phase = .reading) :
    Consistent (readControl apply ok w) := by
  have hcycle : inCycle w.history = true := h.holdsLock (by simp [hbusy])
  have herror : errorOf w.history = none := by
    have hok := h.phase
    rw [hbusy] at hok
    exact hok
  cases ok with
  | false =>
      -- a failed read counts as an untouched row: not paused, no latch, no overrides
      have hmay : MayTrade (.readFailed :: w.history) :=
        ⟨⟨.inr (.inl rfl), .inr (.inl rfl)⟩, .inl rfl⟩
      exact h.advance ⟨rfl, rfl, rfl, rfl, rfl, rfl⟩
        (by simpa [inCycle] using hcycle) ⟨hmay, herror⟩ trivial
  | true =>
      cases hrow : w.row with
      | none =>
          have hstate : stateOf w.history = .running := by
            have hs := h.state
            rw [hrow] at hs
            exact hs.symm
          have hlatch : latchOf w.history = false := by
            have hs := h.latch
            rw [hrow] at hs
            exact hs.symm
          have hsaved : overridesSaved w.history = none := by
            have hs := h.saved
            rw [hrow] at hs
            exact hs.symm
          have happlied : overridesApplied w.history = none :=
            h.applied.symm.trans (h.untouched hrow)
          have hmay : MayTrade (.read :: w.history) :=
            ⟨⟨.inr (.inr ⟨rfl, hlatch⟩), .inr (.inr ⟨rfl, happlied.trans hsaved.symm⟩)⟩,
              .inr ⟨rfl, hstate⟩⟩
          have hgo : Consistent { w with phase := .guarding, history := .read :: w.history } :=
            h.advance ⟨rfl, rfl, rfl, rfl, rfl, rfl⟩
              (by simpa [inCycle] using hcycle) ⟨hmay, herror⟩ trivial
          simpa only [readControl, hrow] using hgo
      | some control =>
          have hgo := consistent_beginCloseAll (synced_syncOverrides apply h hrow hbusy)
          simpa only [readControl, hrow, handleControl] using hgo

/-! ### The rest of the cycle -/

theorem consistent_clearLatch (ok : Bool) {state : RunState} {w : ControlWorld γ}
    (h : Consistent w) (hphase : w.phase = .clearing state) :
    Consistent (pauseCheck state (clearLatch ok w)) := by
  have hcycle : inCycle w.history = true := h.holdsLock (by simp [hphase])
  have hok := h.phase
  rw [hphase] at hok
  obtain ⟨hopen, howed, hread, hdone, herror⟩ := hok
  cases ok with
  | false =>
      have hrec : OnRecord (clearLatch false w) := {
        state := h.state
        latch := h.latch
        saved := h.saved
        untouched := h.untouched
        applied := h.applied
        stopping := h.stopping
        owed := h.owed
        justified := ⟨trivial, h.justified⟩ }
      exact consistent_pauseCheck hrec hcycle ((readState_cons rfl).mpr hread)
        ((handled_cons rfl (by simp) rfl rfl).mpr hdone) herror
  | true =>
      -- nothing is owed here: the requests that came during the attempt are wiped with it
      have hrec : OnRecord (clearLatch true w) := {
        state := h.state
        latch := rfl
        saved := h.saved
        untouched := fun hnone => absurd hnone (Option.some_ne_none _)
        applied := h.applied
        stopping := h.stopping
        owed := fun ho => absurd (howed.symm.trans ho) (by simp)
        justified := ⟨⟨hcycle, hopen⟩, h.justified⟩ }
      exact consistent_pauseCheck hrec hcycle ((readState_cons rfl).mpr hread)
        ((handled_cons rfl (by simp) rfl rfl).mpr hdone) herror

theorem consistent_closeAll {state : RunState} {w : ControlWorld γ} (h : Consistent w)
    (hphase : w.phase = .closing state) :
    Consistent { w with phase := .clearing state, history := .closedAll :: w.history } := by
  have hcycle : inCycle w.history = true := h.holdsLock (by simp [hphase])
  have hok := h.phase
  rw [hphase] at hok
  obtain ⟨hopen, howed, hread, hdone, herror⟩ := hok
  exact h.advance ⟨rfl, rfl, rfl, rfl, rfl, rfl⟩ (by simpa [inCycle] using hcycle)
    ⟨hopen, howed, (readState_cons rfl).mpr hread,
      (handled_cons rfl (by simp) rfl rfl).mpr hdone, herror⟩ trivial

theorem consistent_reconcile {w : ControlWorld γ} (h : Consistent w)
    (hphase : w.phase = .reconciling) (todo : List RunKey) :
    Consistent (endCycle { w with history := .reconciled :: w.history }) ∧
      Consistent { w with
        phase := .trading todo none
        history := .reconciled :: w.history } := by
  have hcycle : inCycle w.history = true := h.holdsLock (by simp [hphase])
  have hok := h.phase
  rw [hphase] at hok
  obtain ⟨hmay, herror⟩ := hok
  have silent : Silent .reconciled w.history := ⟨rfl, rfl, rfl, rfl, rfl, rfl⟩
  constructor
  · exact consistent_endCycle (h.record silent ⟨hcycle, hmay⟩ w.phase) hcycle
      ((handled_cons rfl (by simp) rfl rfl).mpr hmay.toHandled)
  · exact h.advance silent (by simpa [inCycle] using hcycle)
      ⟨(mayTrade_cons rfl (by simp) rfl rfl).mpr hmay, herror.symm⟩ ⟨hcycle, hmay⟩

theorem consistent_run {key : RunKey} {todo : List RunKey} {cycleError : Option String}
    {w : ControlWorld γ} (h : Consistent w) (hphase : w.phase = .trading (key :: todo) cycleError)
    (report : RunReport) :
    Consistent { w with
      phase := .trading todo (errorAfter key report cycleError)
      history := .ran key report :: w.history } := by
  have hcycle : inCycle w.history = true := h.holdsLock (by simp [hphase])
  have hok := h.phase
  rw [hphase] at hok
  obtain ⟨hmay, rfl⟩ := hok
  exact h.advance ⟨rfl, rfl, rfl, rfl, rfl, rfl⟩ (by simpa [inCycle] using hcycle)
    ⟨(mayTrade_cons rfl (by simp) rfl rfl).mpr hmay, rfl⟩ ⟨hcycle, hmay⟩

theorem consistent_beat {cycleError : Option String} {w : ControlWorld γ} (h : Consistent w)
    (hphase : w.phase = .beating cycleError) (ok : Bool) (now : Time) :
    Consistent (endCycle
      (recordHealth ok now cycleError { w with history := .beat cycleError :: w.history })) := by
  have hcycle : inCycle w.history = true := h.holdsLock (by simp [hphase])
  have hok := h.phase
  rw [hphase] at hok
  obtain ⟨hdone, herror⟩ := hok
  have hrec : OnRecord (recordHealth ok now cycleError
      { w with history := .beat cycleError :: w.history }) := by
    cases ok with
    | false =>
        exact ⟨h.state, h.latch, h.saved, h.untouched, h.applied, h.stopping, h.owed,
          ⟨hcycle, hdone, herror⟩, h.justified⟩
    | true =>
        exact ⟨h.state, h.latch, h.saved,
          fun hnone => absurd hnone (Option.some_ne_none _), h.applied, h.stopping,
          h.owed, ⟨hcycle, hdone, herror⟩, h.justified⟩
  have hbeat : Handled (.beat cycleError :: w.history) :=
    (handled_cons rfl (by simp) rfl rfl).mpr hdone
  refine consistent_endCycle hrec ?_ ?_
  · cases ok <;> exact hcycle
  · cases ok <;> exact hbeat

theorem consistent_guard {w : ControlWorld γ} (h : Consistent w) (hphase : w.phase = .guarding) :
    Consistent { w with phase := .beating none, history := .marketClosed :: w.history } ∧
      Consistent { w with phase := .reconciling } := by
  have hcycle : inCycle w.history = true := h.holdsLock (by simp [hphase])
  have hok := h.phase
  rw [hphase] at hok
  obtain ⟨hmay, herror⟩ := hok
  constructor
  · exact h.advance ⟨rfl, rfl, rfl, rfl, rfl, rfl⟩ (by simpa [inCycle] using hcycle)
      ⟨(handled_cons rfl (by simp) rfl rfl).mpr hmay.toHandled, herror.symm⟩ ⟨hcycle, hmay⟩
  · exact h.turn (by simpa using hcycle) ⟨hmay, herror⟩

theorem consistent_step (apply : Option String → γ → Except PyError Unit × γ)
    (runs : γ → List RunKey) (i : ControlInput γ) (w : ControlWorld γ) (h : Consistent w) :
    Consistent (controlStep apply runs i w) := by
  unfold controlStep
  split
  case h_1 _ c => exact consistent_command c h
  case h_2 hidle =>
    split_ifs with hstop
    · exact h
    · exact consistent_tick h hidle (by simpa using hstop)
  case h_3 ok hphase => exact consistent_readControl apply ok h hphase
  case h_4 hphase => exact h.endCycle (by simp [hphase]) (by simp [hphase])
  case h_5 state hphase => exact consistent_closeAll h hphase
  case h_6 ok state hphase => exact consistent_clearLatch ok h hphase
  case h_7 hphase => exact h.endCycle (by simp [hphase]) (by simp [hphase])
  case h_8 hphase => exact (consistent_guard h hphase).1
  case h_9 hphase => exact (consistent_guard h hphase).2
  case h_10 hphase => exact (consistent_reconcile h hphase []).1
  case h_11 hphase => exact (consistent_reconcile h hphase _).2
  case h_12 report key todo cycleError hphase => exact consistent_run h hphase report
  case h_13 report cycleError hphase =>
    have hcycle : inCycle w.history = true := h.holdsLock (by simp [hphase])
    have hok := h.phase
    rw [hphase] at hok
    exact h.turn (by simpa using hcycle) ⟨hok.1.toHandled, hok.2⟩
  case h_14 ok now cycleError hphase => exact consistent_beat h hphase ok now
  case h_15 todo cycleError hphase =>
    split_ifs
    · exact h.endCycle (by simp [hphase]) (by simp [hphase])
    · exact h
  case h_16 => exact consistent_stop h
  case h_17 => exact consistent_restart h _
  case h_18 => exact h

theorem consistent_initial (live : γ) : Consistent (ControlWorld.initial live) where
  state := rfl
  latch := rfl
  saved := rfl
  untouched := fun _ => rfl
  applied := rfl
  stopping := rfl
  owed := fun ho => absurd ho (by simp [ControlWorld.initial, owed])
  justified := trivial
  cycle := by simp [ControlWorld.initial, inCycle]
  phase := trivial

theorem consistent_reachable (apply : Option String → γ → Except PyError Unit × γ)
    (runs : γ → List RunKey) (inputs : List (ControlInput γ)) (live : γ) :
    Consistent (Lib.run (controlStep apply runs) inputs (ControlWorld.initial live)) :=
  run_invariant (consistent_step apply runs) inputs (consistent_initial live)

/-! ## The close-all latch -/

theorem latchOf_split {history : List ControlEvent} (h : latchOf history = true) :
    ∃ mid earlier, history = mid ++ .command .closeAll :: earlier ∧
      ControlEvent.latchCleared ∉ mid := by
  fun_induction latchOf history with
  | case1 => simp at h
  | case2 older => exact ⟨[], older, rfl, by simp⟩
  | case3 => simp at h
  | case4 e older hclose hclear ih =>
      obtain ⟨mid, earlier, rfl, hmid⟩ := ih h
      refine ⟨e :: mid, earlier, rfl, ?_⟩
      intro hmem
      rcases List.mem_cons.mp hmem with rfl | hmem
      · exact hclear rfl
      · exact hmid hmem

/-- A request outside an attempt stays owed until an attempt begins. -/
theorem owed_of_request {newer older : List ControlEvent}
    (hnew : ControlEvent.closingAll ∉ newer) (hopen : attemptOpen older = false) :
    owed (newer ++ .command .closeAll :: older) = true := by
  induction newer with
  | nil => simp [owed, hopen]
  | cons e newer ih =>
      have hrest := ih fun hmem => hnew (List.mem_cons_of_mem _ hmem)
      have hne : e ≠ .closingAll := fun he => hnew (he ▸ List.mem_cons_self ..)
      rw [List.cons_append]
      cases e with
      | closingAll => exact absurd rfl hne
      | command c =>
          cases c with
          | closeAll => simp [owed, hrest]
          | setState state => exact hrest
          | setConfig raw => exact hrest
      | _ => exact hrest

/-- The part of a cycle that comes after the control plane, and its end. -/
def ControlEvent.afterControl : ControlEvent → Bool
  | .marketClosed | .reconciled | .ran _ _ | .beat _ | .ended => true
  | _ => false

theorem Guarded.latchServed {e : ControlEvent} {older : List ControlEvent}
    (h : Guarded e older) (he : e.afterControl = true) : LatchServed older := by
  cases e with
  | marketClosed => exact h.2.latch
  | reconciled => exact h.2.latch
  | ran key report => exact h.2.latch
  | beat cycleError => exact h.2.1.latch
  | ended => exact h.2.latch
  | _ => simp [ControlEvent.afterControl] at he

/-- **No close-all is lost, and none is made up.** Whatever the operator, the failures and the
restarts do between two steps of a cycle: a request that does not come during an attempt is
followed by an attempt or still latched, every attempt was requested since the latch was last
cleared, and a cycle whose read shows the latch does nothing else before its attempt. -/
theorem close_all_served (apply : Option String → γ → Except PyError Unit × γ)
    (runs : γ → List RunKey) (inputs : List (ControlInput γ)) (live : γ) :
    let w := Lib.run (controlStep apply runs) inputs (ControlWorld.initial live)
    (∀ newer older, w.history = newer ++ .command .closeAll :: older → attemptOpen older = false →
        .closingAll ∈ newer ∨ ∃ row, w.row = some row ∧ row.closeAllRequested = true) ∧
      (∀ newer older, w.history = newer ++ .closingAll :: older →
        ∃ mid earlier, older = mid ++ .command .closeAll :: earlier ∧ .latchCleared ∉ mid) ∧
      ∀ newer e older, w.history = newer ++ e :: older → e.afterControl = true →
        LatchServed older := by
  intro w
  have h : Consistent w := consistent_reachable apply runs inputs live
  refine ⟨?_, ?_, ?_⟩
  · intro newer older hsplit hopen
    by_cases hnew : ControlEvent.closingAll ∈ newer
    · exact .inl hnew
    · right
      have howed : owed w.history = true := by
        rw [hsplit]
        exact owed_of_request hnew hopen
      have hlatch := h.latch.trans (h.owed howed)
      cases hrow : w.row with
      | none => simp [hrow, AgentControl.new] at hlatch
      | some row => exact ⟨row, rfl, by simpa [hrow] using hlatch⟩
  · intro newer older hsplit
    exact latchOf_split ((justified_iff _).mp h.justified newer _ older hsplit).2
  · intro newer e older hsplit he
    exact ((justified_iff _).mp h.justified newer e older hsplit).latchServed he

/-! ## What a cycle trades under -/

/-- The live objects are what the newest application of overrides left, in a cycle or at the start
of the process, where those that were saved are applied if they could be read. -/
def InForce (apply : Option String → γ → Except PyError Unit × γ) (first : γ) (live : γ) :
    List ControlEvent → Prop
  | [] => live = first
  | .applied raw :: _ => ∃ before, apply raw before = (.ok (), live)
  | .rejected raw :: _ => ∃ before e, apply raw before = (.error e, live)
  | .restarted :: older => ∃ fresh, live = fresh ∨
      ∃ raw, overridesSaved older = some raw ∧ live = (apply (some raw) fresh).2
  | _ :: older => InForce apply first live older

section InForce

variable {apply : Option String → γ → Except PyError Unit × γ} {runs : γ → List RunKey}
  {first : γ}

theorem inForce_syncOverrides (raw : Option String) {w : ControlWorld γ}
    (h : InForce apply first w.live w.history) :
    InForce apply first (syncOverrides apply raw w).live (syncOverrides apply raw w).history := by
  unfold syncOverrides
  split_ifs
  · exact h
  · split
    next _ live happly => exact ⟨w.live, happly⟩
    next e live happly => exact ⟨w.live, e, happly⟩

theorem inForce_readControl (ok : Bool) {w : ControlWorld γ}
    (h : InForce apply first w.live w.history) :
    InForce apply first (readControl apply ok w).live (readControl apply ok w).history := by
  unfold readControl
  split
  · exact h
  · exact h
  next control _ =>
    have hsync := inForce_syncOverrides control.overrides
      (w := { w with history := .read :: w.history }) h
    unfold handleControl beginCloseAll
    split
    · exact hsync
    · unfold pauseCheck
      split <;> exact hsync

theorem inForce_startUp (fresh : γ) (ok : Bool) {w : ControlWorld γ} (h : Consistent w) :
    InForce apply first (startUp apply fresh ok w.row) (.restarted :: w.history) := by
  refine ⟨fresh, ?_⟩
  unfold startUp
  split
  next raw hraw =>
    obtain ⟨row, hrow, hsaved⟩ := Option.bind_eq_some_iff.mp hraw
    refine .inr ⟨raw, ?_, rfl⟩
    rw [← h.saved, hrow, Option.getD_some, hsaved]
  · exact .inl rfl

theorem inForce_step (i : ControlInput γ) {w : ControlWorld γ} (hw : Consistent w)
    (h : InForce apply first w.live w.history) :
    InForce apply first (controlStep apply runs i w).live (controlStep apply runs i w).history := by
  unfold controlStep
  split
  case h_2 => split_ifs <;> exact h
  case h_3 ok _ => exact inForce_readControl ok h
  case h_6 ok state _ => cases ok <;> cases state <;> exact h
  case h_14 ok _ _ _ => cases ok <;> exact h
  case h_15 => split_ifs <;> exact h
  case h_17 _ fresh ok => exact inForce_startUp fresh ok hw
  all_goals exact h

end InForce

/-- The moves of a cycle that finds overrides and a latched close-all, up to its first decision
loop; a pause that comes during the close-all leaves the cycle trading. -/
def closeAllCycle : List (ControlInput (Option String)) :=
  [.command (.setConfig (some "cap")), .command .closeAll, .tick, .read true,
    .command (.setState .paused), .closeAll false, .clear true, .guard (.ok none),
    .reconcile false]

/-- A report that leaves the cycle's error as it was. -/
def RunReport.clean : RunReport → Bool
  | .skipped => true
  | .finished none none none => true
  | _ => false

theorem errorAfter_clean {report : RunReport} (h : report.clean = true) (key : RunKey)
    (cycleError : Option String) : errorAfter key report cycleError = cycleError := by
  unfold RunReport.clean at h
  split at h
  · rfl
  · rfl
  · simp at h

theorem errorAfter_ne_none {report : RunReport} (h : report.clean = false) (key : RunKey)
    (cycleError : Option String) : errorAfter key report cycleError ≠ none := by
  cases report with
  | skipped => simp [RunReport.clean] at h
  | raised exc => exact Option.some_ne_none _
  | finished error fallback post =>
      cases post with
      | some exc => exact Option.some_ne_none _
      | none =>
          cases error with
          | some error => exact Option.some_ne_none _
          | none =>
              cases fallback with
              | some reasoning => exact Option.some_ne_none _
              | none => simp [RunReport.clean] at h

/-- The decision loops of the cycle under way were all clean. -/
def CleanCycle (history : List ControlEvent) : Prop :=
  ∀ mid key report earlier, history = mid ++ .ran key report :: earlier →
    .started ∉ mid → .restarted ∉ mid → report.clean = true

theorem cleanCycle_cons {e : ControlEvent} {older : List ControlEvent} (hstart : e ≠ .started)
    (hrestart : e ≠ .restarted) :
    CleanCycle (e :: older) ↔
      (∀ key report, e = .ran key report → report.clean = true) ∧ CleanCycle older := by
  constructor
  · intro h
    constructor
    · rintro key report rfl
      exact h [] key report older rfl (by simp) (by simp)
    · intro mid key report earlier hsplit hs hr
      refine h (e :: mid) key report earlier (by rw [hsplit, List.cons_append]) ?_ ?_
      · simpa [hstart.symm] using hs
      · simpa [hrestart.symm] using hr
  · rintro ⟨hhead, htail⟩ mid key report earlier hsplit hs hr
    cases mid with
    | nil => exact hhead key report (List.cons.inj hsplit).1
    | cons x mid =>
        obtain ⟨rfl, hrest⟩ := List.cons.inj hsplit
        exact htail mid key report earlier hrest (fun hmem => hs (List.mem_cons_of_mem _ hmem))
          fun hmem => hr (List.mem_cons_of_mem _ hmem)

theorem cleanCycle_of_start {e : ControlEvent} {older : List ControlEvent}
    (he : e = .started ∨ e = .restarted) : CleanCycle (e :: older) := by
  intro mid key report earlier hsplit hs hr
  cases mid with
  | nil =>
      have hhead := (List.cons.inj hsplit).1
      rcases he with rfl | rfl <;> cases hhead
  | cons x mid =>
      obtain ⟨rfl, -⟩ := List.cons.inj hsplit
      rcases he with rfl | rfl
      · exact absurd (List.mem_cons_self ..) hs
      · exact absurd (List.mem_cons_self ..) hr

theorem errorOf_eq_none_iff (history : List ControlEvent) :
    errorOf history = none ↔ CleanCycle history := by
  induction history with
  | nil => simp [errorOf, CleanCycle]
  | cons e older ih =>
      cases e with
      | started => exact ⟨fun _ => cleanCycle_of_start (.inl rfl), fun _ => rfl⟩
      | restarted => exact ⟨fun _ => cleanCycle_of_start (.inr rfl), fun _ => rfl⟩
      | ran key report =>
          rw [cleanCycle_cons (by simp) (by simp)]
          cases hclean : report.clean with
          | true =>
              have herr : errorOf (.ran key report :: older) = errorOf older :=
                errorAfter_clean hclean key _
              rw [herr, ih]
              constructor
              · intro h
                refine ⟨?_, h⟩
                rintro key' report' heq
                cases heq
                exact hclean
              · exact fun h => h.2
          | false =>
              refine ⟨fun h => absurd h (errorAfter_ne_none hclean key _), ?_⟩
              intro h
              have htrue := h.1 key report rfl
              rw [hclean] at htrue
              cases htrue
      | _ =>
          rw [cleanCycle_cons (by simp) (by simp)]
          exact ⟨fun h => ⟨by simp, ih.mp h⟩, fun h => ih.mpr h.2⟩

/-- **The heartbeat tells of every failure.** A cycle that gets to its heartbeat writes no error
exactly when each of its decision loops was clean. -/
theorem heartbeat_clean_iff (apply : Option String → γ → Except PyError Unit × γ)
    (runs : γ → List RunKey) (inputs : List (ControlInput γ)) (live : γ)
    (newer older : List ControlEvent) (cycleError : Option String)
    (hbeat : (Lib.run (controlStep apply runs) inputs (ControlWorld.initial live)).history
      = newer ++ .beat cycleError :: older) :
    cycleError = none ↔ CleanCycle older := by
  have h := consistent_reachable apply runs inputs live
  have hguard := (justified_iff _).mp h.justified newer _ older hbeat
  rw [hguard.2.2]
  exact errorOf_eq_none_iff older

/-- An outage of the LLM shows on the heartbeat. -/
theorem heartbeat_clean_iff_fallback :
    some "BTC/USDT: LLM unavailable — fallback HOLD (down)" = (none : Option String) ↔
      CleanCycle [.ran ⟨"BTC/USDT", none⟩ (.finished none (some "down") none), .reconciled, .read,
        .started] :=
  heartbeat_clean_iff (fun _ live => (.ok (), live)) (fun _ => [⟨"BTC/USDT", none⟩])
    [.tick, .read true, .guard (.ok none), .reconcile false, .run (.finished none (some "down") none),
      .run .skipped, .beat true 0] () [.ended] _ _ (by decide)

/-! ## The limits in force -/

/-- The overrides applier that the runner installs. -/
def ControlledRunner.applyRaw (parse : String → Except PyError (Option SafeConfigOverrides))
    (raw : Option String) (r : ControlledRunner) : Except PyError Unit × ControlledRunner :=
  let applied := r.applyBlob (match raw with
    | none => .ok none
    | some raw => parse raw)
  (applied.1.map fun _ => (), applied.2)

theorem tight_applyRaw {baseline : RiskSettings}
    (parse : String → Except PyError (Option SafeConfigOverrides)) (raw : Option String)
    {r : ControlledRunner} (h : Tight baseline r) : Tight baseline (r.applyRaw parse raw).2 :=
  tight_afterBlob _ h

section Live

variable {apply : Option String → γ → Except PyError Unit × γ} {runs : γ → List RunKey}
  {I : γ → Prop}

theorem live_readControl (happly : ∀ raw c, I c → I (apply raw c).2) (ok : Bool)
    {w : ControlWorld γ} (h : I w.live) : I (readControl apply ok w).live := by
  have hsync : ∀ raw w, I w.live → I (syncOverrides apply raw w : ControlWorld γ).live := by
    intro raw w h
    have hnew := happly raw w.live h
    unfold syncOverrides
    split_ifs
    · exact h
    · split
      · next hres => simpa [hres] using hnew
      · next hres => simpa [hres] using hnew
  unfold readControl
  split
  · exact h
  · exact h
  · next control _ =>
      have hgo := hsync control.overrides { w with history := .read :: w.history } h
      unfold handleControl beginCloseAll
      split
      · exact hgo
      · unfold pauseCheck
        split <;> exact hgo

/-- What every blob keeps and every start of a process establishes holds of the live objects. -/
theorem live_step (happly : ∀ raw c, I c → I (apply raw c).2) (i : ControlInput γ)
    (hfresh : ∀ fresh ok, i = .restart fresh ok → I fresh) {w : ControlWorld γ} (h : I w.live) :
    I (controlStep apply runs i w).live := by
  unfold controlStep
  split
  case h_2 => split_ifs <;> exact h
  case h_3 ok _ => exact live_readControl happly ok h
  case h_6 ok state _ => cases ok <;> cases state <;> exact h
  case h_14 ok _ _ _ => cases ok <;> exact h
  case h_15 => split_ifs <;> exact h
  case h_17 _ fresh ok =>
    have hstart := hfresh fresh ok rfl
    show I (startUp apply fresh ok w.row)
    unfold startUp
    split
    · exact happly _ _ hstart
    · exact hstart
  all_goals exact h

end Live

/-- **The file's limits bound every cycle.** However commands, cycles, failures and restarts on one
config file interleave, the live limits are at least as strict as the file's and every sleeve's
engine as the sleeve's own values. -/
theorem limits_bound_cycles (parse : String → Except PyError (Option SafeConfigOverrides))
    (runs : ControlledRunner → List RunKey) (file : ConfigFile)
    (inputs : List (ControlInput ControlledRunner)) (live : ControlledRunner)
    (hlive : ∃ component paper sleeves, live = .start file component paper sleeves)
    (hfresh : ∀ fresh ok, .restart fresh ok ∈ inputs →
      ∃ component paper sleeves, fresh = .start file component paper sleeves) :
    Tight file.risk
      (Lib.run (controlStep (fun raw r => r.applyRaw parse raw) runs) inputs
        (ControlWorld.initial live)).live := by
  have htight : ∀ r : ControlledRunner,
      (∃ component paper sleeves, r = .start file component paper sleeves) →
        Tight file.risk r := by
    rintro r ⟨component, paper, sleeves, rfl⟩
    exact tight_start file component paper sleeves
  have hrun : ∀ w : ControlWorld ControlledRunner, Tight file.risk w.live →
      Tight file.risk
        (Lib.run (controlStep (fun raw r => r.applyRaw parse raw) runs) inputs w).live := by
    clear hlive
    induction inputs with
    | nil => exact fun w h => h
    | cons i rest ih =>
        intro w h
        refine ih (fun fresh ok hmem => hfresh fresh ok (List.mem_cons_of_mem _ hmem)) _ ?_
        refine live_step (I := Tight file.risk) (fun raw c hc => tight_applyRaw parse raw hc) i ?_ h
        rintro fresh ok rfl
        exact htight fresh (hfresh fresh ok (List.mem_cons_self ..))
  exact hrun _ (htight live hlive)

/-- A tighter cap that a cycle applies, and a restart that drops it. -/
theorem limits_bound_cycles_restart :
    Tight shippedFile.risk
      (Lib.run (controlStep
        (fun raw r => r.applyRaw (fun _ => .ok (some (positionCap (1 / 10) (by norm_num)))) raw)
        fun _ => [])
        [.command (.setConfig (some "cap")), .tick, .read true,
          .restart (.start shippedFile "crypto" true []) false]
        (ControlWorld.initial (.start shippedFile "crypto" true []))).live := by
  refine limits_bound_cycles (fun _ => .ok (some (positionCap (1 / 10) (by norm_num)))) (fun _ => [])
    shippedFile _ _ ⟨"crypto", true, [], rfl⟩ ?_
  intro fresh ok hmem
  simp only [List.mem_cons, List.not_mem_nil, or_false, reduceCtorEq, false_or,
    ControlInput.restart.injEq] at hmem
  exact ⟨"crypto", true, [], hmem.1⟩

end SmartyTrader
