import SmartyTrader.Core.Models
import SmartyTrader.Lib.History
import SmartyTrader.Lib.Lines
import SmartyTrader.Lib.Runs

set_option autoImplicit false

/-! # The calls to the language model

The trading client and the summarizer's ask one local server, which runs one generation at a time.
A call makes up to `max_retries` attempts, each of them one request that first waits for the lock
the clients share, and waits in between; a shutdown may come at any point of it.

`one_generation_at_a_time` is about the lock, `nothing_after_shutdown` and `shutdown_cancels` about
the shutdown, `call_outcome` about the attempts of a call.
-/

namespace SmartyTrader

open Lib

/-- The fields of the LLM block that the calls read. -/
structure LlmCallSettings where
  /-- As `range(1, max_retries + 1)` counts. -/
  maxRetries : ℕ
  maxTokens : ℕ
  retryBackoffBase : ℚ
  /-- `cancel_path` is set. -/
  cancellable : Bool

/-- `max_response_chars` -/
def LlmCallSettings.maxResponseChars (settings : LlmCallSettings) : ℕ := 4 * settings.maxTokens

/-- The `usage` of a completion, after `_optional_int`. -/
structure TokenUsage where
  promptTokens : Option ℤ
  completionTokens : Option ℤ
  deriving DecidableEq

structure LLMCallMetrics where
  latencyMs : ℚ
  promptTokens : Option ℤ
  completionTokens : Option ℤ
  attempts : ℕ
  deriving DecidableEq

/-- What becomes of a request: an exception of the transport or of the status, or a completion. -/
inductive LlmReply where
  | failed (err : PyError)
  | completion (content : Text) (usage : TokenUsage)

abbrev ClientId := ℕ

abbrev CallId := ℕ

/-- A generation: a call and the number of its attempt. -/
abbrev Generation := CallId × ℕ

/-- `ask_trade_signal` or `ask_json`. -/
inductive CallPurpose where
  | tradeSignal
  | json
  deriving DecidableEq

section World

variable {S : Type}

inductive CallOutcome (S : Type) where
  | answered (answer : S)
  /-- The fallback, or `None` of `ask_json`. -/
  | exhausted (lastError : Option PyError)
  /-- `CancelledError`. -/
  | cancelled

inductive CallPhase (S : Type) where
  | queued
  | posted
  | backingOff
  | done (outcome : CallOutcome S)

structure LlmCall (S : Type) where
  client : ClientId
  purpose : CallPurpose
  attempt : ℕ
  phase : CallPhase S
  /-- What came of the attempts, the newest first. -/
  results : List (Except PyError S)
  /-- The backoff so far. -/
  slept : ℚ

structure LlmClientState where
  /-- `_closing` -/
  closing : Bool
  /-- `_inflight` -/
  inflight : List Generation
  /-- What `cancel_inflight` has still to cancel. -/
  cancelling : List Generation
  lastMetrics : Option LLMCallMetrics

inductive LlmEvent (S : Type) where
  | posted (client : ClientId) (g : Generation)
  | finished (client : ClientId) (k : CallId) (outcome : CallOutcome S)
  | cancelSent (g : Generation)
  | closed (client : ClientId)

structure LlmWorld (S : Type) where
  calls : CallId → Option (LlmCall S)
  clients : ClientId → LlmClientState
  /-- Who holds the shared lock. -/
  holder : Option CallId
  /-- The newest event first. -/
  history : List (LlmEvent S)

inductive LlmInput where
  | ask (k : CallId) (client : ClientId) (purpose : CallPurpose)
  /-- The lock comes to a waiting call. -/
  | acquire (k : CallId)
  | reply (k : CallId) (reply : LlmReply) (elapsed : ℚ)
  | wake (k : CallId)
  /-- The task of the call is cancelled. -/
  | cancelTask (k : CallId)
  /-- `cancel_inflight` -/
  | shutdown (client : ClientId)
  | sendCancel (client : ClientId)

variable (settings : ClientId → LlmCallSettings) (locked : Bool)
  (parse : CallPurpose → Text → Except PyError S)

def LlmWorld.setCall (w : LlmWorld S) (k : CallId) (call : LlmCall S) : LlmWorld S :=
  { w with calls := Function.update w.calls k (some call) }

def LlmWorld.setClient (w : LlmWorld S) (client : ClientId) (state : LlmClientState) :
    LlmWorld S :=
  { w with clients := Function.update w.clients client state }

/-- The call ends. -/
def finishCall (k : CallId) (call : LlmCall S) (outcome : CallOutcome S) (w : LlmWorld S) :
    LlmWorld S :=
  { w.setCall k { call with phase := .done outcome } with
    history := .finished call.client k outcome :: w.history }

/-- `_inflight.discard` -/
def discard (client : ClientId) (g : Generation) (w : LlmWorld S) : LlmWorld S :=
  w.setClient client
    { w.clients client with inflight := (w.clients client).inflight.filter (· ≠ g) }

/-- `_send_cancel` -/
def sendCancel (client : ClientId) (g : Generation) (w : LlmWorld S) : LlmWorld S :=
  let w := discard client g w
  if (settings client).cancellable then { w with history := .cancelSent g :: w.history } else w

/-- `_chat`, up to the lock. -/
def beginAttempt (k : CallId) (call : LlmCall S) (w : LlmWorld S) : LlmWorld S :=
  if (w.clients call.client).closing then finishCall k call .cancelled w
  else
    (w.setClient call.client
      { w.clients call.client with
        inflight := (k, call.attempt) :: (w.clients call.client).inflight }).setCall k
      { call with phase := .queued }

/-- `last_metrics` belongs to the trade decisions. -/
def recordMetrics (call : LlmCall S) (metrics : LLMCallMetrics) (w : LlmWorld S) : LlmWorld S :=
  match call.purpose with
  | .json => w
  | .tradeSignal =>
      w.setClient call.client { w.clients call.client with lastMetrics := some metrics }

/-- A call starts; without a single attempt it is exhausted at once, in no time. -/
def askCall (k : CallId) (client : ClientId) (purpose : CallPurpose) (w : LlmWorld S) :
    LlmWorld S :=
  let call : LlmCall S := ⟨client, purpose, 1, .queued, [], 0⟩
  if (settings client).maxRetries = 0 then
    finishCall k { call with attempt := 0 } (.exhausted none)
      (recordMetrics call ⟨0, none, none, 0⟩ w)
  else beginAttempt k call w

/-- The handler of `CancelledError` around the request: the server is told once. -/
def unwind (k : CallId) (call : LlmCall S) (w : LlmWorld S) : LlmWorld S :=
  let g : Generation := (k, call.attempt)
  finishCall k call .cancelled
    (if g ∈ (w.clients call.client).inflight then sendCancel settings call.client g w else w)

/-- The request goes out, unless the shutdown began while the call was waiting. -/
def acquireLock (k : CallId) (call : LlmCall S) (w : LlmWorld S) : LlmWorld S :=
  if locked ∧ w.holder ≠ none then w
  else if (w.clients call.client).closing then unwind settings k call w
  else
    { w.setCall k { call with phase := .posted } with
      holder := if locked then some k else none
      history := .posted call.client (k, call.attempt) :: w.history }

/-- The size guard and the parser, on a completion. -/
def attemptResult (limits : LlmCallSettings) (purpose : CallPurpose) :
    LlmReply → Except PyError S
  | .failed err => .error err
  | .completion content _ =>
      if content.length > limits.maxResponseChars then
        .error (.raised
          s!"LLM response too large: {content.length} chars > limit {limits.maxResponseChars}")
      else parse purpose content

def LlmReply.usage : LlmReply → TokenUsage
  | .failed _ => ⟨none, none⟩
  | .completion _ usage => usage

/-- The attempt is over: the answer, the next attempt after its backoff, or the end. -/
def afterAttempt (k : CallId) (call : LlmCall S) (reply : LlmReply) (elapsed : ℚ)
    (w : LlmWorld S) : LlmWorld S :=
  let limits := settings call.client
  match attemptResult parse limits call.purpose reply with
  | .ok answer =>
      let metrics : LLMCallMetrics :=
        ⟨elapsed, reply.usage.promptTokens, reply.usage.completionTokens, call.attempt⟩
      let call := { call with results := .ok answer :: call.results }
      finishCall k call (.answered answer) (recordMetrics call metrics w)
  | .error err =>
      let call := { call with results := .error err :: call.results }
      if call.attempt < limits.maxRetries then
        if limits.retryBackoffBase = 0 then
          beginAttempt k { call with attempt := call.attempt + 1 } w
        else
          let delay := limits.retryBackoffBase * 2 ^ (call.attempt - 1)
          w.setCall k { call with phase := .backingOff, slept := call.slept + delay }
      else
        finishCall k call (.exhausted (some err))
          (recordMetrics call ⟨elapsed, none, none, limits.maxRetries⟩ w)

/-- The answer is in: nothing of it counts once the client is closing. -/
def receiveReply (k : CallId) (call : LlmCall S) (reply : LlmReply) (elapsed : ℚ)
    (w : LlmWorld S) : LlmWorld S :=
  let w := discard call.client (k, call.attempt) { w with holder := none }
  if (w.clients call.client).closing then finishCall k call .cancelled w
  else afterAttempt settings parse k call reply elapsed w

/-- One step; a move that is not possible changes nothing. -/
def llmStep (i : LlmInput) (w : LlmWorld S) : LlmWorld S :=
  match i with
  | .ask k client purpose =>
      match w.calls k with
      | some _ => w
      | none => askCall settings k client purpose w
  | .acquire k =>
      match w.calls k with
      | some call =>
          match call.phase with
          | .queued => acquireLock settings locked k call w
          | _ => w
      | none => w
  | .reply k reply elapsed =>
      match w.calls k with
      | some call =>
          match call.phase with
          | .posted => receiveReply settings parse k call reply elapsed w
          | _ => w
      | none => w
  | .wake k =>
      match w.calls k with
      | some call =>
          match call.phase with
          | .backingOff => beginAttempt k { call with attempt := call.attempt + 1 } w
          | _ => w
      | none => w
  | .cancelTask k =>
      match w.calls k with
      | some call =>
          match call.phase with
          | .done _ => w
          | .backingOff => finishCall k call .cancelled w
          | .queued => unwind settings k call w
          | .posted => unwind settings k call { w with holder := none }
      | none => w
  | .shutdown client =>
      let state := w.clients client
      { w.setClient client
          { state with
            closing := true
            cancelling := state.cancelling ++ state.inflight } with
        history := .closed client :: w.history }
  | .sendCancel client =>
      match (w.clients client).cancelling with
      | [] => w
      | g :: rest =>
          sendCancel settings client g
            (w.setClient client { w.clients client with cancelling := rest })

/-- No call yet. -/
def LlmWorld.initial : LlmWorld S where
  calls := fun _ => none
  clients := fun _ => ⟨false, [], [], none⟩
  holder := none
  history := []

/-! ## What the parts of a step change -/

section Fields

variable {settings locked parse} {k : CallId} {call : LlmCall S} {w : LlmWorld S}

@[simp] theorem setCall_calls : (w.setCall k call).calls = Function.update w.calls k (some call) :=
  rfl

@[simp] theorem setCall_clients : (w.setCall k call).clients = w.clients := rfl

@[simp] theorem setCall_holder : (w.setCall k call).holder = w.holder := rfl

@[simp] theorem setCall_history : (w.setCall k call).history = w.history := rfl

@[simp] theorem finishCall_calls (outcome : CallOutcome S) : (finishCall k call outcome w).calls
    = Function.update w.calls k (some { call with phase := .done outcome }) := rfl

@[simp] theorem finishCall_clients (outcome : CallOutcome S) :
    (finishCall k call outcome w).clients = w.clients := rfl

@[simp] theorem finishCall_holder (outcome : CallOutcome S) :
    (finishCall k call outcome w).holder = w.holder := rfl

@[simp] theorem finishCall_history (outcome : CallOutcome S) :
    (finishCall k call outcome w).history = .finished call.client k outcome :: w.history := rfl

variable {client : ClientId} {g : Generation}

@[simp] theorem setClient_calls (state : LlmClientState) :
    (w.setClient client state).calls = w.calls := rfl

@[simp] theorem setClient_holder (state : LlmClientState) :
    (w.setClient client state).holder = w.holder := rfl

@[simp] theorem setClient_history (state : LlmClientState) :
    (w.setClient client state).history = w.history := rfl

@[simp] theorem setClient_clients (state : LlmClientState) :
    (w.setClient client state).clients = Function.update w.clients client state := rfl

@[simp] theorem discard_calls : (discard client g w).calls = w.calls := rfl

@[simp] theorem discard_holder : (discard client g w).holder = w.holder := rfl

@[simp] theorem discard_history : (discard client g w).history = w.history := rfl

@[simp] theorem discard_closing (c : ClientId) :
    ((discard client g w).clients c).closing = (w.clients c).closing := by
  by_cases hc : c = client
  · subst hc
    simp [discard]
  · simp [discard, hc]

@[simp] theorem sendCancel_calls : (sendCancel settings client g w).calls = w.calls := by
  unfold sendCancel
  dsimp only
  split_ifs <;> rfl

@[simp] theorem sendCancel_holder : (sendCancel settings client g w).holder = w.holder := by
  unfold sendCancel
  dsimp only
  split_ifs <;> rfl

@[simp] theorem sendCancel_clients :
    (sendCancel settings client g w).clients = (discard client g w).clients := by
  unfold sendCancel
  dsimp only
  split_ifs <;> rfl

@[simp] theorem recordMetrics_calls (metrics : LLMCallMetrics) :
    (recordMetrics call metrics w).calls = w.calls := by
  unfold recordMetrics
  split <;> rfl

@[simp] theorem recordMetrics_holder (metrics : LLMCallMetrics) :
    (recordMetrics call metrics w).holder = w.holder := by
  unfold recordMetrics
  split <;> rfl

@[simp] theorem recordMetrics_history (metrics : LLMCallMetrics) :
    (recordMetrics call metrics w).history = w.history := by
  unfold recordMetrics
  split <;> rfl

/-- The metrics touch neither the shutdown nor the generations under way. -/
theorem recordMetrics_same (metrics : LLMCallMetrics) (c : ClientId) :
    ((recordMetrics call metrics w).clients c).closing = (w.clients c).closing ∧
      ((recordMetrics call metrics w).clients c).inflight = (w.clients c).inflight ∧
      ((recordMetrics call metrics w).clients c).cancelling = (w.clients c).cancelling := by
  unfold recordMetrics
  split
  · exact ⟨rfl, rfl, rfl⟩
  · by_cases hc : c = call.client
    · subst hc
      simp
    · simp [hc]

end Fields

/-! ## The invariant -/

/-- The backoff of `n` failed attempts that were followed by another. -/
def backoff (limits : LlmCallSettings) (n : ℕ) : ℚ := limits.retryBackoffBase * (2 ^ n - 1)

def AllFailed (results : List (Except PyError S)) : Prop := ∀ r ∈ results, ∃ err, r = .error err

/-- What a call knows in each of its phases. -/
def CallOk (limits : LlmCallSettings) (call : LlmCall S) : Prop :=
  match call.phase with
  | .queued | .posted => call.attempt = call.results.length + 1 ∧ call.attempt ≤ limits.maxRetries ∧
      AllFailed call.results ∧ call.slept = backoff limits call.results.length
  | .backingOff => call.attempt = call.results.length ∧ call.attempt < limits.maxRetries ∧
      AllFailed call.results ∧ call.slept = backoff limits call.results.length
  | .done (.answered answer) => ∃ failed, call.results = .ok answer :: failed ∧ AllFailed failed ∧
      failed.length < limits.maxRetries ∧ call.attempt = failed.length + 1 ∧
      call.slept = backoff limits failed.length
  | .done (.exhausted lastError) => call.results.length = limits.maxRetries ∧
      AllFailed call.results ∧ call.results.head? = lastError.map .error ∧
      call.attempt = limits.maxRetries ∧ call.slept = backoff limits (limits.maxRetries - 1)
  | .done .cancelled => AllFailed call.results ∧ call.results.length < limits.maxRetries ∧
      call.attempt ≤ limits.maxRetries

/-- The call waits for the lock or for the server. -/
def CallPhase.asking : CallPhase S → Bool
  | .queued | .posted => true
  | _ => false

/-- The server was told to cancel the generation, if it can be told. -/
def Told (client : ClientId) (g : Generation) (w : LlmWorld S) : Prop :=
  (settings client).cancellable = true → .cancelSent g ∈ w.history

/-- Nothing is asked and nothing answered for a client that is closing. -/
def BeforeClosing : LlmEvent S → List (LlmEvent S) → Prop
  | .posted client _, older => .closed client ∉ older
  | .finished client _ (.answered _), older => .closed client ∉ older
  | .finished client _ (.exhausted (some _)), older => .closed client ∉ older
  | _, _ => True

def LlmEvent.postedGeneration : LlmEvent S → Option Generation
  | .posted _ g => some g
  | _ => none

/-- The invariant, but for what the call `free` is in the middle of. -/
structure LlmInv (free : Option CallId) (w : LlmWorld S) : Prop where
  lock : locked = true → ∀ k call, some k ≠ free → w.calls k = some call →
    call.phase = .posted → w.holder = some k
  inflight : ∀ k call, some k ≠ free → w.calls k = some call → call.phase.asking = true →
    (k, call.attempt) ∈ (w.clients call.client).inflight ∨
      Told settings call.client (k, call.attempt) w
  pending : ∀ k call, some k ≠ free → w.calls k = some call → call.phase = .posted →
    (w.clients call.client).closing = true →
      (k, call.attempt) ∈ (w.clients call.client).cancelling ∨
        Told settings call.client (k, call.attempt) w
  calls : ∀ k call, some k ≠ free → w.calls k = some call → CallOk (settings call.client) call
  closing : ∀ c, (w.clients c).closing = true ↔ .closed c ∈ w.history
  issued : ∀ c g, .posted c g ∈ w.history → ∃ call, w.calls g.1 = some call ∧ call.client = c ∧
    1 ≤ g.2 ∧ (g.2 < call.attempt ∨ g.2 = call.attempt ∧ call.phase ≠ .queued)
  once : (w.history.filterMap LlmEvent.postedGeneration).Nodup
  before : Justified BeforeClosing w.history

variable {settings locked parse} {free : Option CallId} {k : CallId} {w : LlmWorld S}

theorem LlmInv.loosen (h : LlmInv settings locked none w) (k : CallId) :
    LlmInv settings locked (some k) w where
  lock := fun hl k' call _ => h.lock hl k' call (by simp)
  inflight := fun k' call _ => h.inflight k' call (by simp)
  pending := fun k' call _ => h.pending k' call (by simp)
  calls := fun k' call _ => h.calls k' call (by simp)
  closing := h.closing
  issued := h.issued
  once := h.once
  before := h.before

/-- The lock is released by the call that held it. -/
theorem LlmInv.release {call : LlmCall S} (h : LlmInv settings locked none w)
    (hcall : w.calls k = some call) (hposted : call.phase = .posted) :
    LlmInv settings locked (some k) { w with holder := none } where
  lock := by
    intro hl k' call' hne hcall' hposted'
    have hk := h.lock hl k call (by simp) hcall hposted
    have hk' := h.lock hl k' call' (by simp) hcall' hposted'
    exact absurd (hk'.symm.trans hk) hne
  inflight := fun k' call' _ => h.inflight k' call' (by simp)
  pending := fun k' call' _ => h.pending k' call' (by simp)
  calls := fun k' call' _ => h.calls k' call' (by simp)
  closing := h.closing
  issued := h.issued
  once := h.once
  before := h.before

theorem LlmInv.forget (h : LlmInv settings locked (some k) w) (client : ClientId) (a : ℕ) :
    LlmInv settings locked (some k) (discard client (k, a) w) where
  lock := h.lock
  inflight := by
    intro k' call hne hcall hask
    refine (h.inflight k' call hne hcall hask).imp_left fun hmem => ?_
    have hkk : k' ≠ k := fun heq => hne (heq ▸ rfl)
    by_cases hc : call.client = client
    · subst hc
      simpa [discard, hkk] using hmem
    · simpa [discard, hc] using hmem
  pending := by
    intro k' call hne hcall hposted hclosing
    rw [discard_closing] at hclosing
    refine (h.pending k' call hne hcall hposted hclosing).imp_left fun hmem => ?_
    by_cases hc : call.client = client
    · subst hc
      simpa [discard] using hmem
    · simpa [discard, hc] using hmem
  calls := h.calls
  closing := fun c => by rw [discard_closing]; exact h.closing c
  issued := h.issued
  once := h.once
  before := h.before

theorem Told.mono {w w' : LlmWorld S} {client : ClientId} {g : Generation}
    (h : Told settings client g w) (hmem : ∀ e ∈ w.history, e ∈ w'.history) :
    Told settings client g w' := fun hc => hmem _ (h hc)

/-- An event that is neither a request nor a shutdown. -/
theorem LlmInv.record (h : LlmInv settings locked free w) {e : LlmEvent S}
    (hposted : e.postedGeneration = none) (hclosed : ∀ c, e ≠ .closed c)
    (hbefore : BeforeClosing e w.history) :
    LlmInv settings locked free { w with history := e :: w.history } where
  lock := h.lock
  inflight := fun k call hne hcall hask => (h.inflight k call hne hcall hask).imp_right
    fun ht => ht.mono fun _ hm => List.mem_cons_of_mem _ hm
  pending := fun k call hne hcall hp hc => (h.pending k call hne hcall hp hc).imp_right
    fun ht => ht.mono fun _ hm => List.mem_cons_of_mem _ hm
  calls := h.calls
  closing := by
    intro c
    rw [h.closing c, List.mem_cons, or_iff_right (fun heq => hclosed c heq.symm)]
  issued := by
    intro c g hmem
    rcases List.mem_cons.mp hmem with rfl | hmem
    · simp [LlmEvent.postedGeneration] at hposted
    · exact h.issued c g hmem
  once := by
    rw [List.filterMap_cons_none hposted]
    exact h.once
  before := ⟨hbefore, h.before⟩

/-- The generation is taken from a list of those to cancel, and the server is told. -/
theorem LlmInv.tell (h : LlmInv settings locked free w) (client : ClientId) (g : Generation)
    (rest : List Generation) (hrest : ∀ x ∈ (w.clients client).cancelling, x = g ∨ x ∈ rest) :
    LlmInv settings locked free (sendCancel settings client g
      (w.setClient client { w.clients client with cancelling := rest })) := by
  set w' := sendCancel settings client g
    (w.setClient client { w.clients client with cancelling := rest }) with hw'
  have hcalls : w'.calls = w.calls := by simp [w']
  have hhist : ∀ e ∈ w.history, e ∈ w'.history := by
    intro e he
    simp only [w', sendCancel]
    split_ifs
    · exact List.mem_cons_of_mem _ he
    · exact he
  have htold : Told settings client g w' := by
    intro hc
    simp [w', sendCancel, hc]
  have hother : ∀ c, c ≠ client → w'.clients c = w.clients c := by
    intro c hc
    simp [w', discard, hc]
  have hself : (w'.clients client).closing = (w.clients client).closing ∧
      (w'.clients client).inflight = (w.clients client).inflight.filter (· ≠ g) ∧
      (w'.clients client).cancelling = rest := by
    simp [w', discard]
  have hevents : w'.history = w.history ∨ w'.history = .cancelSent g :: w.history := by
    simp only [w', sendCancel]
    split_ifs
    · exact .inr rfl
    · exact .inl rfl
  refine ⟨?_, ?_, ?_, ?_, ?_, ?_, ?_, ?_⟩
  · intro hl k call hne hcall hp
    rw [hcalls] at hcall
    have hk := h.lock hl k call hne hcall hp
    simpa [w'] using hk
  · intro k call hne hcall hask
    rw [hcalls] at hcall
    rcases h.inflight k call hne hcall hask with hmem | ht
    · by_cases hc : call.client = client
      · by_cases hg : (k, call.attempt) = g
        · right
          rw [hc, hg]
          exact htold
        · left
          rw [hc, hself.2.1]
          exact List.mem_filter.mpr ⟨hc ▸ hmem, by simpa using hg⟩
      · left
        rw [hother _ hc]
        exact hmem
    · exact .inr (ht.mono hhist)
  · intro k call hne hcall hp hclosing
    rw [hcalls] at hcall
    have hclosing' : (w.clients call.client).closing = true := by
      by_cases hc : call.client = client
      · rw [hc] at hclosing ⊢
        rwa [hself.1] at hclosing
      · rwa [hother _ hc] at hclosing
    rcases h.pending k call hne hcall hp hclosing' with hmem | ht
    · by_cases hc : call.client = client
      · rcases hrest _ (hc ▸ hmem) with hg | hin
        · right
          rw [hc, hg]
          exact htold
        · left
          rw [hc, hself.2.2]
          exact hin
      · left
        rw [hother _ hc]
        exact hmem
    · exact .inr (ht.mono hhist)
  · intro k call hne hcall
    rw [hcalls] at hcall
    exact h.calls k call hne hcall
  · intro c
    have hc : (w'.clients c).closing = (w.clients c).closing := by
      by_cases hc : c = client
      · rw [hc]
        exact hself.1
      · rw [hother c hc]
    rw [hc, h.closing c]
    rcases hevents with heq | heq <;> simp [heq]
  · intro c g' hmem
    rw [hcalls]
    refine h.issued c g' ?_
    rcases hevents with heq | heq <;> simpa [heq] using hmem
  · rcases hevents with heq | heq
    · rw [heq]
      exact h.once
    · rw [heq, List.filterMap_cons_none rfl]
      exact h.once
  · rcases hevents with heq | heq
    · rw [heq]
      exact h.before
    · rw [heq]
      exact ⟨trivial, h.before⟩

/-- The requests of a call so far: from its client, and of its first `n` attempts. -/
def Past (k : CallId) (client : ClientId) (n : ℕ) (w : LlmWorld S) : Prop :=
  ∀ c g, .posted c g ∈ w.history → g.1 = k → c = client ∧ 1 ≤ g.2 ∧ g.2 ≤ n

theorem LlmInv.past {old : LlmCall S} (h : LlmInv settings locked free w)
    (hold : w.calls k = some old) : Past k old.client old.attempt w := by
  intro c g hmem hk
  obtain ⟨call, hcall, hc, hpos, hlt⟩ := h.issued c g hmem
  rw [hk, hold] at hcall
  obtain rfl := Option.some.inj hcall
  refine ⟨hc.symm, hpos, ?_⟩
  rcases hlt with hlt | ⟨heq, -⟩ <;> omega

theorem LlmInv.past_none (h : LlmInv settings locked free w) (hnone : w.calls k = none)
    (client : ClientId) : Past k client 0 w := by
  intro c g hmem hk
  obtain ⟨call, hcall, -⟩ := h.issued c g hmem
  rw [hk, hnone] at hcall
  cases hcall

/-- The call that was in the middle of something is put back; it does not ask. -/
theorem LlmInv.settle {call : LlmCall S} {n : ℕ} (h : LlmInv settings locked (some k) w)
    (hpast : Past k call.client n w) (hn : n ≤ call.attempt) (hask : call.phase.asking = false)
    (hok : CallOk (settings call.client) call) :
    LlmInv settings locked none (w.setCall k call) := by
  have hphase : call.phase ≠ .posted ∧ call.phase ≠ .queued := by
    constructor <;> rintro heq <;> simp [heq, CallPhase.asking] at hask
  have hcases : ∀ k' call', (w.setCall k call).calls k' = some call' →
      k' = k ∧ call' = call ∨ k' ≠ k ∧ w.calls k' = some call' := by
    intro k' call' hcall'
    by_cases hk : k' = k
    · subst hk
      left
      exact ⟨rfl, by simpa using hcall'.symm⟩
    · right
      exact ⟨hk, by simpa [hk] using hcall'⟩
  have hne : ∀ {k'}, k' ≠ k → some k' ≠ some k := fun hk heq => hk (Option.some.inj heq)
  refine ⟨?_, ?_, ?_, ?_, h.closing, ?_, h.once, h.before⟩
  · intro hl k' call' _ hcall' hp
    rcases hcases k' call' hcall' with ⟨-, rfl⟩ | ⟨hk, hcall'⟩
    · exact absurd hp hphase.1
    · exact h.lock hl k' call' (hne hk) hcall' hp
  · intro k' call' _ hcall' hask'
    rcases hcases k' call' hcall' with ⟨-, rfl⟩ | ⟨hk, hcall'⟩
    · rw [hask] at hask'
      cases hask'
    · exact h.inflight k' call' (hne hk) hcall' hask'
  · intro k' call' _ hcall' hp hc
    rcases hcases k' call' hcall' with ⟨-, rfl⟩ | ⟨hk, hcall'⟩
    · exact absurd hp hphase.1
    · exact h.pending k' call' (hne hk) hcall' hp hc
  · intro k' call' _ hcall'
    rcases hcases k' call' hcall' with ⟨-, rfl⟩ | ⟨hk, hcall'⟩
    · exact hok
    · exact h.calls k' call' (hne hk) hcall'
  · intro c g hmem
    by_cases hk : g.1 = k
    · obtain ⟨rfl, hpos, hle⟩ := hpast c g hmem hk
      refine ⟨call, by simp [hk], rfl, hpos, ?_⟩
      rcases lt_or_eq_of_le (hle.trans hn) with hlt | heq
      · exact .inl hlt
      · exact .inr ⟨heq, hphase.2⟩
    · obtain ⟨call', hcall', hc, hpos, hlt⟩ := h.issued c g hmem
      exact ⟨call', by simpa [hk] using hcall', hc, hpos, hlt⟩

theorem LlmInv.finish {call : LlmCall S} {n : ℕ} (h : LlmInv settings locked (some k) w)
    (hpast : Past k call.client n w) (hn : n ≤ call.attempt) (outcome : CallOutcome S)
    (hok : CallOk (settings call.client) { call with phase := .done outcome })
    (hbefore : BeforeClosing (.finished call.client k outcome) w.history) :
    LlmInv settings locked none (finishCall k call outcome w) := by
  have hset : LlmInv settings locked none (w.setCall k { call with phase := .done outcome }) :=
    h.settle hpast hn rfl hok
  exact hset.record rfl (by simp) hbefore

/-- A new attempt waits for the lock. -/
theorem LlmInv.enqueue {call : LlmCall S} {n : ℕ} (h : LlmInv settings locked (some k) w)
    (hpast : Past k call.client n w) (hn : n < call.attempt)
    (hok : CallOk (settings call.client) { call with phase := .queued }) :
    LlmInv settings locked none
      ((w.setClient call.client
        { w.clients call.client with
          inflight := (k, call.attempt) :: (w.clients call.client).inflight }).setCall k
        { call with phase := .queued }) := by
  set w' := (w.setClient call.client
    { w.clients call.client with
      inflight := (k, call.attempt) :: (w.clients call.client).inflight }).setCall k
    { call with phase := .queued } with hw'
  have hcases : ∀ k' call', w'.calls k' = some call' →
      k' = k ∧ call' = { call with phase := .queued } ∨ k' ≠ k ∧ w.calls k' = some call' := by
    intro k' call' hcall'
    by_cases hk : k' = k
    · subst hk
      left
      exact ⟨rfl, by simpa [w'] using hcall'.symm⟩
    · right
      exact ⟨hk, by simpa [w', hk] using hcall'⟩
  have hne : ∀ {k'}, k' ≠ k → some k' ≠ some k := fun hk heq => hk (Option.some.inj heq)
  have hclients : ∀ c, (w'.clients c).closing = (w.clients c).closing ∧
      (w'.clients c).cancelling = (w.clients c).cancelling ∧
      ∀ g ∈ (w.clients c).inflight, g ∈ (w'.clients c).inflight := by
    intro c
    by_cases hc : c = call.client
    · subst hc
      simp +contextual [w']
    · simp [w', hc]
  refine ⟨?_, ?_, ?_, ?_, ?_, ?_, h.once, h.before⟩
  · intro hl k' call' _ hcall' hp
    rcases hcases k' call' hcall' with ⟨-, rfl⟩ | ⟨hk, hcall'⟩
    · cases hp
    · exact h.lock hl k' call' (hne hk) hcall' hp
  · intro k' call' _ hcall' hask
    rcases hcases k' call' hcall' with ⟨rfl, rfl⟩ | ⟨hk, hcall'⟩
    · left
      simp [w']
    · exact (h.inflight k' call' (hne hk) hcall' hask).imp_left fun hmem => (hclients _).2.2 _ hmem
  · intro k' call' _ hcall' hp hc
    rcases hcases k' call' hcall' with ⟨-, rfl⟩ | ⟨hk, hcall'⟩
    · cases hp
    · rw [(hclients _).1] at hc
      rw [(hclients _).2.1]
      exact h.pending k' call' (hne hk) hcall' hp hc
  · intro k' call' _ hcall'
    rcases hcases k' call' hcall' with ⟨-, rfl⟩ | ⟨hk, hcall'⟩
    · exact hok
    · exact h.calls k' call' (hne hk) hcall'
  · intro c
    rw [(hclients c).1]
    exact h.closing c
  · intro c g hmem
    by_cases hk : g.1 = k
    · obtain ⟨rfl, hpos, hle⟩ := hpast c g hmem hk
      exact ⟨{ call with phase := .queued }, by simp [w', hk], rfl, hpos,
        .inl (lt_of_le_of_lt hle hn)⟩
    · obtain ⟨call', hcall', hc, hpos, hlt⟩ := h.issued c g hmem
      exact ⟨call', by simpa [w', hk] using hcall', hc, hpos, hlt⟩

/-- The request goes out. -/
theorem LlmInv.post {call : LlmCall S} (h : LlmInv settings locked none w)
    (hcall : w.calls k = some call) (hqueued : call.phase = .queued)
    (hfree : ¬ (locked = true ∧ w.holder ≠ none))
    (hopen : (w.clients call.client).closing = false) :
    LlmInv settings locked none { w.setCall k { call with phase := .posted } with
      holder := if locked then some k else none
      history := .posted call.client (k, call.attempt) :: w.history } := by
  have hclosed : .closed call.client ∉ w.history := by
    intro hmem
    rw [(h.closing call.client).mpr hmem] at hopen
    cases hopen
  have hcallOk := h.calls k call (by simp) hcall
  rw [CallOk, hqueued] at hcallOk
  have hcases : ∀ k' call',
      Function.update w.calls k (some { call with phase := .posted }) k' = some call' →
        k' = k ∧ call' = { call with phase := .posted } ∨ k' ≠ k ∧ w.calls k' = some call' := by
    intro k' call' hcall'
    by_cases hk : k' = k
    · subst hk
      left
      exact ⟨rfl, by simpa using hcall'.symm⟩
    · right
      exact ⟨hk, by simpa [hk] using hcall'⟩
  refine ⟨?_, ?_, ?_, ?_, ?_, ?_, ?_, ⟨hclosed, h.before⟩⟩
  · intro hl k' call' _ hcall' hp
    rcases hcases k' call' hcall' with ⟨rfl, -⟩ | ⟨hk, hcall'⟩
    · simp [hl]
    · have hholder := h.lock hl k' call' (by simp) hcall' hp
      exact absurd ⟨hl, by simp [hholder]⟩ hfree
  · intro k' call' _ hcall' hask
    have hin : (k', call'.attempt) ∈ (w.clients call'.client).inflight ∨
        Told settings call'.client (k', call'.attempt) w := by
      rcases hcases k' call' hcall' with ⟨rfl, rfl⟩ | ⟨hk, hcall'⟩
      · exact h.inflight k' call (by simp) hcall (by rw [hqueued]; rfl)
      · exact h.inflight k' call' (by simp) hcall' hask
    exact hin.imp_right fun ht => ht.mono fun _ hm => List.mem_cons_of_mem _ hm
  · intro k' call' _ hcall' hp hc
    rcases hcases k' call' hcall' with ⟨rfl, rfl⟩ | ⟨hk, hcall'⟩
    · exact absurd (hopen.symm.trans hc) (by simp)
    · exact (h.pending k' call' (by simp) hcall' hp hc).imp_right
        fun ht => ht.mono fun _ hm => List.mem_cons_of_mem _ hm
  · intro k' call' _ hcall'
    rcases hcases k' call' hcall' with ⟨-, rfl⟩ | ⟨hk, hcall'⟩
    · exact hcallOk
    · exact h.calls k' call' (by simp) hcall'
  · intro c
    show (w.clients c).closing = true ↔ _
    rw [h.closing c]
    simp
  · intro c g hmem
    rcases List.mem_cons.mp hmem with heq | hmem
    · obtain ⟨rfl, rfl⟩ := LlmEvent.posted.inj heq
      have hpos : 1 ≤ call.attempt := by
        have hcount := hcallOk.1
        omega
      exact ⟨{ call with phase := .posted }, by simp, rfl, hpos, .inr ⟨rfl, by simp⟩⟩
    · obtain ⟨call', hcall', hc, hpos, hlt⟩ := h.issued c g hmem
      by_cases hk : g.1 = k
      · rw [hk, hcall] at hcall'
        obtain rfl := Option.some.inj hcall'
        exact ⟨{ call with phase := .posted }, by simp [hk], hc, hpos,
          hlt.imp_right fun hlast => ⟨hlast.1, by simp⟩⟩
      · exact ⟨call', by simpa [hk] using hcall', hc, hpos, hlt⟩
  · show ((k, call.attempt) :: w.history.filterMap LlmEvent.postedGeneration).Nodup
    refine List.nodup_cons.mpr ⟨?_, h.once⟩
    intro hmem
    obtain ⟨e, he, hg⟩ := List.mem_filterMap.mp hmem
    cases e with
    | posted c g =>
        obtain rfl := Option.some.inj hg
        obtain ⟨call', hcall', -, -, hlt⟩ := h.issued c _ he
        rw [hcall] at hcall'
        obtain rfl := Option.some.inj hcall'
        rcases hlt with hlt | ⟨-, hne⟩
        · exact absurd hlt (lt_irrefl _)
        · exact hne hqueued
    | _ => simp [LlmEvent.postedGeneration] at hg

/-- The next attempt of a call, or its end if the client is closing. -/
theorem inv_beginAttempt {call : LlmCall S} {n : ℕ} (h : LlmInv settings locked (some k) w)
    (hpast : Past k call.client n w) (hn : n < call.attempt)
    (hok : CallOk (settings call.client) { call with phase := .queued }) :
    LlmInv settings locked none (beginAttempt k call w) := by
  unfold beginAttempt
  split_ifs
  · obtain ⟨hcount, hmax, hfailed, -⟩ := hok
    exact h.finish hpast hn.le .cancelled ⟨hfailed, by dsimp only at hcount hmax ⊢; omega, hmax⟩
      trivial
  · exact h.enqueue hpast hn hok

theorem LlmInv.meter (h : LlmInv settings locked free w) (call : LlmCall S)
    (metrics : LLMCallMetrics) : LlmInv settings locked free (recordMetrics call metrics w) := by
  have hsame : ∀ c, ((recordMetrics call metrics w).clients c).closing = (w.clients c).closing ∧
      ((recordMetrics call metrics w).clients c).inflight = (w.clients c).inflight ∧
      ((recordMetrics call metrics w).clients c).cancelling = (w.clients c).cancelling :=
    recordMetrics_same metrics
  refine ⟨?_, ?_, ?_, ?_, ?_, ?_, ?_, ?_⟩
  · simpa only [recordMetrics_calls, recordMetrics_holder] using h.lock
  · intro k call' hne hcall hask
    rw [recordMetrics_calls] at hcall
    rw [(hsame _).2.1]
    exact (h.inflight k call' hne hcall hask).imp_right
      fun ht => ht.mono fun _ hm => by rwa [recordMetrics_history]
  · intro k call' hne hcall hp hc
    rw [recordMetrics_calls] at hcall
    rw [(hsame _).1] at hc
    rw [(hsame _).2.2]
    exact (h.pending k call' hne hcall hp hc).imp_right
      fun ht => ht.mono fun _ hm => by rwa [recordMetrics_history]
  · simpa only [recordMetrics_calls] using h.calls
  · intro c
    rw [(hsame c).1, recordMetrics_history]
    exact h.closing c
  · simpa only [recordMetrics_calls, recordMetrics_history] using h.issued
  · simpa only [recordMetrics_history] using h.once
  · simpa only [recordMetrics_history] using h.before

theorem inv_askCall (h : LlmInv settings locked none w) (hnew : w.calls k = none)
    (client : ClientId) (purpose : CallPurpose) :
    LlmInv settings locked none (askCall settings k client purpose w) := by
  have hpast := h.past_none hnew client
  unfold askCall
  dsimp only
  split_ifs with hmax
  · let call : LlmCall S := ⟨client, purpose, 1, .queued, [], 0⟩
    have hpast' : Past k client 0 (recordMetrics call ⟨0, none, none, 0⟩ w) := by
      simpa only [Past, recordMetrics_history] using hpast
    refine ((h.loosen k).meter call _).finish hpast' le_rfl _ ?_ trivial
    exact ⟨hmax.symm, by simp [AllFailed], rfl, hmax.symm, by simp [hmax, backoff]⟩
  · refine inv_beginAttempt (h.loosen k) hpast Nat.zero_lt_one ?_
    exact ⟨rfl, Nat.one_le_iff_ne_zero.mpr hmax, by simp [AllFailed], by simp [backoff]⟩

theorem CallOk.asking {limits : LlmCallSettings} {call : LlmCall S} (h : CallOk limits call)
    (hask : call.phase.asking = true) : call.attempt = call.results.length + 1 ∧
      call.attempt ≤ limits.maxRetries ∧ AllFailed call.results ∧
      call.slept = backoff limits call.results.length := by
  cases hphase : call.phase with
  | queued =>
      rw [CallOk, hphase] at h
      exact h
  | posted =>
      rw [CallOk, hphase] at h
      exact h
  | backingOff => simp [hphase, CallPhase.asking] at hask
  | done outcome => simp [hphase, CallPhase.asking] at hask

theorem CallOk.attempt_le {limits : LlmCallSettings} {call : LlmCall S} (h : CallOk limits call) :
    call.attempt ≤ limits.maxRetries := by
  unfold CallOk at h
  split at h
  · exact h.2.1
  · exact h.2.1
  · exact h.2.1.le
  · obtain ⟨failed, -, -, hlt, hattempt, -⟩ := h
    omega
  · exact h.2.2.2.1.le
  · exact h.2.2

theorem inv_unwind {call : LlmCall S} (h : LlmInv settings locked (some k) w)
    (hcall : w.calls k = some call) (hok : CallOk (settings call.client) call)
    (hask : call.phase.asking = true) :
    LlmInv settings locked none (unwind settings k call w) := by
  obtain ⟨hcount, hmax, hfailed, -⟩ := hok.asking hask
  have hend : CallOk (settings call.client) { call with phase := .done .cancelled } := by
    have hshort : call.results.length < (settings call.client).maxRetries := by omega
    exact ⟨hfailed, hshort, hmax⟩
  unfold unwind
  dsimp only
  split_ifs
  · have htold : LlmInv settings locked (some k)
        (sendCancel settings call.client (k, call.attempt) w) := by
      have hsent := h.tell call.client (k, call.attempt) (w.clients call.client).cancelling
        fun x hx => .inr hx
      have hsame : w.setClient call.client { w.clients call.client with
          cancelling := (w.clients call.client).cancelling } = w := by
        simp [LlmWorld.setClient]
      rwa [hsame] at hsent
    have hcall' : (sendCancel settings call.client (k, call.attempt) w).calls k = some call := by
      rw [sendCancel_calls]
      exact hcall
    exact htold.finish (htold.past hcall') le_rfl .cancelled hend trivial
  · exact h.finish (h.past hcall) le_rfl .cancelled hend trivial

theorem inv_acquireLock {call : LlmCall S} (h : LlmInv settings locked none w)
    (hcall : w.calls k = some call) (hqueued : call.phase = .queued) :
    LlmInv settings locked none (acquireLock settings locked k call w) := by
  have hok := h.calls k call (by simp) hcall
  unfold acquireLock
  by_cases hbusy : locked = true ∧ w.holder ≠ none
  · rw [if_pos hbusy]
    exact h
  · rw [if_neg hbusy]
    by_cases hclosing : (w.clients call.client).closing = true
    · rw [if_pos hclosing]
      exact inv_unwind (h.loosen k) hcall hok (by rw [hqueued]; rfl)
    · rw [if_neg hclosing]
      exact h.post hcall hqueued hbusy (by simpa using hclosing)

/-- The sleep before the next attempt doubles each time. -/
theorem backoff_succ (limits : LlmCallSettings) (n : ℕ) :
    backoff limits n + limits.retryBackoffBase * 2 ^ n = backoff limits (n + 1) := by
  unfold backoff
  ring

theorem inv_afterAttempt {call : LlmCall S} (h : LlmInv settings locked (some k) w)
    (hcall : w.calls k = some call) (hposted : call.phase = .posted)
    (hok : CallOk (settings call.client) call)
    (hopen : .closed call.client ∉ w.history) (reply : LlmReply) (elapsed : ℚ) :
    LlmInv settings locked none (afterAttempt settings parse k call reply elapsed w) := by
  obtain ⟨hcount, hmax, hfailed, hslept⟩ := hok.asking (by rw [hposted]; rfl)
  have hpast := h.past hcall
  have hfailed' : ∀ err, AllFailed (.error err :: call.results) := by
    intro err r hr
    rcases List.mem_cons.mp hr with rfl | hr
    · exact ⟨err, rfl⟩
    · exact hfailed r hr
  have hpow : call.attempt - 1 = call.results.length := by omega
  unfold afterAttempt
  dsimp only
  cases attemptResult parse (settings call.client) call.purpose reply with
  | ok answer =>
      let answered : LlmCall S := { call with results := .ok answer :: call.results }
      have hrec := h.meter answered
        ⟨elapsed, reply.usage.promptTokens, reply.usage.completionTokens, call.attempt⟩
      have hpast' : Past k answered.client call.attempt (recordMetrics answered
          ⟨elapsed, reply.usage.promptTokens, reply.usage.completionTokens, call.attempt⟩ w) := by
        simpa only [Past, recordMetrics_history] using hpast
      have hdone : CallOk (settings answered.client)
          { answered with phase := .done (.answered answer) } := by
        have hshort : call.results.length < (settings call.client).maxRetries := by omega
        exact ⟨call.results, rfl, hfailed, hshort, hcount, hslept⟩
      exact hrec.finish hpast' le_rfl (.answered answer) hdone
        (by simpa only [BeforeClosing, recordMetrics_history] using hopen)
  | error err =>
      dsimp only
      by_cases hmore : call.attempt < (settings call.client).maxRetries
      · rw [if_pos hmore]
        by_cases hbase : (settings call.client).retryBackoffBase = 0
        · rw [if_pos hbase]
          refine inv_beginAttempt h hpast (Nat.lt_succ_self _) ⟨?_, hmore, hfailed' err, ?_⟩
          · simp [hcount]
          · simp [hslept, backoff, hbase]
        · rw [if_neg hbase]
          refine h.settle hpast le_rfl rfl ⟨?_, hmore, hfailed' err, ?_⟩
          · simp [hcount]
          · rw [hslept, hpow, backoff_succ]
            rfl
      · rw [if_neg hmore]
        have hlast : call.attempt = (settings call.client).maxRetries := by omega
        let failed : LlmCall S := { call with results := .error err :: call.results }
        have hrec := h.meter failed
          ⟨elapsed, none, none, (settings call.client).maxRetries⟩
        have hpast' : Past k failed.client call.attempt (recordMetrics failed
            ⟨elapsed, none, none, (settings call.client).maxRetries⟩ w) := by
          simpa only [Past, recordMetrics_history] using hpast
        have hdone : CallOk (settings failed.client)
            { failed with phase := .done (.exhausted (some err)) } := by
          refine ⟨?_, hfailed' err, rfl, hlast, ?_⟩
          · show (.error err :: call.results).length = (settings call.client).maxRetries
            rw [List.length_cons, ← hcount, hlast]
          · show call.slept = backoff (settings call.client) ((settings call.client).maxRetries - 1)
            rw [← hlast, hpow]
            exact hslept
        exact hrec.finish hpast' le_rfl (.exhausted (some err)) hdone
          (by simpa only [BeforeClosing, recordMetrics_history] using hopen)

theorem inv_receiveReply {call : LlmCall S} (h : LlmInv settings locked none w)
    (hcall : w.calls k = some call) (hposted : call.phase = .posted) (reply : LlmReply)
    (elapsed : ℚ) :
    LlmInv settings locked none (receiveReply settings parse k call reply elapsed w) := by
  have hok := h.calls k call (by simp) hcall
  obtain ⟨hcount, hmax, hfailed, -⟩ := hok.asking (by rw [hposted]; rfl)
  have hfree := (h.release hcall hposted).forget call.client call.attempt
  have hcall' : (discard call.client (k, call.attempt) { w with holder := none }).calls k
      = some call := hcall
  unfold receiveReply
  dsimp only
  split_ifs with hclosing
  · exact hfree.finish (hfree.past hcall') le_rfl .cancelled
      ⟨hfailed, by dsimp only; omega, hmax⟩ trivial
  · refine inv_afterAttempt hfree hcall' hposted hok ?_ reply elapsed
    intro hmem
    exact hclosing ((hfree.closing call.client).mpr hmem)

theorem inv_shutdown (h : LlmInv settings locked none w) (client : ClientId) :
    LlmInv settings locked none { w.setClient client
      { w.clients client with
        closing := true
        cancelling := (w.clients client).cancelling ++ (w.clients client).inflight } with
      history := .closed client :: w.history } where
  lock := h.lock
  inflight := by
    intro k call hne hcall hask
    refine (h.inflight k call hne hcall hask).imp ?_
      fun ht => ht.mono fun _ hm => List.mem_cons_of_mem _ hm
    intro hmem
    by_cases hc : call.client = client
    · subst hc
      simpa using hmem
    · simpa [hc] using hmem
  pending := by
    intro k call hne hcall hp hc
    by_cases hcc : call.client = client
    · subst hcc
      refine (h.inflight k call hne hcall (by rw [hp]; rfl)).imp ?_
        fun ht => ht.mono fun _ hm => List.mem_cons_of_mem _ hm
      intro hmem
      simp [hmem]
    · have hc' : (w.clients call.client).closing = true := by simpa [hcc] using hc
      refine (h.pending k call hne hcall hp hc').imp ?_
        fun ht => ht.mono fun _ hm => List.mem_cons_of_mem _ hm
      intro hmem
      simpa [hcc] using hmem
  calls := h.calls
  closing := by
    intro c
    by_cases hc : c = client
    · subst hc
      simp
    · have hother := h.closing c
      simpa [hc] using hother
  issued := by
    intro c g hmem
    exact h.issued c g (by simpa using hmem)
  once := h.once
  before := ⟨trivial, h.before⟩

theorem inv_llmStep (i : LlmInput) (w : LlmWorld S) (h : LlmInv settings locked none w) :
    LlmInv settings locked none (llmStep settings locked parse i w) := by
  cases i with
  | ask k client purpose =>
      simp only [llmStep]
      split
      · exact h
      · next hnew => exact inv_askCall h hnew client purpose
  | acquire k =>
      simp only [llmStep]
      split
      · next call hcall =>
          split
          · next hqueued => exact inv_acquireLock h hcall hqueued
          · exact h
      · exact h
  | reply k reply elapsed =>
      simp only [llmStep]
      split
      · next call hcall =>
          split
          · next hposted => exact inv_receiveReply h hcall hposted reply elapsed
          · exact h
      · exact h
  | wake k =>
      simp only [llmStep]
      split
      · next call hcall =>
          split
          · next hwait =>
              have hok := h.calls k call (by simp) hcall
              rw [CallOk, hwait] at hok
              obtain ⟨hcount, hmax, hfailed, hslept⟩ := hok
              have hpast : Past k call.client call.attempt w := h.past hcall
              refine inv_beginAttempt (h.loosen k) hpast (Nat.lt_succ_self _)
                ⟨?_, hmax, hfailed, hslept⟩
              show call.attempt + 1 = call.results.length + 1
              omega
          · exact h
      · exact h
  | cancelTask k =>
      simp only [llmStep]
      split
      · next call hcall =>
          have hok := h.calls k call (by simp) hcall
          split
          · exact h
          · next hwait =>
              rw [CallOk, hwait] at hok
              obtain ⟨hcount, hmax, hfailed, -⟩ := hok
              exact (h.loosen k).finish (h.past hcall) le_rfl .cancelled
                ⟨hfailed, by dsimp only; omega, hmax.le⟩ trivial
          · next hwait => exact inv_unwind (h.loosen k) hcall hok (by rw [hwait]; rfl)
          · next hwait => exact inv_unwind (h.release hcall hwait) hcall hok (by rw [hwait]; rfl)
      · exact h
  | shutdown client => exact inv_shutdown h client
  | sendCancel client =>
      simp only [llmStep]
      split
      · exact h
      · next g rest hlist =>
          refine h.tell client g rest ?_
          intro x hx
          rw [hlist] at hx
          exact List.mem_cons.mp hx

theorem inv_initial : LlmInv settings locked none (LlmWorld.initial (S := S)) where
  lock := fun _ k call _ hcall => by cases hcall
  inflight := fun k call _ hcall => by cases hcall
  pending := fun k call _ hcall => by cases hcall
  calls := fun k call _ hcall => by cases hcall
  closing := by simp [LlmWorld.initial]
  issued := by simp [LlmWorld.initial]
  once := by simp [LlmWorld.initial]
  before := trivial

variable (settings locked parse)

theorem inv_llmRun (inputs : List LlmInput) :
    LlmInv settings locked none
      (Lib.run (llmStep settings locked parse) inputs (LlmWorld.initial (S := S))) :=
  run_invariant (fun i w h => inv_llmStep i w h) inputs inv_initial

/-! ## The results -/

/-- **One generation at a time.** Clients that share the lock never have two requests under way,
however many calls they make and whatever fails, is cancelled or shut down; and no call makes more
requests than it has attempts, or one attempt twice. -/
theorem one_generation_at_a_time (inputs : List LlmInput) :
    let w := Lib.run (llmStep settings true parse) inputs (LlmWorld.initial (S := S))
    (∀ k k' call call', w.calls k = some call → w.calls k' = some call' →
        call.phase = .posted → call'.phase = .posted → k = k') ∧
      (w.history.filterMap LlmEvent.postedGeneration).Nodup ∧
      ∀ c g, .posted c g ∈ w.history → 1 ≤ g.2 ∧ g.2 ≤ (settings c).maxRetries := by
  intro w
  have h : LlmInv settings true none w := inv_llmRun settings true parse inputs
  refine ⟨?_, h.once, ?_⟩
  · intro k k' call call' hcall hcall' hp hp'
    have hk := h.lock rfl k call (by simp) hcall hp
    have hk' := h.lock rfl k' call' (by simp) hcall' hp'
    exact Option.some.inj (hk.symm.trans hk')
  · intro c g hmem
    obtain ⟨call, hcall, rfl, hpos, hlt⟩ := h.issued c g hmem
    refine ⟨hpos, ?_⟩
    have hmax := (h.calls g.1 call (by simp) hcall).attempt_le
    rcases hlt with hlt | ⟨heq, -⟩ <;> omega

/-- **Nothing after the shutdown.** Once a client is closing it makes no request, and no call of
it comes back with an answer or, unless it makes no attempts at all, with a fallback: a cycle that
waits for the model ends there. -/
theorem nothing_after_shutdown (inputs : List LlmInput) (client : ClientId)
    (newer older : List (LlmEvent S)) (e : LlmEvent S)
    (hsplit : (Lib.run (llmStep settings locked parse) inputs LlmWorld.initial).history
      = newer ++ e :: older) (hclosed : .closed client ∈ older) :
    (∀ g, e ≠ .posted client g) ∧ (∀ k answer, e ≠ .finished client k (.answered answer)) ∧
      ∀ k err, e ≠ .finished client k (.exhausted (some err)) := by
  have h := inv_llmRun settings locked parse inputs
  have hbefore := (justified_iff _).mp h.before newer e older hsplit
  refine ⟨?_, ?_, ?_⟩
  · rintro g rfl
    exact hbefore hclosed
  · rintro k answer rfl
    exact hbefore hclosed
  · rintro k err rfl
    exact hbefore hclosed

/-- **The shutdown reaches the server.** A generation that is under way when its client is closing
has been cancelled at the server or is next in line to be, wherever the shutdown has got to. -/
theorem shutdown_cancels (inputs : List LlmInput) (k : CallId) (call : LlmCall S)
    (hcall : (Lib.run (llmStep settings locked parse) inputs LlmWorld.initial).calls k = some call)
    (hposted : call.phase = .posted) (hserver : (settings call.client).cancellable = true)
    (hclosed : .closed call.client ∈
      (Lib.run (llmStep settings locked parse) inputs LlmWorld.initial).history) :
    let w := Lib.run (llmStep settings locked parse) inputs LlmWorld.initial
    .cancelSent (k, call.attempt) ∈ w.history ∨
      (k, call.attempt) ∈ (w.clients call.client).cancelling := by
  intro w
  have h : LlmInv settings locked none w := inv_llmRun settings locked parse inputs
  rcases h.pending k call (by simp) hcall hposted ((h.closing _).mpr hclosed) with hmem | ht
  · exact .inr hmem
  · exact .inl (ht hserver)

/-- **What a call comes back with.** The answer is that of the first attempt that gives one, the
fallback comes after exactly `max_retries` attempts that all failed and carries the last error, and
a cancelled call had attempts left; the backoff between `n + 1` attempts is `base * (2 ^ n - 1)`. -/
theorem call_outcome (inputs : List LlmInput) (k : CallId) (call : LlmCall S)
    (outcome : CallOutcome S)
    (hcall : (Lib.run (llmStep settings locked parse) inputs LlmWorld.initial).calls k = some call)
    (hdone : call.phase = .done outcome) :
    match outcome with
    | .answered answer => ∃ failed, call.results = .ok answer :: failed ∧ AllFailed failed ∧
        failed.length < (settings call.client).maxRetries ∧
        call.slept = backoff (settings call.client) failed.length
    | .exhausted lastError => call.results.length = (settings call.client).maxRetries ∧
        AllFailed call.results ∧ call.results.head? = lastError.map .error ∧
        call.slept = backoff (settings call.client) ((settings call.client).maxRetries - 1)
    | .cancelled => AllFailed call.results ∧
        call.results.length < (settings call.client).maxRetries := by
  have h := inv_llmRun settings locked parse inputs
  have hok := h.calls k call (by simp) hcall
  rw [CallOk, hdone] at hok
  cases outcome with
  | answered answer =>
      obtain ⟨failed, hres, hfailed, hlt, -, hslept⟩ := hok
      exact ⟨failed, hres, hfailed, hlt, hslept⟩
  | exhausted lastError =>
      obtain ⟨hlen, hfailed, hhead, -, hslept⟩ := hok
      exact ⟨hlen, hfailed, hhead, hslept⟩
  | cancelled => exact ⟨hok.1, hok.2.1⟩

end World

/-- Two attempts, a second apart. -/
def twoAttempts : LlmCallSettings where
  maxRetries := 2
  maxTokens := 1024
  retryBackoffBase := 1
  cancellable := true

/-- A request that a shutdown overtakes. -/
def overtakenInput : List LlmInput := [.ask 0 0 .tradeSignal, .acquire 0, .shutdown 0]

theorem nothing_after_shutdown_late_answer :
    (∀ g, (.finished 0 0 .cancelled : LlmEvent Unit) ≠ .posted 0 g) ∧
      (∀ k answer, (.finished 0 0 .cancelled : LlmEvent Unit) ≠ .finished 0 k (.answered answer)) ∧
      ∀ k err, (.finished 0 0 .cancelled : LlmEvent Unit) ≠ .finished 0 k (.exhausted (some err)) :=
  nothing_after_shutdown (fun _ => twoAttempts) true (fun _ _ => .ok ())
    (overtakenInput ++ [.reply 0 (.completion [] ⟨none, none⟩) 5]) 0 []
    [.closed 0, .posted 0 (0, 1)] _ rfl (by simp)

theorem shutdown_cancels_overtaken :
    let w : LlmWorld Unit :=
      Lib.run (llmStep (fun _ => twoAttempts) true fun _ _ => .ok ()) overtakenInput LlmWorld.initial
    .cancelSent (0, 1) ∈ w.history ∨ (0, 1) ∈ (w.clients 0).cancelling :=
  shutdown_cancels (fun _ => twoAttempts) true (fun _ _ => .ok ()) overtakenInput 0
    ⟨0, .tradeSignal, 1, .posted, [], 0⟩ rfl rfl rfl (by
      show LlmEvent.closed 0 ∈ [.closed 0, .posted 0 (0, 1)]
      simp)

/-- A failed attempt and an answer after a second. -/
theorem call_outcome_second_attempt :
    ∃ failed : List (Except PyError Unit),
      [.ok (), .error (.raised "down")] = .ok () :: failed ∧ AllFailed failed ∧
        failed.length < twoAttempts.maxRetries ∧
        0 + 1 * 2 ^ (1 - 1) = backoff twoAttempts failed.length :=
  call_outcome (fun _ => twoAttempts) true (fun _ _ => .ok ())
    [.ask 0 0 .json, .acquire 0, .reply 0 (.failed (.raised "down")) 3, .wake 0, .acquire 0,
      .reply 0 (.completion [] ⟨none, none⟩) 5] 0
    ⟨0, .json, 2, .done (.answered ()), [.ok (), .error (.raised "down")], 0 + 1 * 2 ^ (1 - 1)⟩
    (.answered ()) rfl rfl

end SmartyTrader
