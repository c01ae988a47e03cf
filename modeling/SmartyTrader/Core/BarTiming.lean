import SmartyTrader.Execution.PaperPipeline
import SmartyTrader.Lib.Runs

set_option autoImplicit false

/-! # Bar timing across restarts

A pipeline that decides on new bars only skips a bar whose close is not after its last decision.
In memory the last decision has the time its candles were fetched; the stored row has the time
it was written, and that is what a new process reads. A cycle depends on the time only in this
one comparison (`run_timed`), so a run with restarts does what the uninterrupted run does as
long as the two times lie on the same side of the close of every bar that is looked at
(`restarts_ask_alike`).
-/

namespace SmartyTrader

open Lib

variable {σ : Type}

/-! ## States that differ in the remembered times -/

/-- The times of the last decisions, by strategy and symbol. -/
abbrev DecisionTimes := Dict (Option String × Symbol) Time

namespace PipelineState

/-- The state with other remembered times. -/
def timed (st : PipelineState σ) (times : DecisionTimes) : PipelineState σ :=
  { st with lastDecisionAt := times }

@[simp] theorem timed_timed (st : PipelineState σ) (d d' : DecisionTimes) :
    (st.timed d).timed d' = st.timed d' := rfl

@[simp] theorem timed_self (st : PipelineState σ) : st.timed st.lastDecisionAt = st := rfl

@[simp] theorem timed_executor (st : PipelineState σ) (d : DecisionTimes) :
    (st.timed d).executor = st.executor := rfl

@[simp] theorem timed_book (st : PipelineState σ) (d : DecisionTimes) :
    (st.timed d).book = st.book := rfl

@[simp] theorem timed_agentEngine (st : PipelineState σ) (d : DecisionTimes) :
    (st.timed d).agentEngine = st.agentEngine := rfl

@[simp] theorem timed_lastDecisionAt (st : PipelineState σ) (d : DecisionTimes) :
    (st.timed d).lastDecisionAt = d := rfl

@[simp] theorem timed_riskEngine (st : PipelineState σ) (d : DecisionTimes) (p : Pipeline) :
    (st.timed d).riskEngine p = st.riskEngine p := rfl

theorem timed_setRiskEngine (st : PipelineState σ) (d : DecisionTimes) (p : Pipeline)
    (e : RiskEngine) : (st.timed d).setRiskEngine p e = (st.setRiskEngine p e).timed d := by
  unfold setRiskEngine
  rw [timed_book]
  split
  · split_ifs <;> rfl
  · rfl

theorem timed_recordOutcome (st : PipelineState σ) (d : DecisionTimes) (p : Pipeline)
    (strategy : Option String) (won : Bool) (now : Time) :
    (st.timed d).recordOutcome p strategy won now
      = (st.recordOutcome p strategy won now).timed d := by
  unfold recordOutcome
  rw [timed_book, timed_riskEngine]
  split
  · split
    · rfl
    · exact timed_setRiskEngine st d p _
  · exact timed_setRiskEngine st d p _

theorem timed_recordFill (st : PipelineState σ) (d : DecisionTimes) (p : Pipeline)
    (strategy : Option String) (order : OrderResult) (now : Time) :
    (st.timed d).recordFill p strategy order now
      = (st.recordFill p strategy order now).timed d := by
  unfold recordFill
  split
  · exact timed_recordOutcome st d p _ _ _
  · rfl

end PipelineState

/-- A step neither reads nor writes the remembered times. -/
def Steady {α : Type} (f : PipelineState σ → α × PipelineState σ) : Prop :=
  ∀ (st : PipelineState σ) (d : DecisionTimes), f (st.timed d) = ((f st).1, (f st).2.timed d)

/-- When the latest closed bar of the cycle closed. -/
def CycleInput.barClosed (input : CycleInput) : Option Time :=
  match input.snapshot with
  | .error _ => none
  | .ok snapshot =>
      (closedBars snapshot.candles input.timeframe snapshot.fetchedAt).getLast?.bind
        (fun bar => barCloseTime bar input.timeframe)

namespace Pipeline

section Steps

variable (ex : Executor σ) (p : Pipeline) (input : CycleInput)

theorem timed_markPositions (symbol : Symbol) (close : ℚ) (st : PipelineState σ)
    (d : DecisionTimes) :
    markPositions ex symbol close (st.timed d) = (markPositions ex symbol close st).timed d := by
  unfold markPositions
  split_ifs <;> rfl

theorem steady_sleeveOwnership : Steady (sleeveOwnership ex input) := by
  intro st d
  unfold sleeveOwnership
  rw [PipelineState.timed_book, PipelineState.timed_executor]
  cases st.book with
  | none => rfl
  | some b =>
      dsimp only
      rcases ex.getPositions st.executor with ⟨err | positions, s⟩ <;> rfl

theorem steady_closeForExit (position : Position) (mark : ℚ) (reason : ExitReason)
    (owner : Option String) : Steady (p.closeForExit ex input position mark reason owner) := by
  intro st d
  unfold closeForExit
  rw [PipelineState.timed_executor]
  split_ifs
  · rfl
  · rcases ex.placeOrder st.executor { closeRequest position mark with symbol := input.symbol }
      input.stamp with ⟨err | order, s⟩
    · rfl
    · exact Prod.ext rfl
        (PipelineState.timed_recordFill { st with executor := s } d p owner order input.outcomeNow)

theorem steady_checkExitLevels (mark : ℚ) (owner : Option String) :
    Steady (p.checkExitLevels ex input mark owner) := by
  intro st d
  unfold checkExitLevels
  rw [PipelineState.timed_executor, PipelineState.timed_riskEngine]
  split_ifs
  · rfl
  · rcases ex.getPositions st.executor with ⟨err | positions, s⟩
    · rfl
    · dsimp only
      split
      · rfl
      · rename_i position reason _
        have hclose := steady_closeForExit ex p input position mark reason owner
          { st with executor := s } d
        exact Prod.ext (congrArg (fun r => some { r.1 with strategy := owner }) hclose)
          (congrArg (fun r => r.2) hclose)

theorem steady_checkTimeStop (mark : ℚ) (fetchedAt : Time) (ownership : Ownership) :
    Steady (p.checkTimeStop ex input mark fetchedAt ownership) := by
  intro st d
  unfold checkTimeStop
  rw [PipelineState.timed_book, PipelineState.timed_executor]
  split
  · rfl
  · split_ifs
    · rfl
    · rcases ex.getPositions st.executor with ⟨err | positions, s⟩
      · rfl
      · dsimp only
        split
        · rfl
        · rename_i position _
          have hclose := steady_closeForExit ex p input position mark .timeStop
            (some ownership.strategy) { st with executor := s } d
          exact Prod.ext
            (congrArg (fun r => some { r.1 with strategy := some ownership.strategy }) hclose)
            (congrArg (fun r => r.2) hclose)

theorem steady_sleevePortfolio (portfolio : PortfolioState) :
    Steady (p.sleevePortfolio ex input portfolio) := by
  intro st d
  unfold sleevePortfolio
  rw [PipelineState.timed_book, PipelineState.timed_executor]
  split
  · split <;> rfl
  · rfl

theorem steady_gate (signal : TradeSignal) (portfolio book : PortfolioState)
    (planned : Option ℚ) (price : ℚ) :
    Steady (σ := σ) (p.gate input signal portfolio book planned price) := by
  intro st d
  unfold gate
  dsimp only
  rw [PipelineState.timed_riskEngine, PipelineState.timed_setRiskEngine]
  generalize (st.riskEngine p).evaluate signal book (planned.map (· * price)) (some price)
    input.dailyNow input.cooldownNow = verdict
  generalize st.setRiskEngine p verdict.2 = s
  -- the backstop decides on the book and the agent's engine alone
  rw [PipelineState.timed_book]
  by_cases hb : s.book.isSome ∧ signal.action = .buy ∧ verdict.1 = .approved
  · simp only [if_pos hb]
    rw [PipelineState.timed_agentEngine]
    generalize s.agentEngine.checkBackstop portfolio.totalValue
      ((s.book.map (fun b => b.settings.backstopMaxDrawdownPct)).getD 0) = backstop
    split
    · rfl
    · split_ifs <;> rfl
  · simp only [if_neg hb]
    split
    · rfl
    · split_ifs <;> rfl

theorem steady_execute (signal : TradeSignal) (planned : Option ℚ) (price : ℚ)
    (base : PipelineResult) : Steady (p.execute ex input signal planned price base) := by
  intro st d
  unfold execute
  split
  · rfl
  · rename_i quantity
    dsimp only
    rw [PipelineState.timed_executor]
    split_ifs
    · rfl
    · rcases ex.placeOrder st.executor (signalRequest input signal quantity price)
        input.stamp with ⟨err | order, s⟩
      · rfl
      · exact Prod.ext rfl (PipelineState.timed_recordFill { st with executor := s } d p
          p.strategy order input.outcomeNow)

end Steps

/-! ## A cycle on two markers -/

section Cycle

variable (ex : Executor σ) (p : Pipeline) (input : CycleInput)

/-- What a pipeline remembers a decision on the cycle's symbol under. -/
def barKey : Option String × Symbol := (p.strategy, input.symbol)

/-- Whatever is unknown in `d` is unknown in `d'`. -/
def Lagging (d' d : DecisionTimes) : Prop := ∀ key, d.get? key = none → d'.get? key = none

theorem Lagging.set {d' d : DecisionTimes} (h : Lagging d' d) (key : Option String × Symbol)
    (t t' : Time) : Lagging (d'.set key t') (d.set key t) := by
  intro k hk
  rw [Dict.get?_set] at hk ⊢
  split_ifs at hk ⊢
  exact h k hk

theorem Lagging.set_right {d' d : DecisionTimes} (h : Lagging d' d) {key : Option String × Symbol}
    {m : Time} (hm : d.get? key = some m) (t' : Time) : Lagging (d'.set key t') d := by
  intro k hk
  rw [Dict.get?_set]
  split_ifs with heq
  · rw [← heq, hm] at hk
    exact absurd hk (Option.some_ne_none m)
  · exact h k hk

/-- The last decision as the bar check finds it. -/
def seen (d : DecisionTimes) : Option Time :=
  match d.get? (p.barKey input) with
  | some t => some t
  | none =>
      match p.hasStorage, input.lastDecision with
      | true, .ok t => t
      | _, _ => none

/-- The remembered times after a look at the last decision. -/
def noted (d : DecisionTimes) : DecisionTimes :=
  match d.get? (p.barKey input) with
  | some _ => d
  | none => (p.seen input d).elim d (fun t => d.set (p.barKey input) t)

theorem lastDecision_timed (st : PipelineState σ) (d : DecisionTimes) :
    p.lastDecision input (st.timed d) = (p.seen input d, st.timed (p.noted input d)) := by
  unfold lastDecision noted seen
  rw [PipelineState.timed_lastDecisionAt]
  change (match d.get? (p.barKey input) with
    | some t => (some t, st.timed d)
    | none => _) = _
  cases d.get? (p.barKey input) with
  | some t => rfl
  | none =>
      dsimp only
      cases p.hasStorage with
      | false => rfl
      | true => rcases input.lastDecision with err | (_ | t) <;> rfl

/-- Look up the last decision when the cycle has a bar to compare it with. -/
def looked (d : DecisionTimes) : DecisionTimes :=
  if p.decideOnNewBarOnly ∧ input.barClosed.isSome then p.noted input d else d

/-- The last decision, when it already covers the bar. -/
def waits (d : DecisionTimes) : Option Time :=
  if p.decideOnNewBarOnly then
    input.barClosed.bind (fun closed => (p.seen input d).filter (fun t => t ≥ closed))
  else none

/-- What a decision at `fetchedAt` leaves remembered. -/
def recalled (fetchedAt : Time) (d : DecisionTimes) : DecisionTimes :=
  if input.signal.isFallback then d else d.set (p.barKey input) fetchedAt

theorem remember_timed (fetchedAt : Time) (st : PipelineState σ) (d : DecisionTimes) :
    p.remember input fetchedAt (st.timed d) = st.timed (p.recalled input fetchedAt d) := by
  unfold remember recalled
  split_ifs <;> rfl

theorem awaitingNewBar_timed {snapshot : MarketSnapshot} (hs : input.snapshot = .ok snapshot)
    (st : PipelineState σ) (d : DecisionTimes) :
    (if p.decideOnNewBarOnly then p.awaitingNewBar input
        (closedBars snapshot.candles input.timeframe snapshot.fetchedAt) (st.timed d)
      else (none, st.timed d)) = (p.waits input d, st.timed (p.looked input d)) := by
  have hclosed : (closedBars snapshot.candles input.timeframe snapshot.fetchedAt).getLast?.bind
      (fun bar => barCloseTime bar input.timeframe) = input.barClosed := by
    unfold CycleInput.barClosed
    rw [hs]
  unfold waits looked
  by_cases hnew : p.decideOnNewBarOnly = true
  · simp only [if_pos hnew]
    unfold awaitingNewBar
    rw [hclosed]
    cases input.barClosed with
    | none => simp
    | some t => simp [hnew, lastDecision_timed]
  · simp only [hnew]
    rfl

theorem steady_resolve_remembered (portfolio book : PortfolioState) (cashCap : Option ℚ)
    (price : ℚ) (fetchedAt : Time) (st : PipelineState σ) (d : DecisionTimes) :
    p.resolve ex input portfolio book cashCap price fetchedAt (st.timed d)
      = ((p.resolve ex input portfolio book cashCap price fetchedAt st).1,
        (p.resolve ex input portfolio book cashCap price fetchedAt st).2.timed
          (p.recalled input fetchedAt d)) := by
  have hplan : p.plannedQuantity ex (st.timed d) input.ownSignal book price cashCap
      = p.plannedQuantity ex st input.ownSignal book price cashCap := rfl
  have hgate := p.steady_gate input input.ownSignal portfolio book
    (p.plannedQuantity ex st input.ownSignal book price cashCap) price st d
  have hremember := p.remember_timed input fetchedAt (p.gate input input.ownSignal portfolio book
    (p.plannedQuantity ex st input.ownSignal book price cashCap) price st).2
  have hself := hremember (p.gate input input.ownSignal portfolio book
    (p.plannedQuantity ex st input.ownSignal book price cashCap) price st).2.lastDecisionAt
  rw [PipelineState.timed_self] at hself
  unfold resolve
  dsimp only
  rw [hplan, hgate]
  dsimp only
  rw [hremember, hself]
  split_ifs
  · rfl
  · rw [steady_execute ex p input _ _ _ _ _ (p.recalled input fetchedAt d),
      steady_execute ex p input _ _ _ _ _ (p.recalled input fetchedAt _)]
    rfl

/-- The signal of a result that went through the gate. -/
theorem resolve_signal (portfolio book : PortfolioState) (cashCap : Option ℚ) (price : ℚ)
    (fetchedAt : Time) (st : PipelineState σ) :
    (p.resolve ex input portfolio book cashCap price fetchedAt st).1.signal
      = some input.ownSignal := by
  unfold resolve
  dsimp only
  split_ifs
  · rfl
  · unfold execute
    split
    · rfl
    · dsimp only
      split_ifs
      · rfl
      · split <;> rfl

/-- A step that ends a cycle past the bar check: without an answer it leaves the times, with one
it remembers the decision. -/
def Concludes (fetchedAt : Time) (f : PipelineState σ → PipelineResult × PipelineState σ)
    (st : PipelineState σ) : Prop :=
  ∃ (r : PipelineResult) (s : PipelineState σ),
    (r.signal = none ∧ ∀ d, f (st.timed d) = (r, s.timed d)) ∨
    (r.signal = some input.ownSignal ∧
      ∀ d, f (st.timed d) = (r, s.timed (p.recalled input fetchedAt d)))

theorem concludes_decide (price : ℚ) (fetchedAt : Time) (st : PipelineState σ) :
    p.Concludes input fetchedAt (p.decide ex input price fetchedAt) st := by
  unfold Concludes decide
  simp only [PipelineState.timed_executor]
  rcases hread : readPortfolio ex st.executor with ⟨err | portfolio, s⟩
  · refine ⟨_, { st with executor := s }, .inl ⟨?_, fun d => rfl⟩⟩
    rfl
  · have hsleeve := steady_sleevePortfolio ex p input portfolio { st with executor := s }
    simp only
    rcases hbook : p.sleevePortfolio ex input portfolio { st with executor := s } with
      ⟨err | ⟨book, own⟩, st'⟩
    · refine ⟨{ PipelineResult.bare input.symbol with
        strategy := p.strategy
        error := some (.portfolioRead err) }, st', .inl ⟨rfl, fun d => ?_⟩⟩
      have h := hsleeve d
      rw [hbook] at h
      simp only [PipelineState.timed] at h ⊢
      rw [h]
    · let resolved := p.resolve ex input portfolio book (if own then some portfolio.cash else none)
        price fetchedAt st'
      refine ⟨resolved.1, resolved.2, .inr ⟨resolve_signal ex p input portfolio book _ price
        fetchedAt st', fun d => ?_⟩⟩
      have h := hsleeve d
      rw [hbook] at h
      simp only [PipelineState.timed] at h ⊢
      rw [h]
      exact steady_resolve_remembered ex p input portfolio book _ price fetchedAt st' d

/-- A cycle that gets as far as the bar check: it waits for the next bar, or concludes. -/
def Reaches (fetchedAt : Time) (f : PipelineState σ → PipelineResult × PipelineState σ)
    (st : PipelineState σ) : Prop :=
  ∃ (s : PipelineState σ) (g : PipelineState σ → PipelineResult × PipelineState σ),
    p.Concludes input fetchedAt g s ∧
    (∀ d, p.waits input d ≠ none → (f (st.timed d)).1.signal = none ∧
      (f (st.timed d)).2 = s.timed (p.looked input d)) ∧
    (∀ d, p.waits input d = none → f (st.timed d) = g (s.timed (p.looked input d)))

/-- A cycle past the bar check. -/
def conclude (mark : ℚ) (fetchedAt : Time) (st : PipelineState σ) :
    PipelineResult × PipelineState σ :=
  match input.indicators with
  | .error err =>
      ({ PipelineResult.bare input.symbol with
          strategy := p.strategy
          error := some (.indicators err) }, st)
  | .ok _ => p.decide ex input mark fetchedAt st

theorem concludes_conclude (mark : ℚ) (fetchedAt : Time) (st : PipelineState σ) :
    p.Concludes input fetchedAt (p.conclude ex input mark fetchedAt) st := by
  unfold Concludes conclude
  cases input.indicators with
  | error err => exact ⟨_, st, .inl ⟨rfl, fun d => rfl⟩⟩
  | ok u => exact concludes_decide ex p input mark fetchedAt st

theorem afterExits_timed {snapshot : MarketSnapshot} (hs : input.snapshot = .ok snapshot)
    (mark : ℚ) (st : PipelineState σ) (d : DecisionTimes) :
    p.afterExits ex input snapshot mark (st.timed d)
      = match p.waits input d with
        | some t =>
            ({ PipelineResult.bare input.symbol with
                strategy := p.strategy
                skipReason := some (.awaitingNewBar t) }, st.timed (p.looked input d))
        | none => p.conclude ex input mark snapshot.fetchedAt (st.timed (p.looked input d)) := by
  have hwait := p.awaitingNewBar_timed input hs st d
  unfold afterExits
  dsimp only
  cases hw : p.waits input d with
  | none =>
      rw [hw] at hwait
      simp only [hwait]
      try rfl
  | some t =>
      rw [hw] at hwait
      simp only [hwait]
      try rfl

theorem reaches_afterExits {snapshot : MarketSnapshot} (hs : input.snapshot = .ok snapshot)
    (mark : ℚ) (st : PipelineState σ) :
    p.Reaches input snapshot.fetchedAt (p.afterExits ex input snapshot mark) st := by
  refine ⟨st, p.conclude ex input mark snapshot.fetchedAt,
    concludes_conclude ex p input mark snapshot.fetchedAt st, fun d hd => ?_, fun d hd => ?_⟩
  · obtain ⟨t, ht⟩ := Option.ne_none_iff_exists'.mp hd
    rw [afterExits_timed ex p input hs, ht]
    exact ⟨rfl, rfl⟩
  · rw [afterExits_timed ex p input hs, hd]

theorem closeForExit_signal (position : Position) (mark : ℚ) (reason : ExitReason)
    (owner : Option String) (st : PipelineState σ) :
    (p.closeForExit ex input position mark reason owner st).1.signal = none := by
  unfold closeForExit
  dsimp only
  split_ifs
  · rfl
  · split <;> rfl

theorem checkExitLevels_signal {mark : ℚ} {owner : Option String} {st s : PipelineState σ}
    {r : PipelineResult} (h : p.checkExitLevels ex input mark owner st = (some r, s)) :
    r.signal = none := by
  unfold checkExitLevels at h
  split_ifs at h
  · cases h
  · split at h
    · cases h
    · dsimp only at h
      split at h
      · cases h
      · rename_i position reason _
        cases h
        exact closeForExit_signal ex p input position mark reason owner _

theorem checkTimeStop_signal {mark : ℚ} {fetchedAt : Time} {ownership : Ownership}
    {st s : PipelineState σ} {r : PipelineResult}
    (h : p.checkTimeStop ex input mark fetchedAt ownership st = (some r, s)) :
    r.signal = none := by
  unfold checkTimeStop at h
  split at h
  · cases h
  · split_ifs at h
    · cases h
    · split at h
      · cases h
      · dsimp only at h
        split at h
        · cases h
        · rename_i position _
          cases h
          exact closeForExit_signal ex p input position mark .timeStop _ _

/-- A cycle past the reads of the candles and of the owner. -/
theorem run_read {snapshot : MarketSnapshot} {last : OHLCV} (hs : input.snapshot = .ok snapshot)
    (hlast : snapshot.candles.getLast? = some last) (st : PipelineState σ) (d : DecisionTimes) :
    p.run ex input (st.timed d)
      = match p.checkExitLevels ex input last.close
            (ownerName (sleeveOwnership ex input (markPositions ex input.symbol last.close st)).1)
            ((sleeveOwnership ex input (markPositions ex input.symbol last.close st)).2.timed d)
          with
        | (some r, st) => (r, st)
        | (none, s) =>
            match (sleeveOwnership ex input (markPositions ex input.symbol last.close st)).1 with
            | .error err =>
                ({ PipelineResult.bare input.symbol with
                    strategy := p.strategy
                    error := some (.sleeveOwnership err) }, s)
            | .ok none => p.afterExits ex input snapshot last.close s
            | .ok (some o) =>
                match p.checkTimeStop ex input last.close snapshot.fetchedAt o s with
                | (some r, s) => (r, s)
                | (none, s) =>
                    if some o.strategy ≠ p.strategy then
                      ({ PipelineResult.bare input.symbol with
                          strategy := p.strategy
                          skipReason := some (.symbolLock o.strategy) }, s)
                    else p.afterExits ex input snapshot last.close s := by
  unfold run
  rw [hs]
  dsimp only
  rw [hlast]
  dsimp only
  rw [timed_markPositions, steady_sleeveOwnership]
  try rfl

/-- A cycle ends before it looks at the remembered times, or reaches the bar check. -/
theorem run_timed (st : PipelineState σ) :
    (∃ (r : PipelineResult) (s : PipelineState σ), r.signal = none ∧
      ∀ d, p.run ex input (st.timed d) = (r, s.timed d)) ∨
    ∃ snapshot, input.snapshot = .ok snapshot ∧
      p.Reaches input snapshot.fetchedAt (p.run ex input) st := by
  cases hsnap : input.snapshot with
  | error err =>
      refine .inl ⟨{ PipelineResult.bare input.symbol with error := some (.fetchFailed err) }, st,
        rfl, fun d => ?_⟩
      unfold run
      rw [hsnap]
  | ok snapshot =>
      cases hlast : snapshot.candles.getLast? with
      | none =>
          refine .inl ⟨{ PipelineResult.bare input.symbol with error := some .emptyCandles }, st,
            rfl, fun d => ?_⟩
          unfold run
          rw [hsnap]
          dsimp only
          rw [hlast]
      | some last =>
          -- the cycle past the reads of the candles and of the owner
          let own := sleeveOwnership ex input (markPositions ex input.symbol last.close st)
          let bare := { PipelineResult.bare input.symbol with strategy := p.strategy }
          have hrun := run_read ex p input hsnap hlast st
          -- a cycle that goes on to the bar check from `s` reaches it
          have hreach : ∀ s : PipelineState σ, (∀ d, p.run ex input (st.timed d)
              = p.afterExits ex input snapshot last.close (s.timed d)) →
              p.Reaches input snapshot.fetchedAt (p.run ex input) st := by
            intro s hs
            obtain ⟨s', g, hg, hskip, hgo⟩ := reaches_afterExits ex p input hsnap last.close s
            exact ⟨s', g, hg, fun d hd => by rw [hs]; exact hskip d hd,
              fun d hd => by rw [hs]; exact hgo d hd⟩
          have hexit := steady_checkExitLevels ex p input last.close (ownerName own.1) own.2
          rcases hlevels : p.checkExitLevels ex input last.close (ownerName own.1) own.2 with
            ⟨_ | r, s⟩
          · rw [hlevels] at hexit
            cases hown : own.1 with
            | error err =>
                refine .inl ⟨{ bare with error := some (.sleeveOwnership err) }, s, rfl,
                  fun d => ?_⟩
                rw [hrun, hexit, hown]
            | ok o =>
                cases o with
                | none =>
                    refine .inr ⟨snapshot, rfl, hreach s fun d => ?_⟩
                    rw [hrun, hexit, hown]
                | some o =>
                    have hstop := steady_checkTimeStop ex p input last.close snapshot.fetchedAt o s
                    rcases hdue : p.checkTimeStop ex input last.close snapshot.fetchedAt o s with
                      ⟨_ | r, s'⟩
                    · rw [hdue] at hstop
                      by_cases hlock : some o.strategy ≠ p.strategy
                      · refine .inl ⟨{ bare with skipReason := some (.symbolLock o.strategy) }, s',
                          rfl, fun d => ?_⟩
                        rw [hrun, hexit, hown]
                        dsimp only
                        rw [hstop]
                        exact if_pos hlock
                      · refine .inr ⟨snapshot, rfl, hreach s' fun d => ?_⟩
                        rw [hrun, hexit, hown]
                        dsimp only
                        rw [hstop]
                        exact if_neg hlock
                    · refine .inl ⟨r, s', checkTimeStop_signal ex p input hdue, fun d => ?_⟩
                      rw [hdue] at hstop
                      rw [hrun, hexit, hown]
                      dsimp only
                      rw [hstop]
          · refine .inl ⟨r, s, checkExitLevels_signal ex p input hlevels, fun d => ?_⟩
            rw [hlevels] at hexit
            rw [hrun, hexit]

/-! ## What the two markers have to agree on -/

theorem seen_of_get? {d : DecisionTimes} {m : Time} (h : d.get? (p.barKey input) = some m) :
    p.seen input d = some m := by
  unfold seen
  rw [h]

theorem seen_eq_of_none {d d' : DecisionTimes} (h : d.get? (p.barKey input) = none)
    (h' : d'.get? (p.barKey input) = none) : p.seen input d = p.seen input d' := by
  unfold seen
  rw [h, h']

theorem lagging_looked {d' d : DecisionTimes} (h : Lagging d' d) :
    Lagging (p.looked input d') (p.looked input d) := by
  unfold looked
  split_ifs
  · unfold noted
    cases hd : d.get? (p.barKey input) with
    | some m =>
        cases hd' : d'.get? (p.barKey input) with
        | some m' => exact h
        | none =>
            cases p.seen input d' with
            | none => exact h
            | some t => exact h.set_right hd t
    | none =>
        have hd' := h _ hd
        rw [hd', p.seen_eq_of_none input hd' hd]
        cases p.seen input d with
        | none => exact h
        | some t => exact h.set _ t t
  · exact h

theorem lagging_recalled {d' d : DecisionTimes} (h : Lagging d' d) (fetchedAt : Time) :
    Lagging (p.recalled input fetchedAt d') (p.recalled input fetchedAt d) := by
  unfold recalled
  split_ifs
  · exact h
  · exact h.set _ fetchedAt fetchedAt

theorem looked_get? {d : DecisionTimes} {key : Option String × Symbol} {m : Time}
    (h : d.get? key = some m) : (p.looked input d).get? key = some m := by
  unfold looked noted
  split_ifs
  · cases hd : d.get? (p.barKey input) with
    | some m' => exact h
    | none =>
        cases p.seen input d with
        | none => exact h
        | some t =>
            have hne : p.barKey input ≠ key := by
              intro heq
              rw [heq, h] at hd
              cases hd
            exact (Dict.get?_set_ne d t hne).trans h
  · exact h

/-- A cycle waits exactly when the last decision it finds covers its bar. -/
theorem waits_ne_none_iff (d : DecisionTimes) :
    p.waits input d ≠ none ↔ p.decideOnNewBarOnly = true ∧
      ∃ closed, input.barClosed = some closed ∧ ∃ t, p.seen input d = some t ∧ closed ≤ t := by
  unfold waits
  split_ifs with hnew
  · cases input.barClosed with
    | none => simp
    | some closed =>
        cases p.seen input d with
        | none => simp
        | some t => simp [hnew]
  · simp [hnew]

end Cycle

end Pipeline

/-! ## Runs with restarts -/

/-- A row of the decisions table, as far as the bar check reads it. -/
structure StoredDecision where
  symbol : Symbol
  strategy : Option String
  isFallback : Bool
  /-- When the row was written: `save_llm_decision` is given no time. -/
  timestamp : Time

/-- `get_recent_decisions(symbol, limit=1, strategy=…)`: the newest row that is not a
fallback. -/
def latestDecision (rows : List StoredDecision) (strategy : Option String) (symbol : Symbol) :
    Option Time :=
  ((rows.filter (fun row => ¬row.isFallback ∧ row.symbol = symbol
    ∧ (strategy = none ∨ row.strategy = strategy))).map StoredDecision.timestamp).max?

/-- One cycle of a run: what it reads from outside, whether it can read the stored decisions,
and when the row of its answer is written. -/
structure BarCycle where
  pipeline : Pipeline
  input : CycleInput
  lookup : Except PyError Unit
  writtenAt : Time

/-- A bar the decision engine was asked about, by a pipeline of `strategy`. -/
structure Asked where
  strategy : Option String
  symbol : Symbol
  /-- When the bar closed, where that is known. -/
  bar : Option Time
  /-- The answer was a decision and not a fallback HOLD. -/
  answered : Bool
  deriving DecidableEq

/-- The process, the table of decisions, and what the decision engine was asked so far. -/
structure BarRun (σ : Type) where
  pipeline : PipelineState σ
  rows : List StoredDecision
  asked : List Asked

inductive BarTurn (σ : Type) where
  | cycle (c : BarCycle)
  /-- A new process, with the executor, the engines and the book that it rebuilt. -/
  | restart (rebuilt : PipelineState σ)

namespace BarCycle

/-- What a decision of the cycle is remembered under. -/
def key (c : BarCycle) : Option String × Symbol := c.pipeline.barKey c.input

/-- The input of the cycle over a table. -/
def reading (c : BarCycle) (rows : List StoredDecision) : CycleInput :=
  { c.input with
    lastDecision := c.lookup.map fun _ => latestDecision rows c.pipeline.strategy c.input.symbol }

def step (ex : Executor σ) (c : BarCycle) (r : BarRun σ) : BarRun σ :=
  let out := c.pipeline.run ex (c.reading r.rows) r.pipeline
  match out.1.signal with
  | none => { r with pipeline := out.2 }
  | some signal => {
      pipeline := out.2
      rows :=
        if c.pipeline.hasStorage ∧ c.input.decisionId.isSome then
          r.rows ++ [⟨c.input.symbol, c.pipeline.strategy, signal.isFallback, c.writtenAt⟩]
        else r.rows
      asked := r.asked ++
        [⟨c.pipeline.strategy, c.input.symbol, c.input.barClosed, !signal.isFallback⟩] }

/-- The last decision a process finds for the cycle: the one it remembers, or else the newest
stored row, when it can read it. -/
def Finds (c : BarCycle) (r : BarRun σ) (t : Time) : Prop :=
  r.pipeline.lastDecisionAt.get? c.key = some t ∨
    (r.pipeline.lastDecisionAt.get? c.key = none ∧ c.pipeline.hasStorage = true
      ∧ c.lookup = .ok () ∧ latestDecision r.rows c.pipeline.strategy c.input.symbol = some t)

theorem finds_iff (c : BarCycle) (r : BarRun σ) (t : Time) :
    c.Finds r t ↔ c.pipeline.seen (c.reading r.rows) r.pipeline.lastDecisionAt = some t := by
  unfold Finds Pipeline.seen
  change _ ↔ (match r.pipeline.lastDecisionAt.get? c.key with
    | some t => some t
    | none => _) = some t
  cases r.pipeline.lastDecisionAt.get? c.key with
  | some m => simp
  | none =>
      cases hs : c.pipeline.hasStorage <;> cases hl : c.lookup <;> simp [reading, hl, Except.map]

end BarCycle

namespace BarTurn

/-- One turn of the run with restarts. -/
def step (ex : Executor σ) : BarTurn σ → BarRun σ → BarRun σ
  | cycle c, r => c.step ex r
  | restart rebuilt, r => { r with pipeline := rebuilt.timed Dict.empty }

/-- The same turn of the uninterrupted run. -/
def uninterrupted (ex : Executor σ) : BarTurn σ → BarRun σ → BarRun σ
  | cycle c, r => c.step ex r
  | restart _, r => r

/-- What the turn asks of the uninterrupted run `u` and the run with restarts `r`. A restart
rebuilds the process as it was, but for the remembered times. At a cycle, the time `u` remembers
and the time the process of `r` finds lie on the same side of the close of the bar. -/
def Alike (turn : BarTurn σ) (u r : BarRun σ) : Prop :=
  match turn with
  | restart rebuilt => ∃ d, rebuilt = r.pipeline.timed d
  | cycle c => ∀ m closed, u.pipeline.lastDecisionAt.get? c.key = some m →
      c.input.barClosed = some closed → (closed ≤ m ↔ ∃ t, c.Finds r t ∧ closed ≤ t)

end BarTurn

/-- The run with restarts has done what the uninterrupted run has, and remembers no more. -/
structure Abreast (u r : BarRun σ) : Prop where
  pipeline : ∃ d, r.pipeline = u.pipeline.timed d
    ∧ Pipeline.Lagging d u.pipeline.lastDecisionAt
  rows : r.rows = u.rows
  asked : r.asked = u.asked

theorem Abreast.refl (r : BarRun σ) : Abreast r r :=
  ⟨⟨r.pipeline.lastDecisionAt, rfl, fun _ h => h⟩, rfl, rfl⟩

section Run

variable (ex : Executor σ)

theorem Abreast.restart {u r : BarRun σ} (h : Abreast u r) {rebuilt : PipelineState σ}
    (halike : (BarTurn.restart rebuilt).Alike u r) :
    Abreast u ((BarTurn.restart rebuilt).step ex r) := by
  obtain ⟨⟨d, hd, -⟩, hrows, hasked⟩ := h
  obtain ⟨d', rfl⟩ := halike
  refine ⟨⟨Dict.empty, ?_, fun _ _ => rfl⟩, hrows, hasked⟩
  simp only [BarTurn.step, hd, PipelineState.timed_timed]

/-- The bar check of a cycle comes out the same in both runs. -/
theorem Abreast.waits {u r : BarRun σ} (h : Abreast u r) {c : BarCycle}
    (halike : (BarTurn.cycle c : BarTurn σ).Alike u r) :
    c.pipeline.waits (c.reading r.rows) r.pipeline.lastDecisionAt = none ↔
      c.pipeline.waits (c.reading u.rows) u.pipeline.lastDecisionAt = none := by
  obtain ⟨⟨d, hd, hlag⟩, hrows, -⟩ := h
  have hr : r.pipeline.lastDecisionAt = d := by rw [hd]; rfl
  refine not_iff_not.mp ?_
  rw [← ne_eq, ← ne_eq, Pipeline.waits_ne_none_iff, Pipeline.waits_ne_none_iff]
  refine and_congr_right fun _ => exists_congr fun closed => and_congr_right fun hclosed => ?_
  cases hm : u.pipeline.lastDecisionAt.get? c.key with
  | none =>
      have hnone : d.get? c.key = none := hlag c.key hm
      rw [hrows, hr, c.pipeline.seen_eq_of_none (c.reading u.rows) hnone hm]
  | some m =>
      have hside := halike m closed hm hclosed
      rw [c.pipeline.seen_of_get? (c.reading u.rows) hm]
      simp only [BarCycle.finds_iff] at hside
      rw [← hside]
      simp

theorem Abreast.cycle {u r : BarRun σ} (h : Abreast u r) {c : BarCycle}
    (halike : (BarTurn.cycle c : BarTurn σ).Alike u r) :
    Abreast (c.step ex u) (c.step ex r) := by
  have hwaits := h.waits halike
  obtain ⟨⟨d, hd, hlag⟩, hrows, hasked⟩ := h
  have hr : r.pipeline.lastDecisionAt = d := by rw [hd]; rfl
  rw [hr, hrows] at hwaits
  unfold BarCycle.step
  rw [hd, hrows, hasked]
  have hself := PipelineState.timed_self u.pipeline
  rcases c.pipeline.run_timed ex (c.reading u.rows) u.pipeline with
    ⟨res, s, hnone, hrun⟩ | ⟨snapshot, -, s, g, hg, hskip, hgo⟩
  · have hu := hrun u.pipeline.lastDecisionAt
    rw [hself] at hu
    rw [hu, hrun d]
    simp only [hnone]
    exact ⟨⟨d, rfl, hlag⟩, rfl, rfl⟩
  · have hlook := c.pipeline.lagging_looked (c.reading u.rows) hlag
    by_cases hw : c.pipeline.waits (c.reading u.rows) u.pipeline.lastDecisionAt = none
    · have hu := hgo u.pipeline.lastDecisionAt hw
      have hr := hgo d (hwaits.mpr hw)
      rw [hself] at hu
      rw [hu, hr]
      obtain ⟨res, s', ⟨hnone, hg⟩ | ⟨hsome, hg⟩⟩ := hg
      · rw [hg, hg]
        simp only [hnone]
        exact ⟨⟨_, rfl, hlook⟩, rfl, rfl⟩
      · rw [hg, hg]
        simp only [hsome]
        exact ⟨⟨_, rfl, c.pipeline.lagging_recalled (c.reading u.rows) hlook _⟩, rfl, rfl⟩
    · obtain ⟨husig, hust⟩ := hskip u.pipeline.lastDecisionAt hw
      obtain ⟨hrsig, hrst⟩ := hskip d (fun hd => hw (hwaits.mp hd))
      rw [hself] at husig hust
      simp only [husig, hrsig, hust, hrst]
      exact ⟨⟨_, rfl, hlook⟩, rfl, rfl⟩

/-! ### No bar is decided twice -/

/-- The bars a pipeline decided, in the order it was asked. -/
def decidedBars (asked : List Asked) (key : Option String × Symbol) : List Time :=
  asked.filterMap fun a => if a.answered ∧ (a.strategy, a.symbol) = key then a.bar else none

/-- The clock of a cycle: its bar closed before the candles were fetched, and no decision is
remembered from a later fetch. -/
def BarTurn.Timely (turn : BarTurn σ) (u : BarRun σ) : Prop :=
  match turn with
  | .restart _ => True
  | .cycle c => c.pipeline.decideOnNewBarOnly = true ∧
      ∀ snapshot, c.input.snapshot = .ok snapshot →
        (∀ closed, c.input.barClosed = some closed → closed ≤ snapshot.fetchedAt) ∧
        ∀ m, u.pipeline.lastDecisionAt.get? c.key = some m → m ≤ snapshot.fetchedAt

/-- The decided bars of a pipeline follow one another, and what it remembers covers them all. -/
def DecidedInOrder (u : BarRun σ) : Prop :=
  ∀ key, (decidedBars u.asked key).Pairwise (· < ·) ∧
    ∀ closed ∈ decidedBars u.asked key,
      ∃ m, u.pipeline.lastDecisionAt.get? key = some m ∧ closed ≤ m

theorem decidedBars_concat (asked : List Asked) (a : Asked) (key : Option String × Symbol) :
    decidedBars (asked ++ [a]) key = decidedBars asked key
      ++ (if a.answered ∧ (a.strategy, a.symbol) = key then a.bar else none).toList := by
  unfold decidedBars
  rw [List.filterMap_append]
  congr 1

/-- A step that decides nothing and forgets nothing. -/
theorem DecidedInOrder.mono {u : BarRun σ} (h : DecidedInOrder u) {u' : BarRun σ}
    (hasked : ∀ key, decidedBars u'.asked key = decidedBars u.asked key)
    (htimes : ∀ key m, u.pipeline.lastDecisionAt.get? key = some m →
      u'.pipeline.lastDecisionAt.get? key = some m) : DecidedInOrder u' := by
  intro key
  rw [hasked]
  refine ⟨(h key).1, fun closed hclosed => ?_⟩
  obtain ⟨m, hm, hle⟩ := (h key).2 closed hclosed
  exact ⟨m, htimes key m hm, hle⟩

/-- A bar that is decided when it closed after whatever was remembered, and by the time `t` that
is remembered from then on. -/
theorem DecidedInOrder.decide {u : BarRun σ} (h : DecidedInOrder u) {u' : BarRun σ} {a : Asked}
    {t : Time}
    (hasked : u'.asked = u.asked ++ [a]) (hnow : ∀ closed, a.bar = some closed → closed ≤ t)
    (hlater : ∀ m, u.pipeline.lastDecisionAt.get? (a.strategy, a.symbol) = some m → m ≤ t ∧
      ∀ closed, a.bar = some closed → m < closed)
    (hself : u'.pipeline.lastDecisionAt.get? (a.strategy, a.symbol) = some t)
    (hother : ∀ key m, (a.strategy, a.symbol) ≠ key →
      u.pipeline.lastDecisionAt.get? key = some m →
      u'.pipeline.lastDecisionAt.get? key = some m) : DecidedInOrder u' := by
  intro key
  obtain ⟨hpair, hcover⟩ := h key
  rw [hasked, decidedBars_concat]
  by_cases hkey : (a.strategy, a.symbol) = key
  · subst hkey
    have hnew : ∀ closed ∈ (if a.answered ∧ (a.strategy, a.symbol) = (a.strategy, a.symbol)
        then a.bar else none).toList, a.bar = some closed := by
      intro closed hclosed
      rw [Option.mem_toList] at hclosed
      split_ifs at hclosed
      exact hclosed
    refine ⟨List.pairwise_append.mpr ⟨hpair, ?_, ?_⟩, ?_⟩
    · cases (if a.answered ∧ (a.strategy, a.symbol) = (a.strategy, a.symbol)
        then a.bar else none) <;> simp
    · intro old hold closed hclosed
      obtain ⟨m, hm, hle⟩ := hcover old hold
      exact lt_of_le_of_lt hle ((hlater m hm).2 closed (hnew closed hclosed))
    · intro closed hclosed
      refine ⟨t, hself, ?_⟩
      rcases List.mem_append.mp hclosed with hold | hclosed
      · obtain ⟨m, hm, hle⟩ := hcover closed hold
        exact le_trans hle (hlater m hm).1
      · exact hnow closed (hnew closed hclosed)
  · rw [if_neg (fun hand => hkey hand.2), Option.toList_none, List.append_nil]
    refine ⟨hpair, fun closed hclosed => ?_⟩
    obtain ⟨m, hm, hle⟩ := hcover closed hclosed
    exact ⟨m, hother key m hkey hm, hle⟩

theorem DecidedInOrder.cycle {u : BarRun σ} (h : DecidedInOrder u) {c : BarCycle}
    (htimely : (BarTurn.cycle c : BarTurn σ).Timely u) : DecidedInOrder (c.step ex u) := by
  obtain ⟨hnew, hclock⟩ := htimely
  have hself := PipelineState.timed_self u.pipeline
  have hlooked : ∀ key m, u.pipeline.lastDecisionAt.get? key = some m →
      (c.pipeline.looked (c.reading u.rows) u.pipeline.lastDecisionAt).get? key = some m :=
    fun _ _ hm => c.pipeline.looked_get? (c.reading u.rows) hm
  unfold BarCycle.step
  rcases c.pipeline.run_timed ex (c.reading u.rows) u.pipeline with
    ⟨res, s, hnone, hrun⟩ | ⟨snapshot, hsnap, s, g, hg, hskip, hgo⟩
  · have hu := hrun u.pipeline.lastDecisionAt
    rw [hself] at hu
    rw [hu]
    simp only [hnone]
    exact h.mono (fun _ => rfl) fun _ _ hm => hm
  · by_cases hw : c.pipeline.waits (c.reading u.rows) u.pipeline.lastDecisionAt = none
    · have hu := hgo u.pipeline.lastDecisionAt hw
      rw [hself] at hu
      rw [hu]
      obtain ⟨res, s', ⟨hnone, hg⟩ | ⟨hsome, hg⟩⟩ := hg
      · rw [hg]
        simp only [hnone]
        exact h.mono (fun _ => rfl) hlooked
      · rw [hg]
        simp only [hsome]
        by_cases hfallback : c.input.signal.isFallback = true
        · -- a fallback HOLD decides no bar and remembers nothing
          refine h.mono (fun key => ?_) fun key m hm => ?_
          · have hnot : (!(c.reading u.rows).ownSignal.isFallback) = false := by
              rw [Bool.not_eq_false']
              exact hfallback
            rw [decidedBars_concat, hnot]
            simp
          · rw [PipelineState.timed_lastDecisionAt]
            unfold Pipeline.recalled
            rw [if_pos (show (c.reading u.rows).signal.isFallback = true from hfallback)]
            exact hlooked key m hm
        · have htimes : c.pipeline.recalled (c.reading u.rows) snapshot.fetchedAt
              (c.pipeline.looked (c.reading u.rows) u.pipeline.lastDecisionAt)
              = (c.pipeline.looked (c.reading u.rows) u.pipeline.lastDecisionAt).set c.key
                snapshot.fetchedAt := by
            unfold Pipeline.recalled
            rw [if_neg (show ¬(c.reading u.rows).signal.isFallback = true from hfallback)]
            rfl
          obtain ⟨hclosed, hmarker⟩ := hclock snapshot hsnap
          refine h.decide (t := snapshot.fetchedAt) rfl hclosed (fun m hm => ?_) ?_ ?_
          · refine ⟨hmarker m hm, fun closed hbar => ?_⟩
            by_contra hle
            refine (c.pipeline.waits_ne_none_iff (c.reading u.rows)
              u.pipeline.lastDecisionAt).mpr ⟨hnew, closed, hbar, m, ?_, not_lt.mp hle⟩ hw
            exact c.pipeline.seen_of_get? (c.reading u.rows) hm
          · rw [PipelineState.timed_lastDecisionAt, htimes]
            exact Dict.get?_set_self _ _ _
          · intro key m hne hm
            rw [PipelineState.timed_lastDecisionAt, htimes]
            exact (Dict.get?_set_ne _ _ hne).trans (hlooked key m hm)
    · obtain ⟨husig, hust⟩ := hskip u.pipeline.lastDecisionAt hw
      rw [hself] at husig hust
      simp only [husig, hust]
      exact h.mono (fun _ => rfl) hlooked

/-- One turn of both runs. -/
def bothRuns (turn : BarTurn σ) (runs : BarRun σ × BarRun σ) : BarRun σ × BarRun σ :=
  (turn.uninterrupted ex runs.1, turn.step ex runs.2)

theorem abreast_turn (turn : BarTurn σ) (runs : BarRun σ × BarRun σ)
    (halike : turn.Alike runs.1 runs.2) (h : Abreast runs.1 runs.2) :
    Abreast (bothRuns ex turn runs).1 (bothRuns ex turn runs).2 := by
  cases turn with
  | cycle c => exact h.cycle ex halike
  | restart rebuilt => exact h.restart ex halike

theorem inOrder_turn (turn : BarTurn σ) (u : BarRun σ) (htimely : turn.Timely u)
    (h : DecidedInOrder u) : DecidedInOrder (turn.uninterrupted ex u) := by
  cases turn with
  | cycle c => exact h.cycle ex htimely
  | restart rebuilt => exact h

/-- **Restarts do not change what is asked.** Take any run of cycles and restarts in which, at
every cycle, the time the uninterrupted process remembers and the time the restarted process
finds lie on the same side of the close of the latest bar. It asks the decision engine about the
same bars as the run without its restarts; and when the fetches are in order, every pipeline
decides each bar at most once. -/
theorem restarts_ask_alike (turns : List (BarTurn σ)) (start : BarRun σ)
    (halike : EachStep (bothRuns ex) (fun turn runs => turn.Alike runs.1 runs.2) turns
      (start, start)) :
    (Lib.run (BarTurn.step ex) turns start).asked
        = (Lib.run (BarTurn.uninterrupted ex) turns start).asked ∧
      (start.asked = [] → EachStep (BarTurn.uninterrupted ex) BarTurn.Timely turns start →
        ∀ key, (decidedBars (Lib.run (BarTurn.step ex) turns start).asked key).Pairwise
          (· < ·)) := by
  have habreast := run_preserves (I := fun runs => Abreast runs.1 runs.2)
    (fun turn runs => abreast_turn ex turn runs) turns halike (Abreast.refl start)
  have hpair : Lib.run (bothRuns ex) turns (start, start)
      = (Lib.run (BarTurn.uninterrupted ex) turns start, Lib.run (BarTurn.step ex) turns start) :=
    run_pair _ _ turns start start
  rw [hpair] at habreast
  refine ⟨habreast.asked, fun hempty htimely key => ?_⟩
  have hstart : DecidedInOrder start := by
    intro key
    rw [hempty]
    exact ⟨List.Pairwise.nil, fun closed hclosed => by cases hclosed⟩
  rw [habreast.asked]
  exact (run_preserves (inOrder_turn ex) turns htimely hstart key).1

end Run

/-! ## A bar that closes while the answer is under way -/

/-- Minutes after noon. -/
def minute (n : ℤ) : Time := minutes (720 + n)

/-- An hourly cycle that fetches at `fetched` the bar opened at `opened`, answers HOLD, and
writes its row at `written`. -/
def hourlyCycle (opened fetched written : Time) : BarCycle where
  pipeline := ⟨none, true, true⟩
  input := { flatCycle 100 { bracketBuy with action := .hold } with
    timeframe := some ⟨minutes 60, by decide⟩
    snapshot := .ok ⟨[⟨some opened, 100, 100, 100, 100, 0⟩], fetched⟩ }
  lookup := .ok ()
  writtenAt := written

/-- A process without positions that has decided nothing. -/
def freshRun : BarRun PaperExecutor :=
  ⟨paperStart 100 CostModel.free (RiskEngine.create RiskSettings.default) none, [], []⟩

/-- The noon bar is fetched at `fetched` and its answer is written at `written`; the process is
restarted, and goes on with the bar that closes at one. -/
def restartBetween (fetched written : Time) : List (BarTurn PaperExecutor) :=
  let first := hourlyCycle (minute (-60)) fetched written
  [.cycle first, .restart (first.step paperExecutor freshRun).pipeline,
    .cycle (hourlyCycle (minute 0) (minute 70) (minute 71))]

/-- Fetched a minute before one and written a minute after, the decision on the noon bar is taken
for one on the bar that closed at one, which is then never asked about. -/
theorem lateAnswer_skips_a_bar :
    (Lib.run (BarTurn.uninterrupted paperExecutor) (restartBetween (minute 59) (minute 61))
        freshRun).asked.map Asked.bar = [some (minute 0), some (minute 60)] ∧
      (Lib.run (BarTurn.step paperExecutor) (restartBetween (minute 59) (minute 61))
        freshRun).asked.map Asked.bar = [some (minute 0)] := by
  decide +kernel

/-- An answer that is written within the hour survives the restart. -/
theorem restarts_ask_alike_prompt :
    (Lib.run (BarTurn.step paperExecutor) (restartBetween (minute 5) (minute 6)) freshRun).asked
        = (Lib.run (BarTurn.uninterrupted paperExecutor) (restartBetween (minute 5) (minute 6))
          freshRun).asked ∧
      ∀ key, (decidedBars (Lib.run (BarTurn.step paperExecutor)
        (restartBetween (minute 5) (minute 6)) freshRun).asked key).Pairwise (· < ·) := by
  let first := hourlyCycle (minute (-60)) (minute 5) (minute 6)
  let second := hourlyCycle (minute 0) (minute 70) (minute 71)
  have hmem : (first.step paperExecutor freshRun).pipeline.lastDecisionAt.get? second.key
      = some (minute 5) := by decide +kernel
  have hrow : latestDecision (first.step paperExecutor freshRun).rows none "BTC/USDC"
      = some (minute 6) := by decide +kernel
  -- a fresh process remembers nothing
  have hfresh : ∀ {key : Option String × Symbol} {m : Time},
      (Dict.empty : DecisionTimes).get? key = some m → False :=
    fun h => Option.some_ne_none _ h.symm
  have halike := restarts_ask_alike paperExecutor (restartBetween (minute 5) (minute 6)) freshRun
    ⟨fun m closed hm => (hfresh hm).elim, ⟨_, (PipelineState.timed_self _).symm⟩,
      fun m closed hm hclosed => ?_, trivial⟩
  · refine ⟨halike.1, halike.2 rfl ⟨⟨rfl, fun snapshot hsnap => ?_⟩, trivial,
      ⟨rfl, fun snapshot hsnap => ?_⟩, trivial⟩⟩
    · cases hsnap
      refine ⟨fun closed hclosed => ?_, fun m hm => (hfresh hm).elim⟩
      cases hclosed
      decide
    · cases hsnap
      refine ⟨fun closed hclosed => ?_, fun m hm => ?_⟩
      · cases hclosed
        decide
      · cases hmem.symm.trans hm
        decide
  · have hm' : m = minute 5 := Option.some.inj (hm.symm.trans hmem)
    have hclosed' : closed = minute 60 := Option.some.inj (hclosed.symm.trans (by decide +kernel))
    subst hm' hclosed'
    have hlate : ¬minute 60 ≤ minute 5 := by decide
    refine iff_of_false hlate ?_
    rintro ⟨t, hmarker | ⟨-, -, -, hstored⟩, hle⟩
    · exact hfresh hmarker
    · have ht : t = minute 6 := Option.some.inj (hstored.symm.trans hrow)
      rw [ht] at hle
      exact absurd hle (by decide)

end SmartyTrader
