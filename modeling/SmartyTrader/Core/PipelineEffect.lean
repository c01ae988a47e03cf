import SmartyTrader.Core.DecisionPipeline

set_option autoImplicit false

/-! # What a cycle does to its executor

Seen from the executor, a cycle is a number of reads and marks and then at most one order.
There are two kinds of orders: the close of a position just read from the executor, and the
order of a signal that the risk engine approved for the book just read. `run_effect` says so,
and every property of runs of the pipeline is proved from it.
-/

namespace SmartyTrader

open Lib

variable {σ : Type}

/-- The state a cycle works on: the symbol marked at the last close, when there is one. -/
def CycleInput.marked (ex : Executor σ) (input : CycleInput) (st : PipelineState σ) :
    PipelineState σ :=
  match input.snapshot with
  | .error _ => st
  | .ok snapshot =>
      match snapshot.candles.getLast? with
      | none => st
      | some last => Pipeline.markPositions ex input.symbol last.close st

/-- The executor reaches a state by reads alone. -/
inductive Reads (ex : Executor σ) : σ → σ → Prop where
  | refl (s : σ) : Reads ex s s
  | positions {s t : σ} (h : Reads ex s t) : Reads ex s (ex.getPositions t).2
  | cash {s t : σ} (h : Reads ex s t) : Reads ex s (ex.getCash t).2

/-- An invariant of reads. -/
theorem Reads.preserves {ex : Executor σ} {I : σ → Prop}
    (hpos : ∀ s, I s → I (ex.getPositions s).2) (hcash : ∀ s, I s → I (ex.getCash s).2)
    {s t : σ} (h : Reads ex s t) (hs : I s) : I t := by
  induction h with
  | refl => exact hs
  | positions _ ih => exact hpos _ ih
  | cash _ ih => exact hcash _ ih

theorem Reads.trans {ex : Executor σ} {s t u : σ} (h : Reads ex s t) (h' : Reads ex t u) :
    Reads ex s u := by
  induction h' with
  | refl => exact h
  | positions _ ih => exact ih.positions
  | cash _ ih => exact ih.cash

/-- An invariant of marks holds of the marked state. -/
theorem marked_preserves {ex : Executor σ} {I : σ → Prop}
    (hmark : ∀ s symbol price, 0 < price → I s → I (ex.updatePrice s symbol price))
    (input : CycleInput) (st : PipelineState σ) (hs : I st.executor) :
    I (input.marked ex st).executor := by
  unfold CycleInput.marked
  split
  · exact hs
  · split
    · exact hs
    · unfold Pipeline.markPositions
      split_ifs with h
      · exact hs
      · exact hmark _ _ _ (not_le.mp h) hs

@[simp] theorem marked_riskEngine (ex : Executor σ) (input : CycleInput) (st : PipelineState σ)
    (p : Pipeline) : (input.marked ex st).riskEngine p = st.riskEngine p := by
  unfold CycleInput.marked
  split
  · rfl
  · split
    · rfl
    · unfold Pipeline.markPositions
      split_ifs <;> rfl

/-! ## Steps that only read -/

namespace SleeveBook

/-- Two books with the same setup differ at most in the cached decision rows. -/
def SameSetup (b b' : SleeveBook) : Prop :=
  b'.settings = b.settings ∧ b'.engines = b.engines ∧ b'.allocation = b.allocation

theorem SameSetup.refl (b : SleeveBook) : SameSetup b b := ⟨rfl, rfl, rfl⟩

theorem SameSetup.trans {a b c : SleeveBook} (h : SameSetup a b) (h' : SameSetup b c) :
    SameSetup a c :=
  ⟨h'.1.trans h.1, h'.2.1.trans h.2.1, h'.2.2.trans h.2.2⟩

theorem sameSetup_loadMeta (b : SleeveBook) (read : MetaRead) (ids : List DecisionId) :
    SameSetup b (b.loadMeta read ids).2 := by
  unfold loadMeta
  dsimp only
  split_ifs with h
  · exact SameSetup.refl b
  · cases read (ids.eraseDups.filter (fun i => !b.decisionMeta.contains i)) with
    | error err => exact SameSetup.refl b
    | ok found => exact ⟨rfl, rfl, rfl⟩

theorem sameSetup_ownership (b : SleeveBook) (read : MetaRead) (hooks : EntryHooks)
    (positions : List Position) (symbol : Symbol) :
    SameSetup b (b.ownership read hooks positions symbol).2 := by
  unfold ownership
  by_cases h1 : positions.any (fun p => p.symbol = symbol ∧ p.quantity > 0) = true
  · have h := sameSetup_loadMeta b read ((hooks.entryDecisionIds symbol).filterMap id)
    rw [if_pos h1]
    dsimp only
    cases hm : b.loadMeta read ((hooks.entryDecisionIds symbol).filterMap id) with
    | mk r b' =>
        rw [hm] at h
        cases r <;> exact h
  · rw [if_neg h1]
    dsimp only
    by_cases h2 : hooks.pendingEntryDecisionIds symbol = []
    · rw [if_pos h2]
      exact SameSetup.refl b
    · have h := sameSetup_loadMeta b read ((hooks.pendingEntryDecisionIds symbol).filterMap id)
      rw [if_neg h2]
      cases hm : b.loadMeta read ((hooks.pendingEntryDecisionIds symbol).filterMap id) with
      | mk r b' =>
          rw [hm] at h
          cases r <;> exact h

theorem sameSetup_ownersOf (read : MetaRead) (hooks : EntryHooks) (positions : List Position)
    (symbols : List Symbol) (b : SleeveBook) (acc : Dict Symbol String) :
    SameSetup b (ownersOf read hooks positions symbols b acc).2 := by
  induction symbols generalizing b acc with
  | nil => exact SameSetup.refl b
  | cons s ss ih =>
      have h := sameSetup_ownership b read hooks positions s
      simp only [ownersOf]
      cases hm : b.ownership read hooks positions s with
      | mk r b' =>
          rw [hm] at h
          match r with
          | .error err => exact h
          | .ok none => exact h.trans (ih b' acc)
          | .ok (some o) => exact h.trans (ih b' _)

theorem sameSetup_sleeveEquity (b : SleeveBook) (read : MetaRead) (hooks : EntryHooks)
    (name : String) (portfolio : PortfolioState) (allocation : Allocation)
    (realized : Except PyError ℚ) :
    SameSetup b (b.sleeveEquity read hooks name portfolio allocation realized).2 := by
  have h : SameSetup b (b.owners read hooks portfolio.positions).2 :=
    sameSetup_ownersOf read hooks _ _ b Dict.empty
  unfold sleeveEquity
  cases hm : b.owners read hooks portfolio.positions with
  | mk r b' =>
      rw [hm] at h
      cases r with
      | error err => exact h
      | ok owners => cases realized <;> exact h

end SleeveBook

/-- A step that reads the executor and leaves every engine as it was. -/
structure Quiet (ex : Executor σ) (st st' : PipelineState σ) : Prop where
  reads : Reads ex st.executor st'.executor
  agentEngine : st'.agentEngine = st.agentEngine
  book : Option.Rel SleeveBook.SameSetup st.book st'.book

theorem Quiet.refl (ex : Executor σ) (st : PipelineState σ) : Quiet ex st st where
  reads := Reads.refl _
  agentEngine := rfl
  book := by
    cases st.book with
    | none => exact Option.Rel.none
    | some b => exact Option.Rel.some (SleeveBook.SameSetup.refl b)

theorem Quiet.trans {ex : Executor σ} {a b c : PipelineState σ} (h : Quiet ex a b)
    (h' : Quiet ex b c) : Quiet ex a c where
  reads := h.reads.trans h'.reads
  agentEngine := h'.agentEngine.trans h.agentEngine
  book := by
    have h1 := h.book
    have h2 := h'.book
    cases ha : a.book <;> cases hb : b.book <;> cases hc : c.book <;>
      simp only [ha, hb, hc] at h1 h2 ⊢ <;> cases h1 <;> cases h2
    · exact Option.Rel.none
    · exact Option.Rel.some (SleeveBook.SameSetup.trans ‹_› ‹_›)

theorem Quiet.riskEngine {ex : Executor σ} {st st' : PipelineState σ} (h : Quiet ex st st')
    (p : Pipeline) : st'.riskEngine p = st.riskEngine p := by
  have hb := h.book
  unfold PipelineState.riskEngine
  rw [h.agentEngine]
  cases h1 : st.book <;> cases h2 : st'.book <;> simp only [h1, h2] at hb ⊢ <;> cases hb
  · rename_i b b' hs
    cases p.strategy with
    | none => rfl
    | some s => simp only [hs.2.1]

theorem Quiet.isSome_book {ex : Executor σ} {st st' : PipelineState σ} (h : Quiet ex st st') :
    st'.book.isSome = st.book.isSome := by
  have hb := h.book
  cases h1 : st.book <;> cases h2 : st'.book <;> simp only [h1, h2] at hb ⊢ <;> cases hb
  rfl

/-- Moving only the executor, by a read. -/
theorem Quiet.ofReads {ex : Executor σ} (st : PipelineState σ) {s : σ}
    (h : Reads ex st.executor s) : Quiet ex st { st with executor := s } where
  reads := h
  agentEngine := rfl
  book := (Quiet.refl ex st).book

namespace Pipeline

variable (ex : Executor σ) (p : Pipeline)

theorem quiet_sleeveOwnership (input : CycleInput) (st : PipelineState σ) :
    Quiet ex st (sleeveOwnership ex input st).2 := by
  unfold sleeveOwnership
  cases hb : st.book with
  | none => exact Quiet.refl ex st
  | some b =>
      have hread : Reads ex st.executor (ex.getPositions st.executor).2 := (Reads.refl _).positions
      cases hp : ex.getPositions st.executor with
      | mk r s =>
          rw [hp] at hread
          cases r with
          | error err => exact ⟨hread, rfl, by rw [hb]; exact Option.Rel.some (.refl b)⟩
          | ok positions =>
              refine ⟨hread, rfl, ?_⟩
              rw [hb]
              exact Option.Rel.some (SleeveBook.sameSetup_ownership _ _ _ _ _)

theorem quiet_lastDecision (input : CycleInput) (st : PipelineState σ) :
    Quiet ex st (p.lastDecision input st).2 := by
  unfold lastDecision
  dsimp only
  split
  · exact Quiet.refl ex st
  · split
    · exact ⟨Reads.refl _, rfl, (Quiet.refl ex st).book⟩
    · exact Quiet.refl ex st

theorem quiet_awaitingNewBar (input : CycleInput) (closed : List OHLCV) (st : PipelineState σ) :
    Quiet ex st (p.awaitingNewBar input closed st).2 := by
  unfold awaitingNewBar
  split
  · exact Quiet.refl ex st
  · exact quiet_lastDecision ex p input st

theorem quiet_sleevePortfolio (input : CycleInput) (portfolio : PortfolioState)
    (st : PipelineState σ) : Quiet ex st (p.sleevePortfolio ex input portfolio st).2 := by
  unfold sleevePortfolio
  split
  · rename_i b s hb hs
    split
    · exact Quiet.refl ex st
    · refine ⟨Reads.refl _, rfl, ?_⟩
      rw [hb]
      exact Option.Rel.some (SleeveBook.sameSetup_sleeveEquity _ _ _ _ _ _ _)
  · exact Quiet.refl ex st

theorem sleevePortfolio_own {input : CycleInput} {portfolio : PortfolioState}
    {st : PipelineState σ} {book : PortfolioState} {own : Bool}
    (h : (p.sleevePortfolio ex input portfolio st).1 = .ok (book, own)) :
    (own = false ∧ book = portfolio) ∨
    (own = true ∧ st.book.isSome ∧
      ∀ q ∈ book.positions, q ∈ portfolio.positions ∧ 0 < q.quantity) := by
  unfold sleevePortfolio at h
  split at h
  · rename_i b s hb hs
    split at h
    · cases h
      exact Or.inl ⟨rfl, rfl⟩
    · rename_i allocation ha
      right
      have h1 := h
      unfold SleeveBook.sleeveEquity at h1
      cases ho : b.owners input.metaRead (ex.entryHooks st.executor) portfolio.positions with
      | mk r b' =>
          rw [ho] at h1
          cases r with
          | error err => cases h1
          | ok owners =>
              cases hr : input.sleeveRealized with
              | error err => rw [hr] at h1; cases h1
              | ok realized =>
                  rw [hr] at h1
                  cases h1
                  refine ⟨rfl, by rw [hb]; rfl, fun q hq => ?_⟩
                  have := List.mem_filter.mp hq
                  simp only [decide_eq_true_eq, gt_iff_lt] at this
                  exact ⟨this.1, this.2.1⟩
  · cases h
    exact Or.inl ⟨rfl, rfl⟩

/-- The book a signal is decided on holds some of the positions of the portfolio, in order. -/
theorem sleevePortfolio_sublist {input : CycleInput} {portfolio : PortfolioState}
    {st : PipelineState σ} {book : PortfolioState} {own : Bool}
    (h : (p.sleevePortfolio ex input portfolio st).1 = .ok (book, own)) :
    book.positions.Sublist portfolio.positions := by
  unfold sleevePortfolio at h
  split at h
  · rename_i b s hb hs
    split at h
    · cases h
      exact List.Sublist.refl _
    · unfold SleeveBook.sleeveEquity at h
      cases ho : b.owners input.metaRead (ex.entryHooks st.executor) portfolio.positions with
      | mk r b' =>
          rw [ho] at h
          cases r with
          | error err => cases h
          | ok owners =>
              cases hr : input.sleeveRealized with
              | error err =>
                  rw [hr] at h
                  cases h
              | ok realized =>
                  rw [hr] at h
                  cases h
                  exact List.filter_sublist
  · cases h
    exact List.Sublist.refl _

end Pipeline

/-! ## Orders of a cycle -/

/-- The close of a position that was just read from the executor. -/
structure ClosePlan (ex : Executor σ) (input : CycleInput) (st : PipelineState σ) where
  before : σ
  after : σ
  positions : List Position
  position : Position
  mark : ℚ
  reads : Reads ex st.executor before
  readPositions : ex.getPositions before = (.ok positions, after)
  mem : position ∈ positions
  symbol_eq : position.symbol = input.symbol
  quantity_pos : 0 < position.quantity
  mark_pos : 0 < mark
  idle : closingSide position ∉ ex.workingOrderSides after input.symbol

/-- The request of a close. -/
def ClosePlan.request {ex : Executor σ} {input : CycleInput} {st : PipelineState σ}
    (plan : ClosePlan ex input st) : OrderRequest :=
  Pipeline.closeRequest plan.position plan.mark

/-- The order of an approved signal: what was read, what was planned and what was approved. -/
structure SignalPlan (ex : Executor σ) (p : Pipeline) (input : CycleInput)
    (st : PipelineState σ) where
  /-- The state the book is read in, and the state after the reads. -/
  before : σ
  after : σ
  positions : List Position
  cash : ℚ
  /-- The book the signal is sized and gated on, and the cap on its cash. -/
  book : PortfolioState
  cashCap : Option ℚ
  price : ℚ
  quantity : ℚ
  reads : Reads ex st.executor before
  readPositions : (ex.getPositions before).1 = .ok positions
  readCash : ex.getCash (ex.getPositions before).2 = (.ok cash, after)
  /-- The agent's own book, or the book of the sleeve, which is also bound by the free cash. -/
  own : Bool
  bookRead : ∃ st', Quiet ex st st' ∧ st'.executor = after ∧
    (p.sleevePortfolio ex input ⟨cash, positions, max (ex.pendingBuyValue after) 0⟩ st').1
      = .ok (book, own)
  cashCap_eq : cashCap = if own then some cash else none
  lastClose : ∃ snapshot last, input.snapshot = .ok snapshot ∧
    snapshot.candles.getLast? = some last ∧ last.close = price
  price_ne : price ≠ 0
  active : input.signal.action ≠ .hold
  planned : quantity = calculateQuantity input.ownSignal book
    (st.riskEngine p).settings (some price)
    (sizingCostModel (ex.costs after) (ex.buyPriceFactor after)).buyCostFactor
    (some (sizingCostModel (ex.costs after) (ex.buyPriceFactor after))) cashCap
  approved : ((st.riskEngine p).evaluate input.ownSignal book
    (some (quantity * price)) (some price) input.dailyNow input.cooldownNow).1 = .approved
  idle : (if input.signal.action = .buy then OrderSide.buy else OrderSide.sell)
    ∉ ex.workingOrderSides after input.symbol

/-- The request of a plan. -/
def SignalPlan.request {ex : Executor σ} {p : Pipeline} {input : CycleInput}
    {st : PipelineState σ} (plan : SignalPlan ex p input st) : OrderRequest :=
  Pipeline.signalRequest input input.ownSignal plan.quantity
    plan.price

/-- The book of a plan: the agent's own, or one over positions that were read. -/
theorem SignalPlan.ownBook {ex : Executor σ} {p : Pipeline} {input : CycleInput}
    {st : PipelineState σ} (plan : SignalPlan ex p input st) :
    (plan.book = ⟨plan.cash, plan.positions, max (ex.pendingBuyValue plan.after) 0⟩ ∧
      plan.cashCap = none) ∨
    (st.book.isSome ∧ (∀ q ∈ plan.book.positions, q ∈ plan.positions ∧ 0 < q.quantity) ∧
      plan.cashCap = some plan.cash) := by
  obtain ⟨st', hq, -, hb⟩ := plan.bookRead
  rcases Pipeline.sleevePortfolio_own ex p hb with ⟨h1, h2⟩ | ⟨h1, h2, h3⟩
  · exact Or.inl ⟨h2, by rw [plan.cashCap_eq, h1]; rfl⟩
  · exact Or.inr ⟨hq.isSome_book ▸ h2, h3, by rw [plan.cashCap_eq, h1]; rfl⟩

/-- A cycle sends `req` in executor state `s`. -/
inductive Sends (ex : Executor σ) (p : Pipeline) (input : CycleInput) (st : PipelineState σ) :
    σ → OrderRequest → Prop where
  | close (plan : ClosePlan ex input st) : Sends ex p input st plan.after plan.request
  | signal (plan : SignalPlan ex p input st) : Sends ex p input st plan.after plan.request

/-- `req` closes a position that was read from the executor, and no close of it works. -/
structure Closes (ex : Executor σ) (s : σ) (req : OrderRequest) : Prop where
  read : ∃ s₀ positions position mark, (ex.getPositions s₀).1 = .ok positions ∧
    position ∈ positions ∧ 0 < position.quantity ∧ req = Pipeline.closeRequest position mark
  idle : req.side ∉ ex.workingOrderSides s req.symbol

theorem ClosePlan.closes {ex : Executor σ} {input : CycleInput} {st : PipelineState σ}
    (plan : ClosePlan ex input st) : Closes ex plan.after plan.request where
  read := ⟨plan.before, plan.positions, plan.position, plan.mark, by rw [plan.readPositions],
    plan.mem, plan.quantity_pos, rfl⟩
  idle := by
    have h := plan.idle
    rw [← plan.symbol_eq] at h
    exact h

/-- What a cycle did: reads only and no order, or reads and one order. -/
def Effect (ex : Executor σ) (p : Pipeline) (input : CycleInput) (st : PipelineState σ)
    (r : PipelineResult × PipelineState σ) : Prop :=
  (Reads ex st.executor r.2.executor ∧ r.1.orderResult = none) ∨
  (∃ s req, Sends ex p input st s req ∧
    r.2.executor = (ex.placeOrder s req input.stamp).2 ∧
    ∀ o, r.1.orderResult = some o → (ex.placeOrder s req input.stamp).1 = .ok o)

/-- A result that tells what the executor answered to an order, and whose order it was. -/
structure Tells (ex : Executor σ) (input : CycleInput) (s : σ) (req : OrderRequest)
    (strategy : Option String) (signal : Option TradeSignal)
    (r : PipelineResult × PipelineState σ) : Prop where
  executor : r.2.executor = (ex.placeOrder s req input.stamp).2
  orderResult : r.1.orderResult = (ex.placeOrder s req input.stamp).1.toOption
  decisionId : r.1.decisionId = req.decisionId
  strategy : r.1.strategy = strategy
  signal : r.1.signal = signal

/-- What a cycle did and what its result tells of it. A close is told under the sleeve `owner`, the
order of a signal under the sleeve of the pipeline. -/
inductive CycleOutcome (ex : Executor σ) (p : Pipeline) (input : CycleInput) (st : PipelineState σ)
    (owner : Option String) (r : PipelineResult × PipelineState σ) : Prop where
  | quiet (reads : Reads ex st.executor r.2.executor) (silent : r.1.orderResult = none)
  | close (plan : ClosePlan ex input st)
      (told : Tells ex input plan.after plan.request owner none r)
  | signal (plan : SignalPlan ex p input st)
      (told : Tells ex input plan.after plan.request p.strategy (some input.ownSignal) r)

theorem CycleOutcome.effect {ex : Executor σ} {p : Pipeline} {input : CycleInput}
    {st : PipelineState σ} {owner : Option String} {r : PipelineResult × PipelineState σ}
    (h : CycleOutcome ex p input st owner r) : Effect ex p input st r := by
  have hsent : ∀ {s req strategy signal}, Tells ex input s req strategy signal r →
      ∀ o, r.1.orderResult = some o → (ex.placeOrder s req input.stamp).1 = .ok o := by
    intro s req strategy signal told o ho
    rw [told.orderResult] at ho
    cases hanswer : (ex.placeOrder s req input.stamp).1 with
    | error err =>
        rw [hanswer] at ho
        cases ho
    | ok o' =>
        rw [hanswer] at ho
        cases ho
        rfl
  cases h with
  | quiet reads silent => exact .inl ⟨reads, silent⟩
  | close plan told => exact .inr ⟨_, _, .close plan, told.executor, hsent told⟩
  | signal plan told => exact .inr ⟨_, _, .signal plan, told.executor, hsent told⟩

namespace Pipeline

variable (ex : Executor σ) (p : Pipeline)

/-! ## The order of a cycle -/

@[simp] theorem setRiskEngine_executor (st : PipelineState σ) (e : RiskEngine) :
    (st.setRiskEngine p e).executor = st.executor := by
  unfold PipelineState.setRiskEngine
  split
  · split <;> rfl
  · rfl

@[simp] theorem recordOutcome_executor (st : PipelineState σ) (strategy : Option String)
    (won : Bool) (now : Time) : (st.recordOutcome p strategy won now).executor = st.executor := by
  unfold PipelineState.recordOutcome
  split
  · split
    · rfl
    · exact setRiskEngine_executor p st _
  · exact setRiskEngine_executor p st _

@[simp] theorem recordFill_executor (st : PipelineState σ) (strategy : Option String)
    (order : OrderResult) (now : Time) :
    (st.recordFill p strategy order now).executor = st.executor := by
  unfold PipelineState.recordFill
  split
  · exact recordOutcome_executor p st _ _ _
  · rfl

theorem outcome_closeForExit {input : CycleInput} {st₀ : PipelineState σ}
    (st : PipelineState σ) {before : σ} {positions : List Position} {position : Position}
    {mark : ℚ} (hreads : Reads ex st₀.executor before)
    (hpositions : ex.getPositions before = (.ok positions, st.executor))
    (hmem : position ∈ positions) (hsym : position.symbol = input.symbol)
    (hq : 0 < position.quantity) (hmark : 0 < mark) (reason : ExitReason)
    (owner : Option String) :
    CycleOutcome ex p input st₀ owner
      ({ (p.closeForExit ex input position mark reason owner st).1 with strategy := owner },
        (p.closeForExit ex input position mark reason owner st).2) := by
  have hreads' : Reads ex st₀.executor st.executor := by
    have := hreads.positions
    rwa [hpositions] at this
  unfold closeForExit
  dsimp only
  by_cases hw : orderWorking ex st.executor input.symbol (closingSide position) = true
  · rw [if_pos hw]
    exact .quiet hreads' rfl
  · rw [if_neg hw]
    have hidle : closingSide position ∉ ex.workingOrderSides st.executor input.symbol := by
      simpa [orderWorking] using hw
    have hreq : ({ closeRequest position mark with symbol := input.symbol } : OrderRequest)
        = closeRequest position mark := by rw [← hsym]; rfl
    rw [hreq]
    let plan : ClosePlan ex input st₀ :=
      ⟨before, st.executor, positions, position, mark, hreads, hpositions, hmem, hsym, hq, hmark,
        hidle⟩
    refine .close plan ?_
    show Tells ex input st.executor (closeRequest position mark) owner none _
    cases hp : ex.placeOrder st.executor (closeRequest position mark) input.stamp with
    | mk r s =>
        cases r with
        | error err => exact ⟨by rw [hp], by rw [hp]; rfl, rfl, rfl, rfl⟩
        | ok order => exact ⟨by simp [hp], by rw [hp]; rfl, rfl, rfl, rfl⟩

/-- The exit levels either leave the cycle to go on, having only read, or end it. -/
theorem outcome_checkExitLevels {input : CycleInput} {st₀ st : PipelineState σ}
    (h : Quiet ex st₀ st) (mark : ℚ) (owner : Option String) :
    (∃ st', p.checkExitLevels ex input mark owner st = (none, st') ∧ Quiet ex st₀ st') ∨
    (∃ r st', p.checkExitLevels ex input mark owner st = (some r, st') ∧
      CycleOutcome ex p input st₀ owner (r, st')) := by
  unfold checkExitLevels
  by_cases hoff : (st.riskEngine p).settings.enforceExitLevels = false ∨ mark ≤ 0
  · rw [if_pos hoff]
    exact Or.inl ⟨st, rfl, h⟩
  · rw [if_neg hoff]
    have hmark : 0 < mark := not_le.mp (fun hm => hoff (Or.inr hm))
    have hread : Reads ex st.executor (ex.getPositions st.executor).2 := (Reads.refl _).positions
    cases hp : ex.getPositions st.executor with
    | mk r s =>
        rw [hp] at hread
        cases r with
        | error err => exact Or.inl ⟨_, rfl, h.trans (Quiet.ofReads st hread)⟩
        | ok positions =>
            dsimp only
            split
            · exact Or.inl ⟨_, rfl, h.trans (Quiet.ofReads st hread)⟩
            · rename_i position reason hfind
              right
              -- The position found is one of the positions just read.
              obtain ⟨q, hq, hbreach⟩ := List.exists_of_findSome?_eq_some hfind
              split_ifs at hbreach with hc
              rw [Option.map_eq_some_iff] at hbreach
              obtain ⟨r, -, hr⟩ := hbreach
              cases hr
              refine ⟨_, _, rfl, ?_⟩
              exact outcome_closeForExit ex p { st with executor := s } h.reads hp hq hc.1 hc.2
                hmark reason owner

/-- The time stop, likewise. -/
theorem outcome_checkTimeStop {input : CycleInput} {st₀ st : PipelineState σ}
    (h : Quiet ex st₀ st) (mark : ℚ) (fetchedAt : Time) (ownership : Ownership) :
    (∃ st', p.checkTimeStop ex input mark fetchedAt ownership st = (none, st') ∧
      Quiet ex st₀ st') ∨
    (∃ r st', p.checkTimeStop ex input mark fetchedAt ownership st = (some r, st') ∧
      CycleOutcome ex p input st₀ (some ownership.strategy) (r, st')) := by
  unfold checkTimeStop
  split
  · exact Or.inl ⟨st, rfl, h⟩
  · rename_i b hb
    by_cases hoff : b.timeStopDue ownership fetchedAt = false ∨ mark ≤ 0
    · rw [if_pos hoff]
      exact Or.inl ⟨st, rfl, h⟩
    · rw [if_neg hoff]
      have hmark : 0 < mark := not_le.mp (fun hm => hoff (Or.inr hm))
      have hread : Reads ex st.executor (ex.getPositions st.executor).2 :=
        (Reads.refl _).positions
      cases hp : ex.getPositions st.executor with
      | mk r s =>
          rw [hp] at hread
          have hquiet := h.trans (Quiet.ofReads st hread)
          cases r with
          | error err =>
              exact Or.inl ⟨_, rfl, hquiet⟩
          | ok positions =>
              dsimp only
              split
              · exact Or.inl ⟨_, rfl, hquiet⟩
              · rename_i position hfind
                have hc := List.find?_some hfind
                simp only [decide_eq_true_eq, gt_iff_lt] at hc
                right
                refine ⟨_, _, rfl, ?_⟩
                exact outcome_closeForExit ex p { st with executor := s } h.reads hp
                  (List.mem_of_find?_eq_some hfind) hc.1 hc.2 hmark .timeStop _

/-- A verdict of the whole gate is an approval only if the engine approved. -/
theorem gate_approved {input : CycleInput} {signal : TradeSignal}
    {portfolio book : PortfolioState} {planned : Option ℚ} {price : ℚ} {st : PipelineState σ}
    (h : (p.gate input signal portfolio book planned price st).1 = .approved) :
    ((st.riskEngine p).evaluate signal book (planned.map (· * price)) (some price)
      input.dailyNow input.cooldownNow).1 = .approved := by
  by_contra hne
  apply hne
  unfold gate at h
  dsimp only at h
  have hb : ¬ ((st.setRiskEngine p ((st.riskEngine p).evaluate signal book
      (planned.map (· * price)) (some price) input.dailyNow input.cooldownNow).2).book.isSome ∧
      signal.action = .buy ∧ ((st.riskEngine p).evaluate signal book (planned.map (· * price))
        (some price) input.dailyNow input.cooldownNow).1 = .approved) :=
    fun hc => hne hc.2.2
  rw [if_neg hb] at h
  split at h
  · exact h
  · rw [if_neg (fun hc => hne hc.2)] at h
    exact h

@[simp] theorem remember_executor (input : CycleInput) (fetchedAt : Time)
    (st : PipelineState σ) : (p.remember input fetchedAt st).executor = st.executor := by
  unfold remember
  split <;> rfl

theorem gate_executor (input : CycleInput) (signal : TradeSignal)
    (portfolio book : PortfolioState) (planned : Option ℚ) (price : ℚ) (st : PipelineState σ) :
    (p.gate input signal portfolio book planned price st).2.executor = st.executor := by
  unfold gate
  dsimp only
  split
  · split_ifs <;> simp
  · split_ifs <;> simp

/-- The order of an approved signal, sent in the state after the reads. -/
theorem outcome_execute {input : CycleInput} {st₀ st : PipelineState σ}
    (plan : SignalPlan ex p input st₀) (hafter : plan.after = st.executor) (owner : Option String)
    (verdict : RiskResult)
    (hidle : plan.request.side ∉ ex.workingOrderSides st.executor input.symbol) :
    CycleOutcome ex p input st₀ owner
      (p.execute ex input input.ownSignal (some plan.quantity)
        plan.price (p.decided input verdict) st) := by
  have hreq : signalRequest input input.ownSignal plan.quantity plan.price = plan.request := rfl
  unfold execute
  simp only [hreq]
  rw [if_neg (by simpa [orderWorking] using hidle)]
  refine .signal plan ?_
  rw [hafter]
  cases hp : ex.placeOrder st.executor plan.request input.stamp with
  | mk r s =>
      cases r with
      | error err => exact ⟨by rw [hp], by rw [hp]; rfl, rfl, rfl, rfl⟩
      | ok order => exact ⟨by simp [hp], by rw [hp]; rfl, rfl, rfl, rfl⟩

/-- From the book on: nothing is sent, or the planned order is. -/
theorem outcome_resolve {input : CycleInput} {st₀ st : PipelineState σ} {before : σ}
    {positions : List Position} {cash : ℚ} {portfolio book : PortfolioState}
    {cashCap : Option ℚ} {price : ℚ} (hquiet : Quiet ex st₀ st)
    (hreads : Reads ex st₀.executor before)
    (hpositions : (ex.getPositions before).1 = .ok positions)
    (hcash : ex.getCash (ex.getPositions before).2 = (.ok cash, st.executor))
    {own : Bool} (hbook : ∃ st', Quiet ex st₀ st' ∧ st'.executor = st.executor ∧
      (p.sleevePortfolio ex input ⟨cash, positions, max (ex.pendingBuyValue st.executor) 0⟩ st').1
        = .ok (book, own))
    (hcap : cashCap = if own then some cash else none) (fetchedAt : Time)
    (hlast : ∃ snapshot last, input.snapshot = .ok snapshot ∧
      snapshot.candles.getLast? = some last ∧ last.close = price) (owner : Option String) :
    CycleOutcome ex p input st₀ owner
      (p.resolve ex input portfolio book cashCap price fetchedAt st) := by
  unfold resolve
  dsimp only
  generalize hplanned : p.plannedQuantity ex st input.ownSignal book price cashCap = planned
  have hexec : (p.remember input fetchedAt
      (p.gate input input.ownSignal portfolio book planned price st).2).executor
        = st.executor := by
    rw [remember_executor, gate_executor]
  have happroved :
      (p.gate input input.ownSignal portfolio book planned price st).1 = .approved →
        ((st.riskEngine p).evaluate input.ownSignal book (planned.map (· * price)) (some price)
          input.dailyNow input.cooldownNow).1 = .approved := gate_approved p
  generalize p.gate input input.ownSignal portfolio book planned price st = g at hexec happroved ⊢
  split_ifs with hstop
  · exact .quiet (hexec ▸ hquiet.reads) rfl
  · rw [not_or, not_not] at hstop
    have hgate := happroved hstop.1
    cases planned with
    | none =>
        exact .quiet (hexec ▸ hquiet.reads) rfl
    | some quantity =>
        have hspec := hplanned
        unfold plannedQuantity at hspec
        split_ifs at hspec with hc
        simp only [Option.some.injEq] at hspec
        by_cases hidle : (signalRequest input input.ownSignal quantity price).side
            ∈ ex.workingOrderSides st.executor input.symbol
        · unfold execute
          dsimp only
          rw [if_pos (by rw [orderWorking, hexec]; exact decide_eq_true hidle)]
          exact .quiet (hexec ▸ hquiet.reads) rfl
        · let plan : SignalPlan ex p input st₀ :=
            { before := before
              after := st.executor
              positions := positions
              cash := cash
              book := book
              cashCap := cashCap
              price := price
              quantity := quantity
              reads := hreads
              readPositions := hpositions
              readCash := hcash
              own := own
              bookRead := hbook
              cashCap_eq := hcap
              lastClose := hlast
              price_ne := hc.2
              active := hc.1
              planned := by rw [← hspec, hquiet.riskEngine p]
              approved := by rw [hquiet.riskEngine p] at hgate; exact hgate
              idle := hidle }
          exact outcome_execute ex p plan hexec.symm owner _ (by rw [hexec]; exact hidle)

theorem sleevePortfolio_executor (input : CycleInput) (portfolio : PortfolioState)
    (st : PipelineState σ) :
    (p.sleevePortfolio ex input portfolio st).2.executor = st.executor := by
  unfold sleevePortfolio
  split
  · split <;> rfl
  · rfl

theorem outcome_decide {input : CycleInput} {st₀ st : PipelineState σ} (h : Quiet ex st₀ st)
    {price : ℚ} (fetchedAt : Time)
    (hlast : ∃ snapshot last, input.snapshot = .ok snapshot ∧
      snapshot.candles.getLast? = some last ∧ last.close = price) (owner : Option String) :
    CycleOutcome ex p input st₀ owner (p.decide ex input price fetchedAt st) := by
  unfold decide readPortfolio
  dsimp only
  have hread : Reads ex st.executor (ex.getPositions st.executor).2 := (Reads.refl _).positions
  cases hp : ex.getPositions st.executor with
  | mk r s =>
      rw [hp] at hread
      cases r with
      | error err => exact .quiet (h.reads.trans hread) rfl
      | ok positions =>
          have hcash : Reads ex s (ex.getCash s).2 := (Reads.refl _).cash
          dsimp only
          cases hc : ex.getCash s with
          | mk r s' =>
              rw [hc] at hcash
              cases r with
              | error err => exact .quiet ((h.reads.trans hread).trans hcash) rfl
              | ok cash =>
                  have hquiet : Quiet ex st₀ { st with executor := s' } :=
                    h.trans (Quiet.ofReads st (hread.trans hcash))
                  dsimp only
                  have hquiet' := hquiet.trans (quiet_sleevePortfolio ex p input
                    ⟨cash, positions, max (ex.pendingBuyValue s') 0⟩ _)
                  have hex := sleevePortfolio_executor ex p input
                    ⟨cash, positions, max (ex.pendingBuyValue s') 0⟩ { st with executor := s' }
                  cases hs : p.sleevePortfolio ex input
                      ⟨cash, positions, max (ex.pendingBuyValue s') 0⟩
                      { st with executor := s' } with
                  | mk r st' =>
                      rw [hs] at hquiet' hex
                      have hex' : st'.executor = s' := hex
                      cases r with
                      | error err => exact .quiet hquiet'.reads rfl
                      | ok bo =>
                          obtain ⟨book, own⟩ := bo
                          refine outcome_resolve ex p hquiet' h.reads (by rw [hp])
                            (by rw [hp, hc, hex']) ?_ rfl fetchedAt hlast owner
                          refine ⟨{ st with executor := s' }, hquiet, hex'.symm, ?_⟩
                          rw [hex', hs]

/-- Past the exit checks a cycle waits, fails, or decides at the last close. -/
theorem outcome_afterExits {input : CycleInput} {st₀ st : PipelineState σ} (h : Quiet ex st₀ st)
    {snapshot : MarketSnapshot} {last : OHLCV} (hsnap : input.snapshot = .ok snapshot)
    (hlast : snapshot.candles.getLast? = some last) (owner : Option String) :
    CycleOutcome ex p input st₀ owner (p.afterExits ex input snapshot last.close st) := by
  unfold afterExits
  dsimp only
  have hwait : Quiet ex st₀ (if p.decideOnNewBarOnly = true then
      p.awaitingNewBar input (closedBars snapshot.candles input.timeframe
        snapshot.fetchedAt) st else (none, st)).2 := by
    split_ifs
    · exact h.trans (quiet_awaitingNewBar ex p input _ st)
    · exact h
  split
  · exact .quiet hwait.reads rfl
  · split
    · exact .quiet hwait.reads rfl
    · exact outcome_decide ex p hwait _ ⟨snapshot, last, hsnap, hlast, rfl⟩ owner

/-- **Outcome of a cycle.** Whatever its input, a cycle reads from its executor and then sends at
most one order, whose answer its result tells. -/
theorem run_outcome (input : CycleInput) (st : PipelineState σ) :
    CycleOutcome ex p input (input.marked ex st)
      (ownerName (sleeveOwnership ex input (input.marked ex st)).1) (p.run ex input st) := by
  unfold run CycleInput.marked
  cases hsnap : input.snapshot with
  | error err => exact .quiet (Reads.refl _) rfl
  | ok snapshot =>
      dsimp only
      cases hl : snapshot.candles.getLast? with
      | none => exact .quiet (Reads.refl _) rfl
      | some last =>
          dsimp only
          generalize markPositions ex input.symbol last.close st = st₀
          have hown := quiet_sleeveOwnership ex input st₀
          generalize sleeveOwnership ex input st₀ = own at hown ⊢
          rcases outcome_checkExitLevels ex p hown last.close (ownerName own.1) with
            ⟨st', he, hq⟩ | ⟨r, st', he, hout⟩
          · rw [he]
            dsimp only
            split
            · exact .quiet hq.reads rfl
            · exact outcome_afterExits ex p hq hsnap hl _
            · rename_i o ho
              have howner : ownerName own.1 = some o.strategy := by
                rw [ho]
                rfl
              rcases outcome_checkTimeStop ex p hq last.close snapshot.fetchedAt o with
                ⟨st'', ht, hq'⟩ | ⟨r, st'', ht, hout⟩
              · rw [ht]
                dsimp only
                split_ifs
                · exact .quiet hq'.reads rfl
                · exact outcome_afterExits ex p hq' hsnap hl _
              · rw [ht, howner]
                exact hout
          · rw [he]
            exact hout

/-- **Effect of a cycle.** Whatever its input, a cycle reads from its executor and then sends
at most one order, which is the close of a position it read or the order of a signal the engine
approved for the book it read. -/
theorem run_effect (input : CycleInput) (st : PipelineState σ) :
    Effect ex p input (input.marked ex st) (p.run ex input st) :=
  (run_outcome ex p input st).effect

/-! ## Invariants of the executor -/

/-- What reads, marks and sent orders preserve, a cycle preserves. -/
theorem run_preserves {I : σ → Prop} (hpos : ∀ s, I s → I (ex.getPositions s).2)
    (hcash : ∀ s, I s → I (ex.getCash s).2)
    (hmark : ∀ s symbol price, 0 < price → I s → I (ex.updatePrice s symbol price))
    (hclose : ∀ s req stamp, Closes ex s req → I s → I (ex.placeOrder s req stamp).2)
    {input : CycleInput} {st : PipelineState σ}
    (hsignal : ∀ plan : SignalPlan ex p input (input.marked ex st), I plan.after →
      I (ex.placeOrder plan.after plan.request input.stamp).2)
    (hs : I st.executor) : I (p.run ex input st).2.executor := by
  have hstart := marked_preserves hmark input st hs
  rcases run_effect ex p input st with ⟨hreads, -⟩ | ⟨s, req, hsends, hex, -⟩
  · exact hreads.preserves hpos hcash hstart
  · rw [hex]
    cases hsends with
    | close plan =>
        refine hclose _ _ _ plan.closes ?_
        have hafter := plan.reads.positions
        rw [plan.readPositions] at hafter
        exact hafter.preserves hpos hcash hstart
    | signal plan =>
        refine hsignal plan ?_
        have hafter := plan.reads.positions.cash
        rw [plan.readCash] at hafter
        exact hafter.preserves hpos hcash hstart

theorem closeEach_preserves {I : σ → Prop}
    (hclose : ∀ s req stamp, Closes ex s req → I s → I (ex.placeOrder s req stamp).2)
    (owners : Dict Symbol String) (outcomeNow : Time) {s₀ : σ} {positions : List Position}
    (hread : (ex.getPositions s₀).1 = .ok positions) (todo : List (Position × Stamp))
    (htodo : ∀ t ∈ todo, t.1 ∈ positions) (st : PipelineState σ) (hs : I st.executor) :
    I (p.closeEach ex owners outcomeNow todo st).2.executor := by
  induction todo generalizing st with
  | nil => exact hs
  | cons t rest ih =>
      obtain ⟨position, stamp⟩ := t
      have hone : I (p.closeOne ex owners stamp outcomeNow position st).2.executor := by
        unfold closeOne
        split_ifs with hskip
        · exact hs
        · rw [not_or, not_or] at hskip
          have hplaced := hclose st.executor (closeRequest position position.currentPrice) stamp
            ⟨⟨s₀, positions, position, _, hread, htodo _ List.mem_cons_self,
              not_le.mp hskip.1, rfl⟩, by simpa [orderWorking, closeRequest] using hskip.2.2⟩ hs
          split
          · rename_i heq
            rw [heq] at hplaced
            exact hplaced
          · rename_i heq
            rw [heq] at hplaced
            simpa using hplaced
      unfold closeEach
      split
      · rename_i heq
        rw [heq] at hone
        exact hone
      · rename_i order st' heq
        rw [heq] at hone
        have hrest := ih (fun t ht => htodo t (List.mem_cons_of_mem _ ht)) st' hone
        split
        · rename_i heq'
          rw [heq'] at hrest
          exact hrest
        · rename_i heq'
          rw [heq'] at hrest
          exact hrest

/-- What reads and closing orders preserve, closing all positions preserves. -/
theorem closeAllPositions_preserves {I : σ → Prop}
    (hpos : ∀ s, I s → I (ex.getPositions s).2)
    (hclose : ∀ s req stamp, Closes ex s req → I s → I (ex.placeOrder s req stamp).2)
    (read : MetaRead) (stamps : ℕ → Stamp) (outcomeNow : Time) (st : PipelineState σ)
    (hs : I st.executor) :
    I (p.closeAllPositions ex read stamps outcomeNow st).2.executor := by
  have hp := hpos _ hs
  unfold closeAllPositions
  cases hg : ex.getPositions st.executor with
  | mk r s =>
      rw [hg] at hp
      cases r with
      | error err => exact hp
      | ok positions =>
          have htodo : ∀ t ∈ positions.mapIdx (fun i position => (position, stamps i)),
              t.1 ∈ positions := by
            intro t ht
            obtain ⟨i, hi, rfl⟩ := List.mem_mapIdx.mp ht
            exact List.getElem_mem hi
          have hloop := fun owners (st' : PipelineState σ) =>
            closeEach_preserves ex p hclose owners outcomeNow (by rw [hg]) _ htodo st'
          dsimp only
          split
          · exact hloop _ _ hp
          · split <;> exact hloop _ _ hp

end Pipeline

/-! ## Sample inputs -/

/-- A cycle over one flat candle in which the decision engine answers `signal` with full
confidence in its levels and nothing else comes from outside. -/
def flatCycle (close : ℚ) (signal : TradeSignal) : CycleInput where
  symbol := signal.symbol
  timeframe := none
  snapshot := .ok ⟨[⟨none, close, close, close, close, 0⟩], 0⟩
  indicators := .ok ()
  metaRead := fun _ => .ok []
  sleeveRealized := .ok 0
  lastDecision := .ok none
  context := none
  signal := signal
  decisionId := some 1
  dailyNow := 0
  cooldownNow := 0
  outcomeNow := 0
  stamp := ⟨"a", 0⟩

/-- A BUY of `BTC/USDC` with levels 5 below and 20 above a price of 100. -/
def bracketBuy : TradeSignal where
  symbol := "BTC/USDC"
  action := .buy
  confidence := 4 / 5
  reasoning := ""
  stopLoss := some 95
  takeProfit := some 120
  isFallback := false
  confidence_nonneg := by decide +kernel
  confidence_le_one := by decide +kernel

/-- A SELL of a symbol. -/
def plainSell (symbol : Symbol) : TradeSignal where
  symbol := symbol
  action := .sell
  confidence := 4 / 5
  reasoning := ""
  stopLoss := none
  takeProfit := none
  isFallback := false
  confidence_nonneg := by decide +kernel
  confidence_le_one := by decide +kernel

/-- A pipeline of the whole agent, without storage. -/
def agentPipeline : Pipeline := ⟨none, false, false⟩

end SmartyTrader
