import SmartyTrader.Core.PipelineEffect
import SmartyTrader.Execution.PaperExecutor

set_option autoImplicit false

/-! # The pipeline over the paper executor

The paper executor as an executor of the pipeline, and runs of cycles over it. The subject is
when the book holds phantom positions, positions of size zero. The executor fills whatever it
can pay for, an order of size zero included, so it is the sizing that must not plan one: a
BUY whose budgets do not pay for one unit of `1e-8` is sized to zero, passes the gate and is
filled. In runs where this does not happen no position and no fill is ever empty
(`no_phantom_positions`).
-/

namespace SmartyTrader

open Lib

/-- `PaperExecutor` behind the executor protocol. It fills at once and has none of the optional
hooks of the venue executors. -/
def paperExecutor : Executor PaperExecutor where
  getPositions e := (.ok e.getPositions, e)
  getCash e := (.ok e.cash, e)
  placeOrder e req stamp := e.placeOrder req ("paper-" ++ stamp.shortId) stamp.now
  updatePrice e symbol price := e.updatePrice symbol price
  pendingBuyValue _ := 0
  workingOrderSides _ _ := []
  entryHooks e := ⟨e.entryDecisionIds, fun _ => []⟩
  costs e := e.costs
  buyPriceFactor _ := 1

@[simp] theorem paperExecutor_placeOrder (e : PaperExecutor) (req : OrderRequest)
    (stamp : Stamp) :
    paperExecutor.placeOrder e req stamp
      = e.placeOrder req ("paper-" ++ stamp.shortId) stamp.now := rfl

/-- Every position is filed under its own symbol, is long and holds something. -/
def PaperExecutor.Solid (e : PaperExecutor) : Prop :=
  ∀ s pos, e.positions.get? s = some pos → pos.symbol = s ∧ pos.side = .long ∧ 0 < pos.quantity

namespace PaperExecutor

theorem solid_create (cash : ℚ) (costs : CostModel) : (create cash costs).Solid := by
  intro s pos h
  cases h

theorem Solid.mem {e : PaperExecutor} (h : e.Solid) {pos : Position}
    (hm : pos ∈ e.getPositions) : pos.side = .long ∧ 0 < pos.quantity := by
  obtain ⟨s, hs⟩ := (Dict.mem_values_iff _ _).mp hm
  exact (h s pos hs).2

theorem Solid.updatePrice {e : PaperExecutor} (h : e.Solid) (s : Symbol) (price : ℚ) :
    (e.updatePrice s price).Solid := by
  unfold PaperExecutor.updatePrice
  cases hp : e.positions.get? s with
  | none => exact h
  | some pos =>
      intro s' pos' hp'
      rw [Dict.get?_set] at hp'
      split_ifs at hp' with hs
      · cases hp'
        exact hs ▸ h s pos hp
      · exact h s' pos' hp'

theorem Solid.bought {e : PaperExecutor} (h : e.Solid) {req : OrderRequest} (price : ℚ)
    (hq : 0 < req.quantity) : (e.bought req price).Solid := by
  intro s pos hp
  simp only [PaperExecutor.bought, Dict.get?_set] at hp
  split_ifs at hp with hs
  · cases hp
    subst hs
    unfold positionAfter
    cases hpos : e.positions.get? req.symbol with
    | none => exact ⟨rfl, rfl, hq⟩
    | some old =>
        obtain ⟨h1, h2, h3⟩ := h _ _ hpos
        exact ⟨h1, h2, by show 0 < old.quantity + req.quantity; positivity⟩
  · exact h s pos hp

theorem Solid.sold {e : PaperExecutor} (h : e.Solid) {req : OrderRequest} (price : ℚ)
    {pos : Position} (hpos : e.positions.get? req.symbol = some pos) :
    (e.sold req price pos).Solid := by
  have hε : (0 : ℚ) < lotEpsilon := by norm_num [lotEpsilon]
  intro s pos' hp
  simp only [PaperExecutor.sold] at hp
  by_cases h0 : pos.quantity - req.quantity ≤ lotEpsilon
  · rw [if_pos h0, Dict.get?_erase] at hp
    split_ifs at hp with hs
    exact h s pos' hp
  · rw [if_neg h0, Dict.get?_set] at hp
    split_ifs at hp with hs
    · cases hp
      obtain ⟨h1, h2, -⟩ := h _ _ hpos
      exact ⟨hs ▸ h1, h2, lt_trans hε (not_le.mp h0)⟩
    · exact h s pos' hp

/-- An order of positive size keeps the book solid, and its fill has that size. -/
theorem Solid.placeOrder {e : PaperExecutor} (h : e.Solid) {req : OrderRequest}
    (hq : 0 < req.quantity) (orderId : OrderId) (now : Time) :
    (e.placeOrder req orderId now).2.Solid ∧
      ∀ o, (e.placeOrder req orderId now).1 = .ok o → o.status = .filled → 0 < o.quantity := by
  rcases e.placeOrder_cases req orderId now with
    ⟨r, e', hr, he, -, -, hpos, -⟩ | ⟨price, -, h0, hsome, he⟩ |
    ⟨price, hside, -, he⟩ | ⟨price, pos, hside, hpos, -, he⟩
  · rw [he]
    refine ⟨fun s pos hp => h s pos (by rw [← hpos]; exact hp), fun o ho hf => ?_⟩
    cases ho
    rw [hr] at hf
    cases hf
  · rw [he]
    exact ⟨h, fun o ho => by cases ho⟩
  · rw [he]
    refine ⟨h.bought price hq, fun o ho _ => ?_⟩
    cases ho
    exact hq
  · rw [he]
    refine ⟨h.sold price hpos, fun o ho _ => ?_⟩
    cases ho
    exact hq

end PaperExecutor

/-! ## One cycle -/

section Cycle

variable (p : Pipeline) (input : CycleInput) (st : PipelineState PaperExecutor)

/-- All candles of the cycle close above zero. -/
def PositiveCloses : Prop :=
  ∀ snapshot, input.snapshot = .ok snapshot → ∀ c ∈ snapshot.candles, 0 < c.close

/-- If the cycle sends a BUY, every budget it was sized with pays for one unit of `1e-8`. -/
def Funded : Prop :=
  ∀ plan : SignalPlan paperExecutor p input (input.marked paperExecutor st), input.signal.action = .buy →
    PaysOneUnit input.ownSignal plan.book (st.riskEngine p).settings plan.price
      (sizingCostModel (paperExecutor.costs plan.after) (paperExecutor.buyPriceFactor plan.after))
      plan.cashCap

variable {p input st}

theorem solid_reads {e e' : PaperExecutor} (h : Reads paperExecutor e e') (he : e.Solid) :
    e'.Solid :=
  h.preserves (I := PaperExecutor.Solid) (fun _ h => h) (fun _ h => h) he

theorem solid_marked (he : st.executor.Solid) : (input.marked paperExecutor st).executor.Solid :=
  marked_preserves (I := PaperExecutor.Solid) (fun _ _ _ _ h => h.updatePrice _ _) input st he

/-- An approved SELL closes something: the book it was approved on holds the symbol. -/
theorem sell_quantity_pos {st : PipelineState PaperExecutor}
    (plan : SignalPlan paperExecutor p input st) (hs : plan.before.Solid)
    (hsell : input.signal.action = .sell) : 0 < plan.quantity := by
  have happroved := plan.approved
  unfold RiskEngine.evaluate at happroved
  simp only [CycleInput.ownSignal_action, hsell] at happroved
  -- The gate refuses a SELL without long exposure.
  have hexp : 0 < longExposure plan.book input.symbol := by
    by_contra hn
    unfold RiskEngine.evaluateExit at happroved
    rw [if_pos (show longExposure plan.book input.ownSignal.symbol ≤ 0 from not_lt.mp hn)]
      at happroved
    cases happroved
  have hbook : ∀ q ∈ plan.book.positions, 0 < q.quantity := by
    have hread : plan.before.getPositions = plan.positions := Except.ok.inj plan.readPositions
    rcases plan.ownBook with ⟨hb, -⟩ | ⟨-, hb, -⟩
    · intro q hq
      rw [hb] at hq
      exact (hs.mem (hread ▸ hq)).2
    · exact fun q hq => (hb q hq).2
  have hheld : 0 < heldLong plan.book input.symbol := by
    unfold heldLong
    unfold longExposure at hexp
    have hpos : ∀ q ∈ plan.book.positions.filter
        (fun q => q.symbol = input.symbol ∧ q.side = .long), 0 < q.quantity :=
      fun q hq => hbook q (List.mem_filter.mp hq).1
    generalize plan.book.positions.filter
      (fun q => q.symbol = input.symbol ∧ q.side = .long) = held at hexp hpos
    cases held with
    | nil => simp at hexp
    | cons q qs =>
        refine List.sum_pos _ (fun x hx => ?_) (by simp)
        obtain ⟨q', hq', rfl⟩ := List.mem_map.mp hx
        exact hpos q' hq'
  rw [plan.planned, calculateQuantity]
  simp only [CycleInput.ownSignal_action, CycleInput.ownSignal_symbol, hsell, true_and, gt_iff_lt,
    if_pos hheld]
  exact hheld

/-- Every order of a funded cycle has a positive size. -/
theorem request_quantity_pos (hclose : PositiveCloses input) (hfunded : Funded p input st)
    (hs : st.executor.Solid) {s : PaperExecutor} {req : OrderRequest}
    (h : Sends paperExecutor p input (input.marked paperExecutor st) s req) :
    s.Solid ∧ 0 < req.quantity := by
  cases h with
  | close plan =>
      have hb := solid_reads plan.reads (solid_marked hs)
      have hafter : plan.before = plan.after := (Prod.mk.inj plan.readPositions).2
      exact ⟨hafter ▸ hb, plan.quantity_pos⟩
  | signal plan =>
      have hb := solid_reads plan.reads (solid_marked hs)
      have hafter : plan.before = plan.after := (Prod.mk.inj plan.readCash).2
      refine ⟨hafter ▸ hb, ?_⟩
      show 0 < plan.quantity
      cases ha : input.signal.action with
      | hold => exact absurd ha plan.active
      | sell => exact sell_quantity_pos plan hb ha
      | buy =>
          obtain ⟨snapshot, last, hsnap, hlast, hp⟩ := plan.lastClose
          have hprice : 0 < plan.price := by
            rw [← hp]
            exact hclose snapshot hsnap last (List.mem_of_getLast? hlast)
          rw [plan.planned, marked_riskEngine]
          have haction : input.ownSignal.action = .buy := ha
          exact (calculateQuantity_pos_iff haction _ _ hprice _ _ _).mpr (hfunded plan ha)

/-- **One funded cycle.** The book stays solid and what was filled has a positive size. -/
theorem solid_run (hclose : PositiveCloses input) (hfunded : Funded p input st)
    (hs : st.executor.Solid) :
    (p.run paperExecutor input st).2.executor.Solid ∧
      ∀ o, (p.run paperExecutor input st).1.orderResult = some o → o.status = .filled →
        0 < o.quantity := by
  rcases p.run_effect paperExecutor input st with ⟨hreads, hnone⟩ | ⟨s, req, hsend, hex, hres⟩
  · refine ⟨solid_reads hreads (solid_marked hs), fun o ho => ?_⟩
    rw [hnone] at ho
    cases ho
  · obtain ⟨hs', hq⟩ := request_quantity_pos hclose hfunded hs hsend
    obtain ⟨h1, h2⟩ := hs'.placeOrder hq ("paper-" ++ input.stamp.shortId) input.stamp.now
    rw [paperExecutor_placeOrder] at hex hres
    rw [hex]
    exact ⟨h1, fun o ho hf => h2 o (hres o ho) hf⟩

end Cycle

/-! ## Runs of cycles -/

/-- A sequence of cycles, each by one of the pipelines that share the executor. -/
def runCycles : List (Pipeline × CycleInput) → PipelineState PaperExecutor →
    List PipelineResult × PipelineState PaperExecutor
  | [], st => ([], st)
  | (p, input) :: rest, st =>
      let r := p.run paperExecutor input st
      let rs := runCycles rest r.2
      (r.1 :: rs.1, rs.2)

/-- Every cycle of the run is funded in the state it starts from. -/
def AllFunded : List (Pipeline × CycleInput) → PipelineState PaperExecutor → Prop
  | [], _ => True
  | (p, input) :: rest, st =>
      Funded p input st ∧ AllFunded rest (p.run paperExecutor input st).2

/-- A state with a new paper executor. -/
def paperStart (cash : ℚ) (costs : CostModel) (engine : RiskEngine) (book : Option SleeveBook) :
    PipelineState PaperExecutor :=
  ⟨PaperExecutor.create cash costs, engine, book, Dict.empty⟩

theorem solid_runCycles (cycles : List (Pipeline × CycleInput))
    (st : PipelineState PaperExecutor) (hs : st.executor.Solid)
    (hclose : ∀ c ∈ cycles, PositiveCloses c.2) (hfunded : AllFunded cycles st) :
    (runCycles cycles st).2.executor.Solid ∧
      ∀ r ∈ (runCycles cycles st).1, ∀ o, r.orderResult = some o → o.status = .filled →
        0 < o.quantity := by
  induction cycles generalizing st with
  | nil => exact ⟨hs, fun r hr => by cases hr⟩
  | cons c rest ih =>
      obtain ⟨p, input⟩ := c
      obtain ⟨h1, h2⟩ := solid_run (hclose _ List.mem_cons_self) hfunded.1 hs
      obtain ⟨h3, h4⟩ := ih _ h1 (fun c hc => hclose c (List.mem_cons_of_mem _ hc)) hfunded.2
      refine ⟨h3, fun r hr => ?_⟩
      rcases List.mem_cons.mp hr with rfl | hr
      · exact h2
      · exact h4 r hr

/-- **No phantom positions.** In every run of cycles over a new paper executor in which every
BUY is sized with budgets that pay for one unit, every position in the book holds something
and every filled order has a positive size. -/
theorem no_phantom_positions (cash : ℚ) (costs : CostModel) (engine : RiskEngine)
    (book : Option SleeveBook) (cycles : List (Pipeline × CycleInput))
    (hclose : ∀ c ∈ cycles, PositiveCloses c.2)
    (hfunded : AllFunded cycles (paperStart cash costs engine book)) :
    let r := runCycles cycles (paperStart cash costs engine book)
    (∀ s pos, r.2.executor.positions.get? s = some pos → 0 < pos.quantity) ∧
      ∀ res ∈ r.1, ∀ o, res.orderResult = some o → o.status = .filled → 0 < o.quantity := by
  obtain ⟨h1, h2⟩ := solid_runCycles cycles (paperStart cash costs engine book)
    (PaperExecutor.solid_create cash costs) hclose hfunded
  exact ⟨fun s pos hp => (h1 s pos hp).2.2, h2⟩

/-! ## Without sleeves

A plan of a pipeline without sleeves is made on the executor's own book, so a cycle is funded
when that book pays for one unit at the last close.
-/

/-- The book a cycle without sleeves reads. -/
def PaperExecutor.portfolio (e : PaperExecutor) : PortfolioState := ⟨e.cash, e.getPositions, 0⟩

theorem funded_of_noSleeves {p : Pipeline} {input : CycleInput}
    {st : PipelineState PaperExecutor} (hbook : st.book = none)
    (h : ∀ snapshot last, input.snapshot = .ok snapshot → snapshot.candles.getLast? = some last →
      PaysOneUnit input.ownSignal (input.marked paperExecutor st).executor.portfolio
        (st.riskEngine p).settings last.close
        (sizingCostModel (input.marked paperExecutor st).executor.costs 1) none) :
    Funded p input st := by
  intro plan _
  -- A read of the paper executor changes nothing.
  have hbefore : plan.before = (input.marked paperExecutor st).executor :=
    plan.reads.preserves (I := fun e => e = (input.marked paperExecutor st).executor)
      (fun _ h => h) (fun _ h => h) rfl
  have hafter : plan.before = plan.after := (Prod.mk.inj plan.readCash).2
  have hcash : plan.before.cash = plan.cash := Except.ok.inj (Prod.mk.inj plan.readCash).1
  have hpositions : plan.before.getPositions = plan.positions := Except.ok.inj plan.readPositions
  have hnone : (input.marked paperExecutor st).book = none := by
    unfold CycleInput.marked Pipeline.markPositions
    split
    · exact hbook
    · split
      · exact hbook
      · split_ifs <;> exact hbook
  obtain ⟨snapshot, last, hsnap, hlast, hprice⟩ := plan.lastClose
  rcases plan.ownBook with ⟨hb, hcap⟩ | ⟨hsome, -, -⟩
  · rw [hb, hcap, ← hprice, ← hafter, ← hcash, ← hpositions, hbefore]
    exact h snapshot last hsnap hlast
  · rw [hnone] at hsome
    cases hsome

/-- A commission of at least 200 for every fill. -/
def dearCosts : CostModel := { CostModel.free with
  minCommission := 200
  minCommission_nonneg := by decide +kernel }

/-- With cash 100 and a minimum commission of 200 an approved BUY is sized to nothing, and it
is filled: the book then holds a position of size zero. -/
theorem phantom_of_dearCosts :
    let r := runCycles [(agentPipeline, flatCycle 100 bracketBuy)]
      (paperStart 100 dearCosts (RiskEngine.create RiskSettings.default) none)
    (r.2.executor.positions.get? "BTC/USDC").map Position.quantity = some 0 ∧
      r.1.map (fun res => res.orderResult.map (fun o => (o.status, o.quantity)))
        = [some (.filled, 0)] := by
  decide +kernel

/-- The same cycle without costs is funded. -/
theorem no_phantom_positions_free :
    let r := runCycles [(agentPipeline, flatCycle 100 bracketBuy)]
      (paperStart 100 CostModel.free (RiskEngine.create RiskSettings.default) none)
    (∀ s pos, r.2.executor.positions.get? s = some pos → 0 < pos.quantity) ∧
      ∀ res ∈ r.1, ∀ o, res.orderResult = some o → o.status = .filled → 0 < o.quantity := by
  refine no_phantom_positions 100 CostModel.free (RiskEngine.create RiskSettings.default) none
    [(agentPipeline, flatCycle 100 bracketBuy)] ?_ ⟨funded_of_noSleeves rfl ?_, trivial⟩
  · intro c hc snapshot hsnap candle hcandle
    rw [List.mem_singleton.mp hc] at hsnap
    cases hsnap
    rw [List.mem_singleton.mp hcandle]
    norm_num
  · intro snapshot last hsnap hlast
    cases hsnap
    cases hlast
    exact ⟨by decide +kernel, fun _ _ h => absurd h (by decide +kernel), by decide +kernel⟩

end SmartyTrader
