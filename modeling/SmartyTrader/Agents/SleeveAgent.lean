import SmartyTrader.Agents.PaperRestart
import SmartyTrader.Core.SleeveBooks
import SmartyTrader.Core.SleeveReads
import SmartyTrader.Execution.ExitLevels

set_option autoImplicit false

/-! # A paper agent with sleeves

An agent whose sleeves share one paper executor and one database that answers. A cycle runs the
pipeline of a sleeve on a symbol and post-processes its result: the decision has a row before its
order is sent, the order has a row after it was filled, and then the book is stored. Seen from the
executor and the tables, every operation is a sequence of the steps of a paper agent
(`step_traced`), in which a BUY names the row of its decision and a SELL closes a whole position for
the sleeve that owns it.
-/

namespace SmartyTrader

open Lib

/-! ## The agent -/

/-- The objects in memory, and the tables. -/
structure SleeveAgent where
  pipeline : PipelineState PaperExecutor
  decisions : DecisionTable
  orders : OrderTable
  snapshots : SnapshotTable
  allocations : AllocationTable

/-- A cycle of one pipeline on one symbol. The rows it reads are those of the agent, whatever
`input` says of them. -/
structure SleeveCycle where
  pipeline : Pipeline
  input : CycleInput
  /-- The id and the time of the decision's row, if there is a decision. -/
  decisionId : DecisionId
  decidedAt : Time
  /-- The clock of the post-processing. -/
  writtenAt : Time

/-- A close-all through one of the pipelines. -/
structure SleeveClose where
  pipeline : Pipeline
  stamps : ℕ → Stamp
  outcomeNow : Time
  writtenAt : Time

inductive SleeveStep where
  | cycle (c : SleeveCycle)
  | closeAll (c : SleeveClose)
  /-- A cycle that an exception ends after the mark. -/
  | mark (symbol : Symbol) (price : ℚ)
  /-- What overrides, resets and the end of a cycle do to the engines. -/
  | engines (agentEngine : RiskEngine) (engines : Dict String RiskEngine)
  /-- `ensure_allocation`. -/
  | allocate (now : Time)
  /-- A start over the same database, under a configuration that may be another one. -/
  | restart (agentEngine : RiskEngine) (settings : SleevesSettings)
      (engines : Dict String RiskEngine) (now : Time)

namespace SleeveAgent

/-- What the agent's storage answers to the reads of a cycle. -/
def reading (a : SleeveAgent) (c : SleeveCycle) : CycleInput :=
  { c.input with
    metaRead := DecisionTable.getDecisionStrategies a.decisions
    sleeveRealized := .ok
      (match c.pipeline.strategy, a.pipeline.book.bind SleeveBook.allocation with
        | some name, some allocation =>
            OrderTable.strategyRealizedPnl a.orders name allocation.createdAt
        | _, _ => 0)
    decisionId := some c.decisionId }

/-- `_persist_order`. -/
def persistOrder (now : Time) (r : PipelineResult) (order : OrderResult) (a : SleeveAgent) :
    SleeveAgent :=
  match OrderTable.saveOrder a.orders (BaseAgent.rowOf order r.decisionId r.strategy now) with
  | .ok orders => { a with orders := orders }
  | .error _ => a

/-- `_post_process`, without the realized PnL on the decision rows. -/
def postProcess (now : Time) (r : PipelineResult) (a : SleeveAgent) : SleeveAgent :=
  let portfolio := a.pipeline.executor.portfolio
  let a := { a with pipeline := { a.pipeline with
    agentEngine := a.pipeline.agentEngine.updateDailyValue portfolio.totalValue now } }
  let a :=
    match r.orderResult with
    | none => a
    | some order => a.persistOrder now r order
  { a with snapshots := a.snapshots.savePortfolioSnapshot (portfolio.snapshot now) }

/-- The run of one pipeline. A decision is stored right after the gate. -/
def runCycle (c : SleeveCycle) (a : SleeveAgent) : PipelineResult × SleeveAgent :=
  let r := c.pipeline.run paperExecutor (a.reading c) a.pipeline
  (r.1, { a with
    pipeline := r.2
    decisions :=
      if r.1.signal.isSome then
        a.decisions.set c.decisionId ⟨c.pipeline.strategy, c.decidedAt⟩
      else a.decisions })

def cycle (c : SleeveCycle) (a : SleeveAgent) : SleeveAgent :=
  let r := a.runCycle c
  r.2.postProcess c.writtenAt r.1

/-- The owners that a close-all reads before it closes anything. -/
def readOwners (a : SleeveAgent) : Dict Symbol String × SleeveAgent :=
  match a.pipeline.book with
  | none => (Dict.empty, a)
  | some b =>
      match b.owners (DecisionTable.getDecisionStrategies a.decisions)
        (paperExecutor.entryHooks a.pipeline.executor) a.pipeline.executor.getPositions with
      | (.error _, b) => (Dict.empty, { a with pipeline := { a.pipeline with book := some b } })
      | (.ok owners, b) => (owners, { a with pipeline := { a.pipeline with book := some b } })

/-- The result that `_close_all_positions` post-processes. -/
def closeResult (owners : Dict Symbol String) (closed : Symbol × OrderResult) : PipelineResult :=
  { PipelineResult.bare closed.1 with
    orderResult := some closed.2
    exitReason := some .closeAll
    strategy := owners.get? closed.1 }

/-- `_close_all_positions`. -/
def closeAll (c : SleeveClose) (a : SleeveAgent) : SleeveAgent :=
  let (owners, a) := a.readOwners
  let r := c.pipeline.closeAllPositions paperExecutor
    (DecisionTable.getDecisionStrategies a.decisions) c.stamps c.outcomeNow a.pipeline
  let a := { a with pipeline := r.2 }
  match r.1 with
  | .error _ => a
  | .ok closed => closed.foldl (fun a o => a.postProcess c.writtenAt (closeResult owners o)) a

/-- `ensure_allocation` on the portfolio of the executor. -/
def allocate (now : Time) (a : SleeveAgent) : SleeveAgent :=
  match a.pipeline.book with
  | none => a
  | some b =>
      let r := b.ensureAllocation a.allocations a.pipeline.executor.portfolio now
      { a with
        pipeline := { a.pipeline with book := some r.1 }
        allocations := r.2 }

def step (fresh : PaperExecutor) : SleeveStep → SleeveAgent → SleeveAgent
  | .cycle c, a => a.cycle c
  | .closeAll c, a => a.closeAll c
  | .mark symbol price, a => { a with pipeline := { a.pipeline with
      executor := a.pipeline.executor.updatePrice symbol price } }
  | .engines agentEngine engines, a => { a with pipeline := { a.pipeline with
      agentEngine := agentEngine
      book := a.pipeline.book.map (fun b => { b with engines := engines }) } }
  | .allocate now, a => a.allocate now
  | .restart agentEngine settings engines now, a =>
      allocate now { a with pipeline :=
        { executor := (rehydratePaperExecutor fresh a.orders a.snapshots).2
          agentEngine := agentEngine
          book := some ⟨settings, Dict.empty, engines, none⟩
          lastDecisionAt := Dict.empty } }

/-- A new agent over an empty database, without an allocation. -/
def start (fresh : PaperExecutor) (agentEngine : RiskEngine) (settings : SleevesSettings)
    (engines : Dict String RiskEngine) : SleeveAgent where
  pipeline :=
    { executor := fresh
      agentEngine := agentEngine
      book := some ⟨settings, Dict.empty, engines, none⟩
      lastDecisionAt := Dict.empty }
  decisions := Dict.empty
  orders := []
  snapshots := []
  allocations := []

/-- The executor and the tables, between two operations. -/
def paper (a : SleeveAgent) : PaperAgent := ⟨a.pipeline.executor, [], a.orders, a.snapshots⟩

end SleeveAgent

/-! ## Closes of whole positions -/

namespace PaperExecutor

theorem LongBook.filter_getPositions {e : PaperExecutor} (h : e.LongBook) (s : Symbol) :
    e.getPositions.filter (fun q => q.symbol = s ∧ q.side = .long)
      = (e.positions.get? s).toList := by
  have hlookup : ∀ l : List (Symbol × Position), (l.map Prod.fst).Nodup →
      (∀ k q, (k, q) ∈ l → q.symbol = k ∧ q.side = .long) →
      (l.map Prod.snd).filter (fun q => q.symbol = s ∧ q.side = .long)
        = (Dict.lookup s l).toList := by
    intro l hn hl
    induction l with
    | nil => rfl
    | cons e es ih =>
        obtain ⟨k, q⟩ := e
        have hrest := ih (List.nodup_cons.mp hn).2 fun k' q' hm =>
          hl k' q' (List.mem_cons_of_mem _ hm)
        obtain ⟨hk, hlong⟩ := hl k q List.mem_cons_self
        by_cases hs : k = s
        · -- no other entry has the same key
          have hnone : Dict.lookup s es = none := by
            cases hlook : Dict.lookup s es with
            | none => rfl
            | some q' =>
                exact absurd (List.mem_map_of_mem (Dict.mem_of_lookup hlook))
                  (by rw [← hs]; exact (List.nodup_cons.mp hn).1)
          rw [List.map_cons, List.filter_cons_of_pos (by simp [hk, hs, hlong]), hrest, hnone]
          simp [Dict.lookup, hs]
        · rw [List.map_cons, List.filter_cons_of_neg (by simp [hk, hs]), hrest]
          simp [Dict.lookup, hs]
  refine hlookup e.positions.entries e.positions.nodup fun k q hm => h k q ?_
  exact (Dict.mem_entries_iff _ _ _).mp hm

/-- Of some of the positions of a book, those of a symbol are none or the one it holds. -/
theorem LongBook.held_cases {e : PaperExecutor} (h : e.LongBook) {positions : List Position}
    (hsub : positions.Sublist e.getPositions) (s : Symbol) :
    positions.filter (fun q => q.symbol = s ∧ q.side = .long) = [] ∨
      ∃ pos, e.positions.get? s = some pos ∧
        positions.filter (fun q => q.symbol = s ∧ q.side = .long) = [pos] := by
  have hfilter := hsub.filter (fun q => q.symbol = s ∧ q.side = .long)
  rw [h.filter_getPositions] at hfilter
  cases hpos : e.positions.get? s with
  | none =>
      rw [hpos] at hfilter
      exact .inl (List.sublist_nil.mp hfilter)
  | some pos =>
      rw [hpos, Option.toList_some] at hfilter
      rcases List.sublist_singleton.mp hfilter with hnil | hone
      · exact .inl hnil
      · exact .inr ⟨pos, rfl, hone⟩

end PaperExecutor

/-- A SELL of everything that is held of its symbol. -/
def ClosesWhole (e : PaperExecutor) (req : OrderRequest) : Prop :=
  0 < req.quantity ∧
    ∃ pos, e.positions.get? req.symbol = some pos ∧ pos.quantity = req.quantity

/-- An approved SELL closes the whole position. -/
theorem SignalPlan.closesWhole {p : Pipeline} {input : CycleInput}
    {st : PipelineState PaperExecutor} (plan : SignalPlan paperExecutor p input st)
    (hbook : plan.after.LongBook) (hlevel : plan.after.Level) (hsell : plan.request.side = .sell) :
    ClosesWhole plan.after plan.request := by
  have haction : input.ownSignal.action = .sell := by
    cases ha : input.signal.action with
    | hold => exact absurd ha plan.active
    | sell => exact ha
    | buy =>
        have : plan.request.side = .buy := if_pos ha
        rw [this] at hsell
        cases hsell
  have hafter : plan.before = plan.after := (Prod.mk.inj plan.readCash).2
  have hread : plan.after.getPositions = plan.positions := by
    rw [← hafter]
    exact Except.ok.inj plan.readPositions
  have hsub : plan.book.positions.Sublist plan.after.getPositions := by
    obtain ⟨st', -, -, hb⟩ := plan.bookRead
    rw [hread]
    exact Pipeline.sleevePortfolio_sublist paperExecutor p hb
  -- the gate refuses a SELL without long exposure
  have hexposure : 0 < longExposure plan.book input.symbol := by
    have happroved := plan.approved
    unfold RiskEngine.evaluate at happroved
    rw [haction] at happroved
    by_contra hn
    unfold RiskEngine.evaluateExit at happroved
    rw [if_pos (show longExposure plan.book input.ownSignal.symbol ≤ 0 from not_lt.mp hn)]
      at happroved
    cases happroved
  rcases hbook.held_cases hsub input.symbol with hnil | ⟨pos, hpos, hone⟩
  · unfold longExposure at hexposure
    rw [hnil] at hexposure
    exact absurd hexposure (lt_irrefl _)
  · unfold longExposure at hexposure
    rw [hone, List.map_singleton, List.sum_singleton] at hexposure
    have hmem : pos ∈ plan.after.getPositions := (Dict.mem_values_iff _ _).mpr ⟨_, hpos⟩
    have hquantity : 0 < pos.quantity := by
      refine lt_of_le_of_ne (hlevel.sized hmem).1 fun h0 => ?_
      rw [← h0, zero_mul] at hexposure
      exact lt_irrefl _ hexposure
    have hheld : heldLong plan.book input.ownSignal.symbol = pos.quantity := by
      unfold heldLong
      rw [CycleInput.ownSignal_symbol, hone, List.map_singleton, List.sum_singleton]
    have hplanned : plan.quantity = pos.quantity := by
      rw [plan.planned, calculateQuantity, hheld]
      exact if_pos ⟨haction, hquantity⟩
    refine ⟨?_, pos, hpos, hplanned.symm⟩
    show 0 < plan.quantity
    rw [hplanned]
    exact hquantity

/-- So does the close of a position. -/
theorem closesWhole_closeRequest {e : PaperExecutor} (hbook : e.LongBook) {position : Position}
    (hmem : position ∈ e.getPositions) (hpos : 0 < position.quantity) (mark : ℚ) :
    ClosesWhole e (Pipeline.closeRequest position mark) := by
  obtain ⟨s, hs⟩ := (Dict.mem_values_iff _ _).mp hmem
  refine ⟨hpos, position, ?_, rfl⟩
  show e.positions.get? position.symbol = some position
  rw [(hbook s position hs).1]
  exact hs

/-! ## The steps of an operation -/

/-- What is known of an order where it is placed: its size, that a SELL closes a whole position for
its owner, that a BUY names its decision, the time of its fill, and that its id is new. -/
structure Placement (decided : DecisionId → Prop) (owner : Option String → Prop)
    (clock : Time → Prop) (req : OrderRequest) (stamp : Stamp) (strategy : Option String)
    (x : PaperAgent) : Prop where
  sized : 0 ≤ req.quantity ∧ req.quantity ∈ grid sizeUnit
  sell : req.side = .sell → ClosesWhole x.executor req ∧ owner strategy
  buy : req.side = .buy → ∃ id, req.decisionId = some id ∧ decided id
  filledAt : clock stamp.now
  fresh : "paper-" ++ stamp.shortId
    ∉ x.orders.map OrderRow.orderId ++ x.unwritten.map (fun r => r.1.orderId)

/-- A step of an operation that is not a start. -/
def PaperStep.Orderly (decided : DecisionId → Prop) (owner : Option String → Prop) (clock : Time → Prop) :
    PaperStep → PaperAgent → Prop
  | .place req stamp strategy, x => Placement decided owner clock req stamp strategy x
  | .restart, _ => False
  | _, _ => True

/-- The executor and the tables went from `x` to `y` by orderly steps. -/
def Traced (fresh : PaperExecutor) (decided : DecisionId → Prop) (owner : Option String → Prop)
    (clock : Time → Prop) (x y : PaperAgent) : Prop :=
  ∃ steps, EachStep (PaperAgent.step fresh) (PaperStep.Orderly decided owner clock) steps x ∧
    Lib.run (PaperAgent.step fresh) steps x = y

section Traces

variable {fresh : PaperExecutor} {decided : DecisionId → Prop} {owner : Option String → Prop}
  {clock : Time → Prop}

theorem Traced.refl (x : PaperAgent) : Traced fresh decided owner clock x x := ⟨[], trivial, rfl⟩

theorem Traced.trans {x y z : PaperAgent} (h : Traced fresh decided owner clock x y)
    (h' : Traced fresh decided owner clock y z) : Traced fresh decided owner clock x z := by
  obtain ⟨steps, hsteps, rfl⟩ := h
  obtain ⟨steps', hsteps', rfl⟩ := h'
  exact ⟨steps ++ steps', hsteps.append hsteps', Lib.run_append _ _ _ _⟩

/-- One step. -/
theorem Traced.one {x : PaperAgent} (s : PaperStep) (h : PaperStep.Orderly decided owner clock s x) :
    Traced fresh decided owner clock x (x.step fresh s) := ⟨[s], ⟨h, trivial⟩, rfl⟩

/-- What every orderly step preserves, the steps between two states preserve. -/
theorem Traced.preserves {x y : PaperAgent} {I : PaperAgent → Prop}
    (htraced : Traced fresh decided owner clock x y)
    (hstep : ∀ s x, PaperStep.Orderly decided owner clock s x → I x → I (x.step fresh s))
    (h : I x) : I y := by
  obtain ⟨steps, hsteps, rfl⟩ := htraced
  exact run_preserves hstep steps hsteps h

/-- The results of a step that places an order. -/
theorem step_place_eq (fresh : PaperExecutor) (x : PaperAgent) (req : OrderRequest) (stamp : Stamp)
    (strategy : Option String) :
    x.step fresh (.place req stamp strategy) = { x with
      executor := (paperExecutor.placeOrder x.executor req stamp).2
      unwritten := x.unwritten
        ++ ((paperExecutor.placeOrder x.executor req stamp).1.toOption.map
          (fun r => (r, req.decisionId, strategy))).toList } := by
  unfold PaperAgent.step PaperAgent.place
  dsimp only
  split
  · rename_i r e he
    rw [he]
    rfl
  · rename_i err e he
    rw [he]
    simp [Except.toOption]

/-- Every id of an order in its place: in a row, or in a result that waits for one. -/
def PaperAgent.ids (x : PaperAgent) : List OrderId :=
  x.orders.map OrderRow.orderId ++ x.unwritten.map (fun r => r.1.orderId)

variable (fresh) in
/-- **What an orderly step does.** It marks, places an order, writes the row of the oldest result,
or touches neither the executor nor the orders. -/
theorem orderly_cases {s : PaperStep} {x : PaperAgent}
    (h : PaperStep.Orderly decided owner clock s x) (hids : x.ids.Nodup) :
    (∃ symbol price, x.step fresh s
      = { x with executor := x.executor.updatePrice symbol price }) ∨
    (∃ req stamp strategy, Placement decided owner clock req stamp strategy x ∧
      x.step fresh s = { x with
        executor := (paperExecutor.placeOrder x.executor req stamp).2
        unwritten := x.unwritten
          ++ ((paperExecutor.placeOrder x.executor req stamp).1.toOption.map
            (fun r => (r, req.decisionId, strategy))).toList }) ∨
    (∃ r rest now, x.unwritten = r :: rest ∧
      x.step fresh s = { x with
        orders := x.orders ++ [BaseAgent.rowOf r.1 r.2.1 r.2.2 now]
        unwritten := rest }) ∨
    ((x.step fresh s).executor = x.executor ∧ (x.step fresh s).orders = x.orders ∧
      (x.step fresh s).unwritten = x.unwritten) := by
  cases s with
  | mark symbol price => exact .inl ⟨symbol, price, rfl⟩
  | place req stamp strategy => exact .inr (.inl ⟨req, stamp, strategy, h, step_place_eq ..⟩)
  | persistOrder now =>
      cases hu : x.unwritten with
      | nil =>
          refine .inr (.inr (.inr ?_))
          unfold PaperAgent.step
          rw [hu]
          exact ⟨rfl, rfl, hu⟩
      | cons r rest =>
          obtain ⟨order, decisionId, strategy⟩ := r
          refine .inr (.inr (.inl ⟨_, rest, now, rfl, ?_⟩))
          have hfresh : (BaseAgent.rowOf order decisionId strategy now).orderId
              ∉ x.orders.map OrderRow.orderId := by
            intro hmem
            unfold PaperAgent.ids at hids
            rw [hu] at hids
            exact (List.nodup_append.mp hids).2.2 _ hmem _ List.mem_cons_self rfl
          unfold PaperAgent.step
          rw [hu]
          dsimp only
          rw [saveOrder_of_fresh hfresh]
  | backfillPnl => exact .inr (.inr (.inr ⟨rfl, rfl, rfl⟩))
  | persistPortfolio now => exact .inr (.inr (.inr ⟨rfl, rfl, rfl⟩))
  | restart => exact h.elim

variable (fresh) in
/-- Ids stay unique. -/
theorem ids_step {s : PaperStep} {x : PaperAgent} (hids : x.ids.Nodup)
    (h : PaperStep.Orderly decided owner clock s x) : (x.step fresh s).ids.Nodup := by
  rcases orderly_cases fresh h hids with ⟨symbol, price, he⟩ |
    ⟨req, stamp, strategy, hplaced, he⟩ | ⟨r, rest, now, hu, he⟩ | ⟨-, horders, hu⟩
  · rw [he]
    exact hids
  · rw [he]
    unfold PaperAgent.ids
    dsimp only
    rw [List.map_append, ← List.append_assoc]
    cases hresult : (paperExecutor.placeOrder x.executor req stamp).1 with
    | error err => simpa [Except.toOption, PaperAgent.ids] using hids
    | ok order =>
        have hid : order.orderId = "paper-" ++ stamp.shortId := PaperExecutor.orderId_placeOrder hresult
        simp only [Except.toOption, Option.map_some, Option.toList_some, List.map_cons, List.map_nil]
        refine List.nodup_append.mpr ⟨hids, List.nodup_singleton _, fun id hmem other hother heq => ?_⟩
        rw [List.mem_singleton.mp hother, hid] at heq
        exact hplaced.fresh (heq ▸ hmem)
  · rw [he]
    unfold PaperAgent.ids at hids ⊢
    rw [hu] at hids
    simpa [BaseAgent.rowOf] using hids
  · unfold PaperAgent.ids
    rw [horders, hu]
    exact hids

namespace SleeveAgent

/-- The executor and the tables, while results wait for their rows. -/
def waiting (a : SleeveAgent) (unwritten : List (OrderResult × Option DecisionId × Option String)) :
    PaperAgent := ⟨a.pipeline.executor, unwritten, a.orders, a.snapshots⟩

theorem postProcess_executor (a : SleeveAgent) (now : Time) (r : PipelineResult) :
    (a.postProcess now r).pipeline.executor = a.pipeline.executor := by
  unfold postProcess
  dsimp only
  cases r.orderResult with
  | none => rfl
  | some order =>
      dsimp only
      unfold persistOrder
      split <;> rfl

/-- Post-processing writes the row of the order, if there is one, and stores the book. -/
theorem traced_postProcess (a : SleeveAgent) (now : Time) (r : PipelineResult)
    (rest : List (OrderResult × Option DecisionId × Option String)) :
    Traced fresh decided owner clock
      (a.waiting ((r.orderResult.map (fun o => (o, r.decisionId, r.strategy))).toList ++ rest))
      ((a.postProcess now r).waiting rest) := by
  cases ho : r.orderResult with
  | none =>
      refine (Traced.one (.persistPortfolio now) trivial).trans ?_
      have : PaperAgent.step fresh (.persistPortfolio now) (a.waiting rest)
          = (a.postProcess now r).waiting rest := by
        unfold postProcess
        rw [ho]
        rfl
      simp only [Option.map_none, Option.toList_none, List.nil_append]
      rw [this]
      exact Traced.refl _
  | some order =>
      refine (Traced.one (.persistOrder now) trivial).trans
        ((Traced.one (.persistPortfolio now) trivial).trans ?_)
      have : PaperAgent.step fresh (.persistPortfolio now) (PaperAgent.step fresh
          (.persistOrder now) (a.waiting ((order, r.decisionId, r.strategy) :: rest)))
          = (a.postProcess now r).waiting rest := by
        unfold postProcess persistOrder waiting PaperAgent.step
        rw [ho]
        dsimp only
        cases OrderTable.saveOrder a.orders (BaseAgent.rowOf order r.decisionId r.strategy now) <;>
          rfl
      simp only [Option.map_some, Option.toList_some, List.singleton_append]
      rw [this]
      exact Traced.refl _

theorem traced_marked (a : SleeveAgent) (input : CycleInput) :
    Traced fresh decided owner clock a.paper
      { a.paper with executor := (input.marked paperExecutor a.pipeline).executor } := by
  unfold CycleInput.marked
  split
  · exact Traced.refl _
  · split
    · exact Traced.refl _
    · rename_i last _
      unfold Pipeline.markPositions
      split_ifs
      · exact Traced.refl _
      · exact Traced.one (.mark input.symbol last.close) trivial

theorem traced_place {x : PaperAgent} {req : OrderRequest} {stamp : Stamp}
    {strategy : Option String} (h : Placement decided owner clock req stamp strategy x) :
    Traced fresh decided owner clock x { x with
      executor := (paperExecutor.placeOrder x.executor req stamp).2
      unwritten := x.unwritten
        ++ ((paperExecutor.placeOrder x.executor req stamp).1.toOption.map
          (fun r => (r, req.decisionId, strategy))).toList } := by
  rw [← step_place_eq fresh]
  exact Traced.one _ h

/-- The owner of a position that a cycle closes. -/
theorem ownerName_held {input : CycleInput} {st : PipelineState PaperExecutor} {b : SleeveBook}
    (hread : ReadsRows input.metaRead) (hbook : st.book = some b) {position : Position}
    (hmem : position ∈ st.executor.getPositions) (hsymbol : position.symbol = input.symbol)
    (hpos : 0 < position.quantity) :
    ∃ name ∈ b.settings.names,
      Pipeline.ownerName (Pipeline.sleeveOwnership paperExecutor input st).1 = some name := by
  obtain ⟨o, b', hown, hname, -⟩ := b.ownership_held hread
    (paperExecutor.entryHooks st.executor) ⟨position, hmem, hsymbol, hpos⟩
  have hownership : (Pipeline.sleeveOwnership paperExecutor input st).1 = .ok (some o) := by
    have hpositions : paperExecutor.getPositions st.executor
        = (.ok st.executor.getPositions, st.executor) := rfl
    unfold Pipeline.sleeveOwnership
    rw [hbook]
    simp only [hpositions, hown]
  exact ⟨o.strategy, hname, by rw [hownership]; rfl⟩

theorem marked_book (input : CycleInput) (st : PipelineState PaperExecutor) :
    (input.marked paperExecutor st).book = st.book := by
  unfold CycleInput.marked
  split
  · rfl
  · split
    · rfl
    · unfold Pipeline.markPositions
      split_ifs <;> rfl

/-- **A cycle.** It marks, places at most one order, and post-processes the result. -/
theorem traced_cycle (a : SleeveAgent) (c : SleeveCycle) {b : SleeveBook}
    (hbook : a.pipeline.book = some b) (hlong : a.pipeline.executor.LongBook)
    (hlevel : a.pipeline.executor.Level)
    (howners : ∀ name ∈ b.settings.names, owner (some name)) (hsleeve : owner c.pipeline.strategy)
    (hdecided : (a.runCycle c).1.signal.isSome → decided c.decisionId)
    (hclock : clock c.input.stamp.now)
    (hfresh : "paper-" ++ c.input.stamp.shortId ∉ a.orders.map OrderRow.orderId) :
    Traced fresh decided owner clock a.paper (a.cycle c).paper := by
  let input := a.reading c
  let st := input.marked paperExecutor a.pipeline
  have hlong' : st.executor.LongBook :=
    marked_preserves (I := PaperExecutor.LongBook) (fun _ s price _ h => h.updatePrice s price)
      input a.pipeline hlong
  have hlevel' : st.executor.Level :=
    marked_preserves (I := PaperExecutor.Level) (fun _ s price _ h => h.updatePrice s price)
      input a.pipeline hlevel
  have hfresh' : "paper-" ++ input.stamp.shortId ∉ ({ a.paper with executor := st.executor } :
      PaperAgent).orders.map OrderRow.orderId
        ++ ({ a.paper with executor := st.executor } : PaperAgent).unwritten.map
          (fun r => r.1.orderId) := by
    have hstamp : input.stamp = c.input.stamp := rfl
    simpa [paper, hstamp] using hfresh
  have hpost : Traced fresh decided owner clock _ _ :=
    traced_postProcess (a.runCycle c).2 c.writtenAt (a.runCycle c).1 []
  refine (traced_marked a input).trans ?_
  -- the order of the cycle, with the placement it was sent under
  have hsent : ∀ {s : PaperExecutor} {req : OrderRequest} {strategy : Option String}
      {signal : Option TradeSignal}, s = st.executor →
      Tells paperExecutor input s req strategy signal (c.pipeline.run paperExecutor input a.pipeline) →
      Placement decided owner clock req input.stamp strategy
        { a.paper with executor := st.executor } →
      Traced fresh decided owner clock { a.paper with executor := st.executor }
        (a.cycle c).paper := by
    intro s req strategy signal hs told hplaced
    subst hs
    refine (traced_place hplaced).trans ?_
    have hwaiting : ({ a.paper with
        executor := (paperExecutor.placeOrder st.executor req input.stamp).2
        unwritten := ((paperExecutor.placeOrder st.executor req input.stamp).1.toOption.map
          (fun r => (r, req.decisionId, strategy))).toList } : PaperAgent)
        = (a.runCycle c).2.waiting (((a.runCycle c).1.orderResult.map
            (fun o => (o, (a.runCycle c).1.decisionId, (a.runCycle c).1.strategy))).toList ++ []) := by
      unfold waiting runCycle
      dsimp only
      rw [told.executor, told.orderResult, told.decisionId, told.strategy, List.append_nil]
      rfl
    show Traced fresh decided owner clock { a.paper with
        executor := (paperExecutor.placeOrder st.executor req input.stamp).2
        unwritten := ((paperExecutor.placeOrder st.executor req input.stamp).1.toOption.map
          (fun r => (r, req.decisionId, strategy))).toList } _
    rw [hwaiting]
    exact hpost
  rcases c.pipeline.run_outcome paperExecutor input a.pipeline with
    ⟨reads, silent⟩ | ⟨plan, told⟩ | ⟨plan, told⟩
  · have hwaiting : ({ a.paper with executor := st.executor } : PaperAgent)
        = (a.runCycle c).2.waiting (((a.runCycle c).1.orderResult.map
            (fun o => (o, (a.runCycle c).1.decisionId, (a.runCycle c).1.strategy))).toList ++ []) := by
      unfold waiting runCycle
      dsimp only
      rw [silent, reads.paper_eq]
      rfl
    rw [hwaiting]
    exact hpost
  · have hbefore : plan.before = st.executor := plan.reads.paper_eq
    have hafter : plan.before = plan.after := (Prod.mk.inj plan.readPositions).2
    have hmem : plan.position ∈ st.executor.getPositions := by
      have hpositions : plan.before.getPositions = plan.positions :=
        Except.ok.inj (Prod.mk.inj plan.readPositions).1
      rw [← hbefore, hpositions]
      exact plan.mem
    obtain ⟨s, hs⟩ := (Dict.mem_values_iff _ _).mp hmem
    have hside : plan.request.side = .sell := by
      simp [ClosePlan.request, Pipeline.closeRequest, closingSide, (hlong' s _ hs).2]
    obtain ⟨name, hname, howner⟩ := ownerName_held (readsRows_getDecisionStrategies a.decisions)
      ((marked_book input a.pipeline).trans hbook) hmem plan.symbol_eq plan.quantity_pos
    have hsends : Sends paperExecutor c.pipeline input st plan.after plan.request := .close plan
    refine hsent (hafter ▸ hbefore) told
      ⟨sends_sized hlevel' hsends, fun _ => ⟨?_, ?_⟩, fun hbuy => ?_, hclock, hfresh'⟩
    · exact closesWhole_closeRequest hlong' hmem plan.quantity_pos plan.mark
    · rw [howner]
      exact howners name hname
    · rw [hside] at hbuy
      cases hbuy
  · have hbefore : plan.before = st.executor := plan.reads.paper_eq
    have hafter : plan.before = plan.after := (Prod.mk.inj plan.readCash).2
    have hat : plan.after = st.executor := hafter ▸ hbefore
    refine hsent hat told
      ⟨sends_sized hlevel' (.signal plan), fun hsell => ⟨?_, hsleeve⟩, fun _ => ?_, hclock, hfresh'⟩
    · have := plan.closesWhole (hat ▸ hlong') (hat ▸ hlevel') hsell
      rw [hat] at this
      exact this
    · refine ⟨c.decisionId, rfl, hdecided ?_⟩
      show (c.pipeline.run paperExecutor input a.pipeline).1.signal.isSome
      rw [told.signal]
      rfl

/-! ### A close-all -/

/-- A SELL of a whole position is filled. -/
theorem placeOrder_whole {e : PaperExecutor} {req : OrderRequest} (hsell : req.side = .sell)
    (h : ClosesWhole e req) {price : ℚ} (hprice : req.price = some price) (stamp : Stamp) :
    ∃ order, (paperExecutor.placeOrder e req stamp).1 = .ok order ∧ order.symbol = req.symbol ∧
      ∀ s, s ≠ req.symbol →
        (paperExecutor.placeOrder e req stamp).2.positions.get? s = e.positions.get? s := by
  obtain ⟨-, pos, hpos, hquantity⟩ := h
  have hnot : ¬ pos.quantity < req.quantity := by
    rw [hquantity]
    exact lt_irrefl _
  rw [paperExecutor_placeOrder]
  simp only [PaperExecutor.placeOrder, PaperExecutor.effectivePrice, hprice, hsell,
    PaperExecutor.executeSell, hpos, if_neg hnot]
  refine ⟨_, rfl, rfl, fun s hs => ?_⟩
  simp only [PaperExecutor.remember, PaperExecutor.sold]
  split_ifs
  · exact Dict.get?_erase_ne _ (Ne.symm hs)
  · exact Dict.get?_set_ne _ _ (Ne.symm hs)

/-- An order of a planned size keeps the book and the ledger level. -/
theorem level_placeOrder {e : PaperExecutor} (h : e.Level) {req : OrderRequest}
    (hsized : 0 ≤ req.quantity ∧ req.quantity ∈ grid sizeUnit) (stamp : Stamp) :
    (paperExecutor.placeOrder e req stamp).2.Level := by
  rw [paperExecutor_placeOrder]
  have hsame : ∀ e' : PaperExecutor, e'.positions = e.positions → e'.tracker = e.tracker →
      e'.Level := by
    intro e' hpositions htracker
    refine ⟨htracker ▸ h.onGrid, fun s => ?_⟩
    have hq := h.quantity_eq s
    unfold PaperExecutor.bookQuantity at hq ⊢
    rw [htracker, hpositions, hq]
  rcases e.placeOrder_cases req ("paper-" ++ stamp.shortId) stamp.now with
    ⟨r, e', -, he, -, -, hpos, htr⟩ | ⟨price, -, -, -, he⟩ | ⟨price, -, -, he⟩ |
    ⟨price, pos, -, hpos, hle, he⟩
  · rw [he]
    exact hsame e' hpos htr
  · rw [he]
    exact hsame _ rfl rfl
  · rw [he]
    have := h.bought price hsized.1 hsized.2
    exact ⟨this.onGrid, this.quantity_eq⟩
  · rw [he]
    have := h.sold price hsized.1 hsized.2 hpos hle
    exact ⟨this.onGrid, this.quantity_eq⟩

/-- The ids that orders get from their stamps. -/
def stampIds (todo : List (Position × Stamp)) : List OrderId :=
  todo.map (fun t => "paper-" ++ t.2.shortId)

/-- The loop of a close-all over positions of the book: every order is filled, and its results wait
for their rows. -/
theorem traced_closeEach (p : Pipeline) (owners owners' : Dict Symbol String) (outcomeNow : Time)
    {todo : List (Position × Stamp)} (hnodup : (todo.map (fun t => t.1.symbol)).Nodup)
    (hclock : ∀ t ∈ todo, clock t.2.now)
    (howner : ∀ t ∈ todo, 0 < t.1.quantity → owner (owners.get? t.1.symbol))
    (st : PipelineState PaperExecutor) (hlong : st.executor.LongBook) (hlevel : st.executor.Level)
    (hheld : ∀ t ∈ todo, st.executor.positions.get? t.1.symbol = some t.1) (x : PaperAgent)
    (hx : x.executor = st.executor)
    (hids : (x.orders.map OrderRow.orderId ++ x.unwritten.map (fun r => r.1.orderId)
      ++ stampIds todo).Nodup) :
    ∃ closed st', p.closeEach paperExecutor owners' outcomeNow todo st = (.ok closed, st') ∧
      Traced fresh decided owner clock x { x with
        executor := st'.executor
        unwritten := x.unwritten ++ closed.map (fun o => (o.2, none, owners.get? o.1)) } := by
  induction todo generalizing st x with
  | nil =>
      refine ⟨[], st, rfl, ?_⟩
      simp only [List.map_nil, List.append_nil, ← hx]
      exact Traced.refl x
  | cons t rest ih =>
      obtain ⟨position, stamp⟩ := t
      have hrest := List.nodup_cons.mp hnodup
      have hclock' := fun t ht => hclock t (List.mem_cons_of_mem _ ht)
      have howner' := fun t ht => howner t (List.mem_cons_of_mem _ ht)
      have hpos := hheld _ List.mem_cons_self
      have hlongPos : position.side = .long := (hlong _ _ hpos).2
      have hside : closingSide position = .sell := by simp [closingSide, hlongPos]
      have hworking : Pipeline.orderWorking paperExecutor st.executor position.symbol
          (closingSide position) = false := by simp [Pipeline.orderWorking, paperExecutor]
      unfold Pipeline.closeEach Pipeline.closeOne
      rw [hworking]
      by_cases hskip : position.quantity ≤ 0 ∨ position.currentPrice ≤ 0
      · have hids' : (x.orders.map OrderRow.orderId ++ x.unwritten.map (fun r => r.1.orderId)
            ++ stampIds rest).Nodup := by
          refine hids.sublist (List.Sublist.append_left ?_ _)
          exact List.sublist_cons_self _ _
        obtain ⟨closed, st', hclose, htraced⟩ := ih hrest.2 hclock' howner' st hlong hlevel
          (fun t ht => hheld t (List.mem_cons_of_mem _ ht)) x hx hids'
        have hskip' : position.quantity ≤ 0 ∨ position.currentPrice ≤ 0 ∨ false = true := by tauto
        rw [if_pos hskip']
        exact ⟨closed, st', by simp [hclose], htraced⟩
      · have hskip' : ¬ (position.quantity ≤ 0 ∨ position.currentPrice ≤ 0 ∨ false = true) := by
          simpa using hskip
        rw [if_neg hskip']
        have hquantity : 0 < position.quantity := not_le.mp (not_or.mp hskip).1
        let req := Pipeline.closeRequest position position.currentPrice
        have hwhole : ClosesWhole st.executor req := ⟨hquantity, position, hpos, rfl⟩
        have hsized : 0 ≤ req.quantity ∧ req.quantity ∈ grid sizeUnit :=
          hlevel.sized ((Dict.mem_values_iff _ _).mpr ⟨_, hpos⟩)
        obtain ⟨order, horder, -, hothers⟩ := placeOrder_whole hside hwhole rfl stamp
        have hid : order.orderId = "paper-" ++ stamp.shortId :=
          PaperExecutor.orderId_placeOrder horder
        have hlong' : (paperExecutor.placeOrder st.executor req stamp).2.LongBook :=
          hlong.placeOrder _ _ _
        have hlevel' : (paperExecutor.placeOrder st.executor req stamp).2.Level :=
          level_placeOrder hlevel hsized stamp
        have hplaced : Placement decided owner clock req stamp (owners.get? position.symbol) x :=
          { sized := hsized
            sell := fun _ => ⟨hx ▸ hwhole, howner _ List.mem_cons_self hquantity⟩
            buy := fun hbuy => by
              have : req.side = .sell := hside
              rw [this] at hbuy
              cases hbuy
            filledAt := hclock _ List.mem_cons_self
            fresh := fun hmem => by
              have hdisjoint := (List.nodup_append.mp hids).2.2
              exact hdisjoint _ hmem _ List.mem_cons_self rfl }
        have hstep : Traced fresh decided owner clock x _ := traced_place hplaced
        rw [hx] at hstep
        rcases hplace : paperExecutor.placeOrder st.executor req stamp with ⟨r, e⟩
        rw [hplace] at horder hothers hlong' hlevel' hstep
        obtain rfl : r = .ok order := horder
        let st₁ := PipelineState.recordFill { st with executor := e } p
          (owners'.get? position.symbol) order outcomeNow
        have hst₁ : st₁.executor = e := Pipeline.recordFill_executor p _ _ _ _
        have hheld' : ∀ t ∈ rest, st₁.executor.positions.get? t.1.symbol = some t.1 := by
          intro t ht
          have hne : t.1.symbol ≠ position.symbol := fun heq => hrest.1 (by
            show position.symbol ∈ _
            rw [← heq]
            exact List.mem_map_of_mem (f := fun t : Position × Stamp => t.1.symbol) ht)
          rw [hst₁, hothers _ hne]
          exact hheld t (List.mem_cons_of_mem _ ht)
        let x₁ : PaperAgent := { x with
          executor := e
          unwritten := x.unwritten ++ [(order, none, owners.get? position.symbol)] }
        have hids' : (x₁.orders.map OrderRow.orderId ++ x₁.unwritten.map (fun r => r.1.orderId)
            ++ stampIds rest).Nodup := by
          have : x₁.orders.map OrderRow.orderId ++ x₁.unwritten.map (fun r => r.1.orderId)
              ++ stampIds rest = x.orders.map OrderRow.orderId
                ++ x.unwritten.map (fun r => r.1.orderId) ++ stampIds ((position, stamp) :: rest) := by
            simp [x₁, stampIds, hid]
          rw [this]
          exact hids
        obtain ⟨closed, st', hclose, htraced⟩ := ih hrest.2 hclock' howner' st₁
          (hst₁ ▸ hlong') (hst₁ ▸ hlevel') hheld' x₁ hst₁.symm hids'
        refine ⟨(position.symbol, order) :: closed, st', ?_, ?_⟩
        · have hclose' : p.closeEach paperExecutor owners' outcomeNow rest
              (PipelineState.recordFill { st with executor := e } p
                (owners'.get? position.symbol) order outcomeNow) = (.ok closed, st') := hclose
          dsimp only
          rw [hclose']
          rfl
        · have hfinal : ({ x with
              executor := st'.executor
              unwritten := x.unwritten ++ ((position.symbol, order) :: closed).map
                (fun o => (o.2, none, owners.get? o.1)) } : PaperAgent)
              = { x₁ with
                executor := st'.executor
                unwritten := x₁.unwritten ++ closed.map (fun o => (o.2, none, owners.get? o.1)) } := by
            simp [x₁]
          rw [hfinal]
          exact hstep.trans htraced

theorem map_symbol_getPositions {e : PaperExecutor} (h : e.LongBook) :
    e.getPositions.map Position.symbol = e.positions.keys := by
  unfold PaperExecutor.getPositions Dict.values Dict.keys
  rw [List.map_map]
  refine List.map_congr_left fun entry hentry => ?_
  exact (h entry.1 entry.2 ((Dict.mem_entries_iff _ _ _).mp hentry)).1

theorem mapIdx_eq_map_range {α β : Type} (g : ℕ → β) (xs : List α) :
    xs.mapIdx (fun i _ => g i) = (List.range xs.length).map g := by
  refine List.ext_getElem (by simp) fun i hi hj => ?_
  simp

theorem traced_postProcessAll (writtenAt : Time) (owners : Dict Symbol String)
    (closed : List (Symbol × OrderResult)) (a : SleeveAgent) :
    Traced fresh decided owner clock
      (a.waiting (closed.map (fun o => (o.2, none, owners.get? o.1))))
      (closed.foldl (fun a o => a.postProcess writtenAt (closeResult owners o)) a).paper := by
  induction closed generalizing a with
  | nil => exact Traced.refl _
  | cons o rest ih =>
      have hone : Traced fresh decided owner clock _ _ :=
        a.traced_postProcess writtenAt (closeResult owners o)
          (rest.map (fun o => (o.2, none, owners.get? o.1)))
      exact hone.trans (ih _)

/-- **A close-all.** It places its orders and then post-processes every result. -/
theorem traced_closeAll (a : SleeveAgent) (c : SleeveClose) {b : SleeveBook}
    (hbook : a.pipeline.book = some b) (hlong : a.pipeline.executor.LongBook)
    (hlevel : a.pipeline.executor.Level) (howners : ∀ name ∈ b.settings.names, owner (some name))
    (hclock : ∀ i, clock (c.stamps i).now) (hrows : (a.orders.map OrderRow.orderId).Nodup)
    (hfresh : ∀ i, "paper-" ++ (c.stamps i).shortId ∉ a.orders.map OrderRow.orderId)
    (hinjective : Function.Injective (fun i => "paper-" ++ (c.stamps i).shortId)) :
    Traced fresh decided owner clock a.paper (a.closeAll c).paper := by
  let e := a.pipeline.executor
  let todo := e.getPositions.mapIdx (fun i position => (position, c.stamps i))
  obtain ⟨owners, hread, hspec⟩ := b.owners_total
    (readsRows_getDecisionStrategies a.decisions) (paperExecutor.entryHooks e) e.getPositions
  -- the owners are read before anything is closed
  obtain ⟨b', howned⟩ : ∃ b', a.readOwners
      = (owners, { a with pipeline := { a.pipeline with book := some b' } }) := by
    unfold readOwners
    rw [hbook]
    dsimp only
    rcases hr : b.owners (DecisionTable.getDecisionStrategies a.decisions)
      (paperExecutor.entryHooks a.pipeline.executor) a.pipeline.executor.getPositions with ⟨r, b'⟩
    have : (b.owners (DecisionTable.getDecisionStrategies a.decisions)
      (paperExecutor.entryHooks a.pipeline.executor) a.pipeline.executor.getPositions).1
        = .ok owners := hread
    rw [hr] at this
    obtain rfl : r = .ok owners := this
    exact ⟨b', rfl⟩
  have htodo : todo.map (fun t => t.1) = e.getPositions := by
    refine List.ext_getElem (by simp [todo]) fun i hi hj => ?_
    simp [todo]
  have hheld : ∀ t ∈ todo, e.positions.get? t.1.symbol = some t.1 := by
    intro t ht
    have hmem : t.1 ∈ e.getPositions := htodo ▸ List.mem_map_of_mem (f := fun t => t.1) ht
    obtain ⟨s, hs⟩ := (Dict.mem_values_iff _ _).mp hmem
    rw [(hlong s _ hs).1]
    exact hs
  have hnodup : (todo.map (fun t => t.1.symbol)).Nodup := by
    have : todo.map (fun t => t.1.symbol) = e.positions.keys := by
      rw [← map_symbol_getPositions hlong, ← htodo, List.map_map]
      rfl
    rw [this]
    exact e.positions.nodup_keys
  have hstamps : ∀ t ∈ todo, ∃ i, t.2 = c.stamps i := by
    intro t ht
    obtain ⟨i, -, rfl⟩ := List.mem_mapIdx.mp ht
    exact ⟨i, rfl⟩
  have hclock' : ∀ t ∈ todo, clock t.2.now := by
    intro t ht
    obtain ⟨i, hi⟩ := hstamps t ht
    rw [hi]
    exact hclock i
  have howner' : ∀ t ∈ todo, 0 < t.1.quantity → owner (owners.get? t.1.symbol) := by
    intro t ht hpos
    have hmem : t.1 ∈ e.getPositions := htodo ▸ List.mem_map_of_mem (f := fun t => t.1) ht
    obtain ⟨name, hname, hown⟩ := hspec t.1 hmem hpos
    rw [hown]
    exact howners name hname
  have hids : (a.orders.map OrderRow.orderId
      ++ ([] : List (OrderResult × Option DecisionId × Option String)).map (fun r => r.1.orderId)
      ++ stampIds todo).Nodup := by
    have hstampIds : stampIds todo
        = (List.range e.getPositions.length).map (fun i => "paper-" ++ (c.stamps i).shortId) := by
      rw [← mapIdx_eq_map_range]
      refine List.ext_getElem (by simp [stampIds, todo]) fun i hi hj => ?_
      simp [stampIds, todo]
    rw [List.map_nil, List.append_nil, hstampIds]
    refine List.nodup_append.mpr
      ⟨hrows, List.Nodup.map hinjective List.nodup_range, fun id hid other hother heq => ?_⟩
    obtain ⟨i, -, rfl⟩ := List.mem_map.mp hother
    exact hfresh i (heq ▸ hid)
  -- whatever owners the pipeline reads again, they only name the streaks of the outcomes
  obtain ⟨owners', st₀, hst₀, hloop⟩ : ∃ owners' st₀,
      st₀.executor = e ∧ c.pipeline.closeAllPositions paperExecutor
        (DecisionTable.getDecisionStrategies a.decisions) c.stamps c.outcomeNow
        { a.pipeline with book := some b' }
      = c.pipeline.closeEach paperExecutor owners' c.outcomeNow todo st₀ := by
    have hpositions : paperExecutor.getPositions e = (.ok e.getPositions, e) := rfl
    unfold Pipeline.closeAllPositions
    dsimp only
    rw [hpositions]
    dsimp only
    rcases hr : b'.owners (DecisionTable.getDecisionStrategies a.decisions)
      (paperExecutor.entryHooks e) e.getPositions with ⟨err | owners', b''⟩
    · exact ⟨Dict.empty, { a.pipeline with book := some b'' }, rfl, rfl⟩
    · exact ⟨owners', { a.pipeline with book := some b'' }, rfl, rfl⟩
  obtain ⟨closed, st', hclose, htraced⟩ : ∃ closed st',
      c.pipeline.closeEach paperExecutor owners' c.outcomeNow todo st₀ = (.ok closed, st') ∧
        Traced fresh decided owner clock a.paper { a.paper with
          executor := st'.executor
          unwritten := a.paper.unwritten ++ closed.map (fun o => (o.2, none, owners.get? o.1)) } :=
    traced_closeEach c.pipeline owners owners' c.outcomeNow hnodup hclock' howner' st₀
      (hst₀ ▸ hlong) (hst₀ ▸ hlevel) (by rw [hst₀]; exact hheld) a.paper hst₀.symm hids
  refine htraced.trans ?_
  have hall : a.closeAll c = closed.foldl
      (fun a o => a.postProcess c.writtenAt (closeResult owners o))
      { a with pipeline := st' } := by
    unfold closeAll
    rw [howned]
    dsimp only
    rw [hloop, hclose]
  rw [hall]
  exact traced_postProcessAll c.writtenAt owners closed { a with pipeline := st' }

end SleeveAgent

end Traces

/-! ## Operations -/

/-- The ids of the orders an operation may place are new. -/
def SleeveStep.NewIds : SleeveStep → SleeveAgent → Prop
  | .cycle c, a => "paper-" ++ c.input.stamp.shortId ∉ a.orders.map OrderRow.orderId
  | .closeAll c, a =>
      (∀ i, "paper-" ++ (c.stamps i).shortId ∉ a.orders.map OrderRow.orderId) ∧
        Function.Injective (fun i => "paper-" ++ (c.stamps i).shortId)
  | _, _ => True

/-- The orders of an operation are filled at times of `clock`. -/
def SleeveStep.FilledAt (clock : Time → Prop) : SleeveStep → Prop
  | .cycle c => clock c.input.stamp.now
  | .closeAll c => ∀ i, clock (c.stamps i).now
  | _ => True

def SleeveStep.isRestart : SleeveStep → Bool
  | .restart _ _ _ _ => true
  | _ => false

namespace SleeveAgent

/-- **An operation, as steps of a paper agent.** -/
theorem traced_step {fresh : PaperExecutor} {decided : DecisionId → Prop}
    {owner : Option String → Prop} {clock : Time → Prop} (s : SleeveStep) (a : SleeveAgent)
    {b : SleeveBook} (hbook : a.pipeline.book = some b) (hlong : a.pipeline.executor.LongBook)
    (hlevel : a.pipeline.executor.Level) (hrows : (a.orders.map OrderRow.orderId).Nodup)
    (hs : s.isRestart = false) (hnew : s.NewIds a) (hclock : s.FilledAt clock)
    (howners : ∀ name ∈ b.settings.names, owner (some name))
    (hcycle : ∀ c, s = .cycle c → owner c.pipeline.strategy ∧
      ((a.runCycle c).1.signal.isSome → decided c.decisionId)) :
    Traced fresh decided owner clock a.paper (a.step fresh s).paper := by
  cases s with
  | cycle c =>
      exact traced_cycle a c hbook hlong hlevel howners (hcycle c rfl).1 (hcycle c rfl).2 hclock
        hnew
  | closeAll c => exact traced_closeAll a c hbook hlong hlevel howners hclock hrows hnew.1 hnew.2
  | mark symbol price => exact Traced.one (.mark symbol price) trivial
  | engines agentEngine engines => exact Traced.refl _
  | allocate now =>
      have : (a.allocate now).paper = a.paper := by
        unfold allocate
        rw [hbook]
        rfl
      show Traced fresh decided owner clock a.paper (a.allocate now).paper
      rw [this]
      exact Traced.refl _
  | restart agentEngine settings engines now => cases hs

theorem postProcess_book (a : SleeveAgent) (now : Time) (r : PipelineResult) :
    (a.postProcess now r).pipeline.book = a.pipeline.book ∧
      (a.postProcess now r).decisions = a.decisions ∧
      (a.postProcess now r).allocations = a.allocations := by
  unfold postProcess
  dsimp only
  cases r.orderResult with
  | none => exact ⟨rfl, rfl, rfl⟩
  | some order =>
      dsimp only
      unfold persistOrder
      split <;> exact ⟨rfl, rfl, rfl⟩

theorem foldl_postProcess_book (now : Time) (owners : Dict Symbol String)
    (closed : List (Symbol × OrderResult)) (a : SleeveAgent) :
    let a' := closed.foldl (fun a o => a.postProcess now (closeResult owners o)) a
    a'.pipeline.book = a.pipeline.book ∧ a'.decisions = a.decisions ∧
      a'.allocations = a.allocations := by
  induction closed generalizing a with
  | nil => exact ⟨rfl, rfl, rfl⟩
  | cons o rest ih =>
      obtain ⟨h1, h2, h3⟩ := ih (a.postProcess now (closeResult owners o))
      obtain ⟨h4, h5, h6⟩ := a.postProcess_book now (closeResult owners o)
      exact ⟨h1.trans h4, h2.trans h5, h3.trans h6⟩

/-- The decisions behind the open lots of a paper executor. -/
def AsksLots (Asked : List DecisionId → Prop) (e : PaperExecutor) : Prop :=
  ∀ symbol, Asked ((e.tracker.entryDecisionIds symbol).filterMap id) ∧ Asked []

theorem asksFor_paper {Asked : List DecisionId → Prop} {e : PaperExecutor}
    (h : AsksLots Asked e) : Pipeline.AsksFor paperExecutor Asked e := by
  intro t ht ids hids
  rw [ht.paper_eq] at hids
  obtain ⟨symbol, rfl | rfl⟩ := hids
  · exact (h symbol).1
  · exact (h symbol).2

theorem asksLots_marked {Asked : List DecisionId → Prop} {st : PipelineState PaperExecutor}
    (h : AsksLots Asked st.executor) (input : CycleInput) :
    AsksLots Asked (input.marked paperExecutor st).executor :=
  marked_preserves (I := AsksLots Asked) (fun e symbol price _ he s => by
    have : (paperExecutor.updatePrice e symbol price).tracker = e.tracker :=
      e.tracker_updatePrice symbol price
    rw [this]
    exact he s) input st h

/-- **The book.** What reads of decision rows and writes of engines keep, every operation keeps that
neither allocates nor starts again. -/
theorem step_keepsBook {fresh : PaperExecutor} {Asked : List DecisionId → Prop}
    {I : Option SleeveBook → Prop} {a : SleeveAgent}
    (hkeeps : KeepsBook (DecisionTable.getDecisionStrategies a.decisions) Asked I)
    (hasks : AsksLots Asked a.pipeline.executor) {b : SleeveBook}
    (hbook : a.pipeline.book = some b) (hI : I a.pipeline.book) {s : SleeveStep}
    (hs : s.isRestart = false) (hallocate : ∀ now, s ≠ .allocate now) :
    I (a.step fresh s).pipeline.book := by
  cases s with
  | cycle c =>
      have hrun : I (c.pipeline.run paperExecutor (a.reading c) a.pipeline).2.book :=
        Pipeline.run_keepsBook paperExecutor c.pipeline hkeeps
          (asksFor_paper (asksLots_marked hasks (a.reading c))) hI
      show I ((a.runCycle c).2.postProcess c.writtenAt (a.runCycle c).1).pipeline.book
      rw [(postProcess_book _ _ _).1]
      exact hrun
  | closeAll c =>
      show I (a.closeAll c).pipeline.book
      unfold closeAll
      have howners : I (a.readOwners).2.pipeline.book ∧
          (a.readOwners).2.pipeline.executor = a.pipeline.executor ∧
          (a.readOwners).2.decisions = a.decisions := by
        have hread := hkeeps.ownersOf (asksFor_paper hasks _ (Reads.refl _))
          (a.pipeline.executor.getPositions.filter (fun p => p.quantity > 0))
          ((a.pipeline.executor.getPositions.filter (fun p => p.quantity > 0)).map
            Position.symbol).eraseDups Dict.empty (hbook ▸ hI)
        unfold readOwners
        rw [hbook]
        dsimp only
        unfold SleeveBook.owners
        dsimp only
        split <;> (rename_i heq; rw [heq] at hread; exact ⟨hread, rfl, rfl⟩)
      generalize a.readOwners = r at howners ⊢
      obtain ⟨owners, a'⟩ := r
      obtain ⟨hI', hexecutor, hdecisions⟩ := howners
      dsimp only at hI' hexecutor hdecisions ⊢
      have hclose := Pipeline.closeAllPositions_keepsBook paperExecutor c.pipeline hkeeps c.stamps
        c.outcomeNow (asksFor_paper (hexecutor ▸ hasks)) hI'
      rw [hdecisions]
      split
      · exact hclose
      · rw [(foldl_postProcess_book _ _ _ _).1]
        exact hclose
  | mark symbol price => exact hI
  | engines agentEngine engines =>
      show I (a.pipeline.book.map (fun b => { b with engines := engines }))
      rw [hbook] at hI ⊢
      exact hkeeps.engines b engines hI
  | allocate now => exact absurd rfl (hallocate now)
  | restart agentEngine settings engines now => cases hs

/-- A close-all writes neither decision nor allocation rows. -/
theorem closeAll_tables (a : SleeveAgent) (c : SleeveClose) :
    (a.closeAll c).decisions = a.decisions ∧ (a.closeAll c).allocations = a.allocations := by
  have howners : (a.readOwners).2.decisions = a.decisions ∧
      (a.readOwners).2.allocations = a.allocations := by
    unfold readOwners
    split
    · exact ⟨rfl, rfl⟩
    · split <;> exact ⟨rfl, rfl⟩
  unfold closeAll
  generalize a.readOwners = r at howners ⊢
  obtain ⟨owners, a'⟩ := r
  dsimp only at howners ⊢
  split
  · exact howners
  · obtain ⟨-, hdecisions, hallocations⟩ := foldl_postProcess_book c.writtenAt owners _ _
    rw [hdecisions, hallocations]
    exact howners

/-- The decision rows after an operation: with a row for the decision of a cycle. -/
theorem step_decisions (fresh : PaperExecutor) (s : SleeveStep) (a : SleeveAgent) :
    (a.step fresh s).decisions
      = match s with
        | .cycle c => (a.runCycle c).2.decisions
        | _ => a.decisions := by
  cases s with
  | cycle c => exact ((a.runCycle c).2.postProcess_book c.writtenAt (a.runCycle c).1).2.1
  | closeAll c => exact (a.closeAll_tables c).1
  | allocate now =>
      show (a.allocate now).decisions = a.decisions
      unfold allocate
      split <;> rfl
  | restart agentEngine settings engines now => rfl
  | _ => rfl

/-- The allocation rows after an operation that neither allocates nor starts again. -/
theorem step_allocations (fresh : PaperExecutor) {s : SleeveStep} (a : SleeveAgent)
    (hs : s.isRestart = false) (hallocate : ∀ now, s ≠ .allocate now) :
    (a.step fresh s).allocations = a.allocations := by
  cases s with
  | cycle c => exact ((a.runCycle c).2.postProcess_book c.writtenAt (a.runCycle c).1).2.2
  | closeAll c => exact (a.closeAll_tables c).2
  | allocate now => exact absurd rfl (hallocate now)
  | restart agentEngine settings engines now => cases hs
  | _ => rfl

end SleeveAgent

end SmartyTrader
