import SmartyTrader.Agents.BaseAgent
import SmartyTrader.Core.Rehydration
import SmartyTrader.Execution.PaperPipeline
import SmartyTrader.Storage.Snapshots

set_option autoImplicit false

/-! # Restarts of a paper agent

A paper agent keeps its cash, its book and its ledger in memory. After a restart the cash and
the book come from the newest snapshot and the ledger from the stored fills. The row of an order
is written before the snapshot that counts the order, so after a crash between the two writes
the ledger is ahead of the book. Where the stored fills are those that the newest snapshot
counts, the three describe one state of the run (`paper_restart_consistent`).
-/

namespace SmartyTrader

open Lib

/-! ## The agent -/

/-- `rehydrate_paper_executor` on a new executor: whether state was applied. -/
def rehydratePaperExecutor (e : PaperExecutor) (orders : OrderTable) (snapshots : SnapshotTable) :
    Bool × PaperExecutor :=
  match snapshots.getLatestPortfolioSnapshot with
  | none => (false, e)
  | some row =>
      (true, (e.loadPortfolioState row.cash row.positions
        (OrderTable.fills .paper Dict.empty orders)).2)

/-- An agent over a paper executor. The executor and the results without a row are in memory,
and the tables are in the database. -/
structure PaperAgent where
  executor : PaperExecutor
  unwritten : List (OrderResult × Option DecisionId × Option String)
  orders : OrderTable
  snapshots : SnapshotTable

/-- What an agent does. The cycle of a symbol marks its position, places at most one order and
post-processes the result; a close-all places all its orders first. -/
inductive PaperStep where
  | mark (symbol : Symbol) (price : ℚ)
  | place (req : OrderRequest) (stamp : Stamp) (strategy : Option String)
  /-- `_persist_order` of the oldest result without a row. -/
  | persistOrder (now : Time)
  /-- The realized PnL on the decision rows, which no restart of the book reads. -/
  | backfillPnl
  | persistPortfolio (now : Time)
  /-- A crash, and a start over the same database. -/
  | restart

/-- The steps of `_post_process` after an order. -/
def postProcess (now : Time) : List PaperStep :=
  [.persistOrder now, .backfillPnl, .persistPortfolio now]

namespace PaperAgent

def place (a : PaperAgent) (req : OrderRequest) (stamp : Stamp) :
    Except PyError OrderResult × PaperExecutor :=
  paperExecutor.placeOrder a.executor req stamp

def step (fresh : PaperExecutor) (s : PaperStep) (a : PaperAgent) : PaperAgent :=
  match s with
  | .mark symbol price => { a with executor := a.executor.updatePrice symbol price }
  | .place req stamp strategy =>
      match a.place req stamp with
      | (.ok r, e) =>
          { a with executor := e, unwritten := a.unwritten ++ [(r, req.decisionId, strategy)] }
      | (.error _, e) => { a with executor := e }
  | .persistOrder now =>
      match a.unwritten with
      | [] => a
      | (r, decisionId, strategy) :: rest =>
          match OrderTable.saveOrder a.orders (BaseAgent.rowOf r decisionId strategy now) with
          | .ok orders => { a with orders := orders, unwritten := rest }
          | .error _ => { a with unwritten := rest }
  | .backfillPnl => a
  | .persistPortfolio now =>
      { a with snapshots := a.snapshots.savePortfolioSnapshot (a.executor.portfolio.snapshot now) }
  | .restart =>
      { a with
        executor := (rehydratePaperExecutor fresh a.orders a.snapshots).2
        unwritten := [] }

end PaperAgent

/-! ## Runs -/

/-- The record of a fill that `place_order` returned. -/
def bookedFill (r : OrderResult) (decisionId : Option DecisionId) : List FillRecord :=
  if r.status = .filled then (paperFill (BaseAgent.rowOf r decisionId none 0)).toList else []

/-- The agent, with the fills its executor has booked. `saved` and `savedFills` are the executor
and its fills at the newest snapshot, or at the first start. -/
structure PaperRun where
  agent : PaperAgent
  fills : List FillRecord
  saved : PaperExecutor
  savedFills : List FillRecord

namespace PaperRun

def start (fresh : PaperExecutor) : PaperRun := ⟨⟨fresh, [], [], []⟩, [], fresh, []⟩

def step (fresh : PaperExecutor) (s : PaperStep) (x : PaperRun) : PaperRun :=
  let agent := x.agent.step fresh s
  match s with
  | .place req stamp _ =>
      { x with
        agent := agent
        fills := x.fills ++ ((x.agent.place req stamp).1.toOption.toList.flatMap
          (fun r => bookedFill r req.decisionId)) }
  | .persistPortfolio _ =>
      { x with agent := agent, saved := x.agent.executor, savedFills := x.fills }
  | .restart => { x with agent := agent, fills := x.savedFills }
  | _ => { x with agent := agent }

/-- The stored fills are those that the newest snapshot counts. -/
def Settled (x : PaperRun) : Prop :=
  OrderTable.fills .paper Dict.empty x.agent.orders = x.savedFills

end PaperRun

/-- An order of a size that the pipeline can plan (`sends_sized`): on the grid, and not
negative. -/
def PaperStep.Sized : PaperStep → Prop
  | .place req _ _ => 0 ≤ req.quantity ∧ req.quantity ∈ grid sizeUnit
  | _ => True

/-- Cash, book and ledger of `rebuilt` are those of `live`, and its ledger holds what its book
holds. Stored orders carry no commission, so rebuilt lots are free of fees. -/
structure OneState (rebuilt live : PaperExecutor) : Prop where
  cash : rebuilt.cash = live.cash
  positions : ∀ s, rebuilt.positions.get? s = live.positions.get? s
  ledger : ∀ s, rebuilt.tracker.lotsOf s = (live.tracker.lotsOf s).map Fifo.feeFree
  quantity : ∀ s, rebuilt.tracker.quantity s = rebuilt.bookQuantity s

/-! ## Planned sizes -/

/-- Every open position has a planned size, and so has its close. -/
theorem PaperExecutor.Level.sized {e : PaperExecutor} (h : e.Level) {pos : Position}
    (hpos : pos ∈ e.getPositions) : 0 ≤ pos.quantity ∧ pos.quantity ∈ grid sizeUnit := by
  obtain ⟨s, hs⟩ := (Dict.mem_values_iff _ _).mp hpos
  have hbook : e.bookQuantity s = pos.quantity := by rw [PaperExecutor.bookQuantity, hs]
  rw [← hbook, ← h.quantity_eq]
  exact ⟨Fifo.total_nonneg (h.onGrid s).1, total_mem_grid (h.onGrid s).2⟩

/-- **The sizes of a cycle.** Every order of the pipeline has a planned size. -/
theorem sends_sized {p : Pipeline} {input : CycleInput} {st : PipelineState PaperExecutor}
    (h : st.executor.Level) {s : PaperExecutor} {req : OrderRequest}
    (hsend : Sends paperExecutor p input st s req) :
    0 ≤ req.quantity ∧ req.quantity ∈ grid sizeUnit := by
  cases hsend with
  | close plan =>
      have hbefore : plan.before.Level :=
        plan.reads.preserves (I := PaperExecutor.Level) (fun _ h => h) (fun _ h => h) h
      have hread : plan.before.getPositions = plan.positions :=
        Except.ok.inj (Prod.mk.inj plan.readPositions).1
      exact hbefore.sized (hread ▸ plan.mem)
  | signal plan =>
      have hbefore : plan.before.Level :=
        plan.reads.preserves (I := PaperExecutor.Level) (fun _ h => h) (fun _ h => h) h
      have hread : plan.before.getPositions = plan.positions := Except.ok.inj plan.readPositions
      have hbook : ∀ q ∈ plan.book.positions, 0 ≤ q.quantity ∧ q.quantity ∈ grid sizeUnit := by
        intro q hq
        rcases plan.ownBook with ⟨hb, -⟩ | ⟨-, hb, -⟩
        · rw [hb] at hq
          exact hbefore.sized (hread ▸ hq)
        · exact hbefore.sized (hread ▸ (hb q hq).1)
      show 0 ≤ plan.quantity ∧ plan.quantity ∈ grid sizeUnit
      rw [plan.planned]
      unfold calculateQuantity
      dsimp only
      by_cases hsell : input.ownSignal.action = .sell ∧ heldLong plan.book input.ownSignal.symbol > 0
      · -- A SELL of everything held: a sum of planned sizes.
        rw [if_pos hsell]
        refine ⟨hsell.2.le, ?_⟩
        unfold heldLong
        refine AddSubgroup.list_sum_mem _ ?_
        intro q hq
        obtain ⟨pos, hpos, rfl⟩ := List.mem_map.mp hq
        exact (hbook pos (List.mem_filter.mp hpos).1).2
      · rw [if_neg hsell]
        exact ⟨floorTo_nonneg sizeUnit_pos (le_max_right _ _), floorTo_mem_grid _ _⟩

/-! ## What an executor remembers of its fills -/

/-- The executor after `fills`: its book and ledger agree, positions are filed under their own
symbol, and a replay of the fills gives its lots without their fees. -/
structure Records (fills : List FillRecord) (e : PaperExecutor) : Prop where
  level : e.Level
  keyed : ∀ s pos, e.positions.get? s = some pos → pos.symbol = s
  replayed : ∀ s, (replayFills PositionTracker.empty fills).tracker.lotsOf s
    = (e.tracker.lotsOf s).map Fifo.feeFree

theorem onGrid_feeFree {ls : List Lot} {u : ℚ}
    (h : Fifo.Positive ls ∧ ∀ l ∈ ls, l.quantity ∈ grid u) :
    Fifo.Positive (ls.map Fifo.feeFree) ∧ ∀ l ∈ ls.map Fifo.feeFree, l.quantity ∈ grid u := by
  constructor
  · intro l hl
    obtain ⟨old, hold, rfl⟩ := List.mem_map.mp hl
    exact h.1 old hold
  · intro l hl
    obtain ⟨old, hold, rfl⟩ := List.mem_map.mp hl
    exact h.2 old hold

theorem records_create (cash : ℚ) (costs : CostModel) :
    Records [] (PaperExecutor.create cash costs) where
  level := (PaperExecutor.reconciled_create cash costs).level
  keyed := by
    intro s pos h
    cases h
  replayed _ := rfl

theorem Records.of_eq {fills : List FillRecord} {e e' : PaperExecutor} (h : Records fills e)
    (hpositions : e'.positions = e.positions) (htracker : e'.tracker = e.tracker) :
    Records fills e' where
  level := by
    refine ⟨htracker ▸ h.level.onGrid, ?_⟩
    intro s
    have hq := h.level.quantity_eq s
    unfold PaperExecutor.bookQuantity at hq ⊢
    rw [htracker, hpositions, hq]
  keyed := hpositions ▸ h.keyed
  replayed := htracker ▸ h.replayed

theorem Records.mark {fills : List FillRecord} {e : PaperExecutor} (h : Records fills e)
    (s : Symbol) (price : ℚ) : Records fills (e.updatePrice s price) where
  level := h.level.updatePrice s price
  keyed := by
    unfold PaperExecutor.updatePrice
    cases hp : e.positions.get? s with
    | none => exact h.keyed
    | some pos =>
        intro s' pos' hp'
        rw [Dict.get?_set] at hp'
        split_ifs at hp' with hs
        · obtain rfl := Option.some.inj hp'
          rw [← hs]
          exact h.keyed s pos hp
        · exact h.keyed s' pos' hp'
  replayed := by
    unfold PaperExecutor.updatePrice
    cases e.positions.get? s <;> exact h.replayed

theorem lotsOf_replay_append (fills : List FillRecord) (f : FillRecord) (s : Symbol) :
    (replayFills PositionTracker.empty (fills ++ [f])).tracker.lotsOf s
      = if f.symbol = s then
          f.bookLots ((replayFills PositionTracker.empty fills).tracker.lotsOf s)
        else (replayFills PositionTracker.empty fills).tracker.lotsOf s := by
  unfold replayFills
  rw [List.foldl_append, List.foldl_cons, List.foldl_nil, lotsOf_replayStep]

/-- The record of a filled request. -/
def requestFill (req : OrderRequest) (price : ℚ) : FillRecord where
  symbol := req.symbol
  side := some req.side
  quantity := req.quantity
  price := price
  decisionId := req.decisionId
  stopLoss := none
  takeProfit := none
  feeBase := 0
  feeQuote := 0
  orderId := none

@[simp] theorem requestFill_symbol (req : OrderRequest) (price : ℚ) :
    (requestFill req price).symbol = req.symbol := rfl

theorem Records.bought {fills : List FillRecord} {e : PaperExecutor} (h : Records fills e)
    {req : OrderRequest} (price : ℚ) (hside : req.side = .buy) (hq : 0 ≤ req.quantity)
    (hg : req.quantity ∈ grid sizeUnit) :
    Records (fills ++ [requestFill req price]) (e.bought req price) where
  level := h.level.bought price hq hg
  keyed := by
    intro s pos hp
    rw [PaperExecutor.bought, Dict.get?_set] at hp
    split_ifs at hp with hs
    · obtain rfl := Option.some.inj hp
      unfold PaperExecutor.positionAfter
      cases hpos : e.positions.get? req.symbol with
      | none => exact hs
      | some old => exact hs ▸ h.keyed _ old hpos
    · exact h.keyed s pos hp
  replayed := by
    intro s
    rw [lotsOf_replay_append, h.replayed, requestFill_symbol]
    show _ = ((e.tracker.onBuy req.symbol req.quantity price _ req.decisionId).lotsOf s).map _
    have hbook : ∀ ls : List Lot, (requestFill req price).bookLots ls
        = if req.quantity ≤ 0 then ls else ls ++ [⟨req.quantity, price, 0, req.decisionId⟩] := by
      intro ls
      have hbooked : (requestFill req price).booked = req.quantity := if_neg (by simp [requestFill])
      unfold FillRecord.bookLots
      rw [hbooked]
      simp only [requestFill, hside, ite_self, zero_mul, add_zero]
    rcases hq.eq_or_lt with h0 | hpos
    · rw [hbook, if_pos h0.ge, ite_self, ← h0, PositionTracker.onBuy_zero]
    · rw [hbook, if_neg (not_le.mpr hpos), PositionTracker.lotsOf_onBuy _ _ _ _ _ _ _ hpos]
      by_cases hs : req.symbol = s
      · rw [if_pos hs, if_pos hs, List.map_append, hs]
        rfl
      · rw [if_neg hs, if_neg hs]

theorem Records.sold {fills : List FillRecord} {e : PaperExecutor} (h : Records fills e)
    {req : OrderRequest} (price : ℚ) {pos : Position} (hside : req.side = .sell)
    (hq : 0 ≤ req.quantity) (hg : req.quantity ∈ grid sizeUnit)
    (hpos : e.positions.get? req.symbol = some pos) (hle : req.quantity ≤ pos.quantity) :
    Records (fills ++ [requestFill req price]) (e.sold req price pos) where
  level := h.level.sold price hq hg hpos hle
  keyed := by
    intro s pos' hp
    simp only [PaperExecutor.sold] at hp
    split_ifs at hp with h0
    · rw [Dict.get?_erase] at hp
      split_ifs at hp
      exact h.keyed s pos' hp
    · rw [Dict.get?_set] at hp
      split_ifs at hp with hs
      · obtain rfl := Option.some.inj hp
        exact hs ▸ h.keyed _ pos hpos
      · exact h.keyed s pos' hp
  replayed := by
    intro s
    have hu := PaperExecutor.lotEpsilon_lt_sizeUnit
    rw [lotsOf_replay_append, h.replayed, requestFill_symbol]
    show _ = ((e.tracker.onSell req.symbol req.quantity price _).2.lotsOf s).map _
    rw [PositionTracker.lotsOf_onSell_grid hu h.level.onGrid req.symbol s hq hg]
    by_cases hs : req.symbol = s
    · -- Both sales leave the exact queue, and fees do not decide which.
      obtain ⟨hp, hls⟩ := onGrid_feeFree (h.level.onGrid s)
      rw [if_pos hs, if_pos hs, bookLots_sell hu (congrArg some hside) hg hp hls,
        Fifo.map_feeFree_drop, hs]
      rfl
    · rw [if_neg hs, if_neg hs]

/-- **One order.** What `place_order` books is the record of its result. -/
theorem Records.place {fills : List FillRecord} {e : PaperExecutor} (h : Records fills e)
    (req : OrderRequest) (orderId : OrderId) (now : Time) (hq : 0 ≤ req.quantity)
    (hg : req.quantity ∈ grid sizeUnit) :
    Records (fills ++ (e.placeOrder req orderId now).1.toOption.toList.flatMap
        (fun r => bookedFill r req.decisionId))
      (e.placeOrder req orderId now).2 := by
  rcases e.placeOrder_cases req orderId now with
    ⟨r, e', hr, he, -, -, hpos, htr⟩ | ⟨price, -, -, -, he⟩ |
    ⟨price, hside, -, he⟩ | ⟨price, pos, hside, hpos, hle, he⟩
  · have hnone : bookedFill r req.decisionId = [] := if_neg (by rw [hr]; decide)
    rw [he]
    simp only [Except.toOption, Option.toList_some, List.flatMap_singleton, hnone,
      List.append_nil]
    exact h.of_eq hpos htr
  · rw [he]
    simp only [Except.toOption, Option.toList_none, List.flatMap_nil, List.append_nil]
    exact h.of_eq rfl rfl
  · have hfill : bookedFill (PaperExecutor.filled orderId req price now) req.decisionId
        = [requestFill req price] := rfl
    rw [he]
    simp only [Except.toOption, Option.toList_some, List.flatMap_singleton, hfill]
    exact (h.bought price hside hq hg).of_eq rfl rfl
  · have hfill : bookedFill (e.closed orderId req price now) req.decisionId
        = [requestFill req price] := by
      unfold requestFill
      rw [hside]
      rfl
    rw [he]
    simp only [Except.toOption, Option.toList_some, List.flatMap_singleton, hfill]
    exact (h.sold price hside hq hg hpos hle).of_eq rfl rfl

/-! ## Loading a snapshot -/

theorem foldl_topUp {ps : List Position} {t : PositionTracker}
    (h : ∀ p ∈ ps, p.quantity ≤ t.quantity p.symbol) (n : ℕ) :
    ps.foldl PaperExecutor.topUp (t, n) = (t, n) := by
  induction ps with
  | nil => rfl
  | cons p ps ih =>
      have hε : (0 : ℚ) ≤ lotEpsilon := by norm_num [lotEpsilon]
      have hp := h p List.mem_cons_self
      have hstep : PaperExecutor.topUp (t, n) p = (t, n) := by
        unfold PaperExecutor.topUp
        exact if_neg (by dsimp only; linarith)
      rw [List.foldl_cons, hstep]
      exact ih fun q hq => h q (List.mem_cons_of_mem _ hq)

/-- **One restart.** A snapshot and the fills that it counts restore one state. -/
theorem Records.load {fills : List FillRecord} {live : PaperExecutor} (h : Records fills live)
    (fresh : PaperExecutor) :
    Records fills (fresh.loadPortfolioState live.cash live.getPositions fills).2 ∧
      OneState (fresh.loadPortfolioState live.cash live.getPositions fills).2 live := by
  have hquantity : ∀ s, (replayFills PositionTracker.empty fills).tracker.quantity s
      = live.bookQuantity s := by
    intro s
    unfold PositionTracker.quantity
    rw [h.replayed, Fifo.total_map_feeFree]
    exact h.level.quantity_eq s
  -- The replay holds what the book holds, so there is nothing to top up.
  have htop : live.getPositions.foldl PaperExecutor.topUp
      ((replayFills PositionTracker.empty fills).tracker, 0)
      = ((replayFills PositionTracker.empty fills).tracker, 0) := by
    refine foldl_topUp ?_ 0
    intro p hp
    obtain ⟨s, hs⟩ := (Dict.mem_values_iff _ _).mp hp
    rw [h.keyed s p hs, hquantity, PaperExecutor.bookQuantity, hs]
  have htracker : (fresh.loadPortfolioState live.cash live.getPositions fills).2.tracker
      = (replayFills PositionTracker.empty fills).tracker := congrArg Prod.fst htop
  have hpositions : ∀ s,
      (fresh.loadPortfolioState live.cash live.getPositions fills).2.positions.get? s
        = live.positions.get? s := Dict.get?_foldl_values Position.symbol h.keyed
  have hbook : ∀ s, (fresh.loadPortfolioState live.cash live.getPositions fills).2.bookQuantity s
      = live.bookQuantity s := by
    intro s
    unfold PaperExecutor.bookQuantity
    rw [hpositions]
  have hlevel : ∀ s,
      (fresh.loadPortfolioState live.cash live.getPositions fills).2.tracker.quantity s
        = (fresh.loadPortfolioState live.cash live.getPositions fills).2.bookQuantity s := by
    intro s
    rw [htracker, hbook, hquantity]
  refine ⟨⟨⟨?_, hlevel⟩, ?_, ?_⟩, ⟨rfl, hpositions, ?_, hlevel⟩⟩
  · intro s
    rw [htracker, h.replayed]
    exact onGrid_feeFree (h.level.onGrid s)
  · intro s pos hpos
    exact h.keyed s pos (hpositions s ▸ hpos)
  · intro s
    rw [htracker, h.replayed, List.map_map]
    rfl
  · intro s
    rw [htracker, h.replayed]

/-! ## The invariant -/

namespace PaperRun

/-- The executor and the saved one record their fills, and the newest snapshot is the saved
executor. -/
structure Faithful (fresh : PaperExecutor) (x : PaperRun) : Prop where
  live : Records x.fills x.agent.executor
  saved : Records x.savedFills x.saved
  snapshot :
    (x.agent.snapshots.getLatestPortfolioSnapshot = none ∧ x.saved = fresh ∧ x.savedFills = []) ∨
    ∃ row, x.agent.snapshots.getLatestPortfolioSnapshot = some row ∧
      row.cash = x.saved.cash ∧ row.positions = x.saved.getPositions

theorem faithful_start (cash : ℚ) (costs : CostModel) :
    Faithful (PaperExecutor.create cash costs) (start (PaperExecutor.create cash costs)) where
  live := records_create cash costs
  saved := records_create cash costs
  snapshot := Or.inl ⟨rfl, rfl, rfl⟩

/-- A restart from settled tables restores the saved executor. -/
theorem Faithful.rehydrated {fresh : PaperExecutor} {x : PaperRun} (h : Faithful fresh x)
    (hsettled : x.Settled) :
    Records x.savedFills (rehydratePaperExecutor fresh x.agent.orders x.agent.snapshots).2 ∧
      OneState (rehydratePaperExecutor fresh x.agent.orders x.agent.snapshots).2 x.saved := by
  unfold rehydratePaperExecutor
  unfold Settled at hsettled
  rcases h.snapshot with ⟨hnone, hsaved, hfills⟩ | ⟨row, hrow, hcash, hpositions⟩
  · rw [hnone]
    dsimp only
    have hrecords := h.saved
    rw [hsaved, hfills] at hrecords
    rw [hsaved, hfills]
    refine ⟨hrecords, rfl, fun s => rfl, ?_, hrecords.level.quantity_eq⟩
    intro s
    rw [List.map_eq_nil_iff.mp (hrecords.replayed s).symm, List.map_nil]
  · rw [hrow]
    dsimp only
    rw [hsettled, hcash, hpositions]
    exact h.saved.load fresh

theorem step_place (fresh : PaperExecutor) (a : PaperAgent) (req : OrderRequest) (stamp : Stamp)
    (strategy : Option String) :
    (a.step fresh (.place req stamp strategy)).executor = (a.place req stamp).2 ∧
      (a.step fresh (.place req stamp strategy)).snapshots = a.snapshots := by
  unfold PaperAgent.step
  dsimp only
  split
  · rename_i r e he
    rw [he]
    exact ⟨rfl, rfl⟩
  · rename_i err e he
    rw [he]
    exact ⟨rfl, rfl⟩

theorem step_persistOrder (fresh : PaperExecutor) (a : PaperAgent) (now : Time) :
    (a.step fresh (.persistOrder now)).executor = a.executor ∧
      (a.step fresh (.persistOrder now)).snapshots = a.snapshots := by
  unfold PaperAgent.step
  dsimp only
  split
  · exact ⟨rfl, rfl⟩
  · split <;> exact ⟨rfl, rfl⟩

/-- **One step.** Only a restart looks at both tables, and it has to find them settled. -/
theorem faithful_step {fresh : PaperExecutor} {x : PaperRun} (h : Faithful fresh x)
    {s : PaperStep} (hsized : s.Sized) (hsettled : s = .restart → x.Settled) :
    Faithful fresh (x.step fresh s) := by
  cases s with
  | mark symbol price => exact ⟨h.live.mark symbol price, h.saved, h.snapshot⟩
  | place req stamp strategy =>
      obtain ⟨hexecutor, hsnapshots⟩ := step_place fresh x.agent req stamp strategy
      refine ⟨?_, h.saved, ?_⟩
      · show Records _ (x.agent.step fresh (.place req stamp strategy)).executor
        rw [hexecutor]
        exact h.live.place req _ stamp.now hsized.1 hsized.2
      · unfold step
        dsimp only
        rw [hsnapshots]
        exact h.snapshot
  | persistOrder now =>
      obtain ⟨hexecutor, hsnapshots⟩ := step_persistOrder fresh x.agent now
      refine ⟨?_, h.saved, ?_⟩
      · unfold step
        dsimp only
        rw [hexecutor]
        exact h.live
      · unfold step
        dsimp only
        rw [hsnapshots]
        exact h.snapshot
  | backfillPnl => exact ⟨h.live, h.saved, h.snapshot⟩
  | persistPortfolio now =>
      exact ⟨h.live, h.live, Or.inr ⟨_, List.getLast?_concat .., rfl, rfl⟩⟩
  | restart => exact ⟨(h.rehydrated (hsettled rfl)).1, h.saved, h.snapshot⟩

/-- The saved executor was the agent's at some point of the run. -/
theorem saved_reached (fresh : PaperExecutor) (steps : List PaperStep) :
    ∃ before after, steps = before ++ after ∧
      (Lib.run (step fresh) steps (start fresh)).saved
        = (Lib.run (step fresh) before (start fresh)).agent.executor := by
  induction steps using List.reverseRecOn with
  | nil => exact ⟨[], [], rfl, rfl⟩
  | append_singleton steps s ih =>
      obtain ⟨before, after, hsteps, hsaved⟩ := ih
      have hkeep : ((Lib.run (step fresh) steps (start fresh)).step fresh s).saved
          = (Lib.run (step fresh) steps (start fresh)).saved ∨
          ((Lib.run (step fresh) steps (start fresh)).step fresh s).saved
            = (Lib.run (step fresh) steps (start fresh)).agent.executor := by
        cases s with
        | persistPortfolio now => exact Or.inr rfl
        | _ => exact Or.inl rfl
      rw [run_append]
      rcases hkeep with hold | hnew
      · refine ⟨before, after ++ [s], by rw [hsteps, List.append_assoc], ?_⟩
        exact hold.trans hsaved
      · exact ⟨steps, [s], rfl, hnew⟩

end PaperRun

/-! ## Where a crash does no harm

Rows that are not lost catch up with the executor, so between two operations of the agent, when
no result waits for its row and the newest snapshot counts every fill, the tables are settled.
-/

namespace PaperRun

/-- A row that is written has a new id. -/
def FreshRow (s : PaperStep) (x : PaperRun) : Prop :=
  match s with
  | .persistOrder _ =>
      ∀ r ∈ x.agent.unwritten.head?, r.1.orderId ∉ x.agent.orders.map OrderRow.orderId
  | _ => True

/-- The stored fills and those that wait for their row are the fills of the executor. -/
def Owed (x : PaperRun) : Prop :=
  OrderTable.fills .paper Dict.empty x.agent.orders
      ++ x.agent.unwritten.flatMap (fun r => bookedFill r.1 r.2.1) = x.fills

theorem fills_append (t : OrderTable) (r : OrderResult) (decisionId : Option DecisionId)
    (strategy : Option String) (now : Time) :
    OrderTable.fills .paper Dict.empty (t ++ [BaseAgent.rowOf r decisionId strategy now])
      = OrderTable.fills .paper Dict.empty t ++ bookedFill r decisionId := by
  unfold OrderTable.fills OrderTable.getFilledOrders bookedFill
  rw [List.filter_append, List.filterMap_append]
  congr 1
  by_cases hr : (BaseAgent.rowOf r decisionId strategy now).status = .filled
  · rw [if_pos (show r.status = .filled from hr), List.filter_cons_of_pos (by simpa using hr), List.filter_nil]
    unfold LedgerOwner.read paperFill BaseAgent.rowOf
    cases r.price <;> rfl
  · rw [if_neg (show ¬ r.status = .filled from hr), List.filter_cons_of_neg (by simpa using hr), List.filter_nil,
      List.filterMap_nil]

theorem owed_step {fresh : PaperExecutor} {x : PaperRun} (h : x.Owed) {s : PaperStep}
    (hfresh : FreshRow s x) (hsettled : s = .restart → x.Settled) : (x.step fresh s).Owed := by
  unfold Owed at h ⊢
  cases s with
  | mark symbol price => exact h
  | place req stamp strategy =>
      unfold step PaperAgent.step
      dsimp only
      rw [← h]
      rcases hplace : x.agent.place req stamp with ⟨_ | r, e⟩
      · simp [Except.toOption]
      · simp [Except.toOption]
  | persistOrder now =>
      unfold step PaperAgent.step
      dsimp only
      rcases hu : x.agent.unwritten with _ | ⟨⟨r, decisionId, strategy⟩, rest⟩
      · dsimp only
        rw [hu] at h ⊢
        exact h
      · have hnew : r.orderId ∉ x.agent.orders.map OrderRow.orderId :=
          hfresh ⟨r, decisionId, strategy⟩ (by rw [hu]; rfl)
        dsimp only
        rw [saveOrder_of_fresh hnew]
        dsimp only
        rw [fills_append, List.append_assoc, ← h, hu, List.flatMap_cons]
  | backfillPnl => exact h
  | persistPortfolio now => exact h
  | restart =>
      have hs := hsettled rfl
      unfold Settled at hs
      unfold step PaperAgent.step
      dsimp only
      rw [hs, List.flatMap_nil, List.append_nil]

/-- When no result waits for its row and the newest snapshot counts every fill, the tables are
settled. -/
theorem settled_of_counted {fresh : PaperExecutor} {steps : List PaperStep}
    (hsteps : EachStep (step fresh) (fun s x => FreshRow s x ∧ (s = .restart → x.Settled)) steps
      (start fresh))
    (hwritten : (Lib.run (step fresh) steps (start fresh)).agent.unwritten = [])
    (hcounted : (Lib.run (step fresh) steps (start fresh)).savedFills
      = (Lib.run (step fresh) steps (start fresh)).fills) :
    (Lib.run (step fresh) steps (start fresh)).Settled := by
  have howed : (Lib.run (step fresh) steps (start fresh)).Owed :=
    run_preserves (I := Owed) (fun s x hs hx => owed_step hx hs.1 hs.2) steps hsteps rfl
  unfold Owed at howed
  rw [hwritten, List.flatMap_nil, List.append_nil] at howed
  exact howed.trans hcounted.symm

end PaperRun

/-! ## The theorem -/

/-- **Restarts are consistent.** In every run whose orders have planned sizes and whose restarts
find the tables settled, a restart at a point where they are settled restores the cash, the book
and the ledger of one state of the run, and its ledger holds what its book holds. -/
theorem paper_restart_consistent (cash : ℚ) (costs : CostModel) (steps : List PaperStep)
    (hsteps : EachStep (PaperRun.step (PaperExecutor.create cash costs))
      (fun s x => s.Sized ∧ (s = .restart → x.Settled)) steps
      (PaperRun.start (PaperExecutor.create cash costs)))
    (hsettled : (Lib.run (PaperRun.step (PaperExecutor.create cash costs)) steps
      (PaperRun.start (PaperExecutor.create cash costs))).Settled) :
    let fresh := PaperExecutor.create cash costs
    let crashed := (Lib.run (PaperRun.step fresh) steps (PaperRun.start fresh)).agent
    let rebuilt := (rehydratePaperExecutor fresh crashed.orders crashed.snapshots).2
    ∃ before after, steps = before ++ after ∧
      OneState rebuilt (Lib.run (PaperRun.step fresh) before (PaperRun.start fresh)).agent.executor
    := by
  intro fresh crashed rebuilt
  have hfaithful : PaperRun.Faithful fresh (Lib.run (PaperRun.step fresh) steps
      (PaperRun.start fresh)) :=
    run_preserves (I := PaperRun.Faithful fresh) (fun s x hs hx => PaperRun.faithful_step hx hs.1 hs.2) steps hsteps
      (PaperRun.faithful_start cash costs)
  obtain ⟨before, after, hsplit, hsaved⟩ := PaperRun.saved_reached fresh steps
  refine ⟨before, after, hsplit, ?_⟩
  rw [← hsaved]
  exact (hfaithful.rehydrated hsettled).2

/-- A BUY of two coins. -/
def twoCoins : OrderRequest := ⟨"BTC/EUR", .buy, 2, some 100, some 1, none, none⟩

/-- A crash after the snapshot of a BUY, and another one before the row of a SELL. -/
theorem paper_restart_consistent_twice :
    let fresh := PaperExecutor.create 1000 CostModel.free
    let steps := [.place twoCoins ⟨"0f3a", 10⟩ none, .persistOrder 11, .backfillPnl,
      .persistPortfolio 12, .restart, .mark "BTC/EUR" 120,
      .place { twoCoins with side := .sell } ⟨"91bc", 20⟩ none]
    let crashed := (Lib.run (PaperRun.step fresh) steps (PaperRun.start fresh)).agent
    let rebuilt := (rehydratePaperExecutor fresh crashed.orders crashed.snapshots).2
    rebuilt.tracker.quantity "BTC/EUR" = 2 ∧
      ∃ before after, steps = before ++ after ∧
        OneState rebuilt
          (Lib.run (PaperRun.step fresh) before (PaperRun.start fresh)).agent.executor := by
  intro fresh steps crashed rebuilt
  have hgrid : (2 : ℚ) ∈ grid sizeUnit := mem_grid_iff.mpr ⟨200000000, by norm_num [sizeUnit]⟩
  refine ⟨by decide +kernel, paper_restart_consistent 1000 CostModel.free steps ?_ ?_⟩
  · have hsettled : (Lib.run (PaperRun.step fresh) (steps.take 4) (PaperRun.start fresh)).Settled := by
      unfold PaperRun.Settled
      decide +kernel
    refine ⟨⟨⟨by decide, hgrid⟩, fun h => by cases h⟩, ⟨trivial, fun h => by cases h⟩,
      ⟨trivial, fun h => by cases h⟩, ⟨trivial, fun h => by cases h⟩,
      ⟨trivial, fun _ => hsettled⟩, ⟨trivial, fun h => by cases h⟩,
      ⟨⟨by decide, hgrid⟩, fun h => by cases h⟩, trivial⟩
  · unfold PaperRun.Settled
    decide +kernel

/-- A crash between the row of a BUY and the snapshot that would count it: the ledger holds two
coins that the book and the cash know nothing of. -/
theorem crash_before_snapshot :
    let fresh := PaperExecutor.create 1000 CostModel.free
    let steps := [.persistPortfolio 5, .place twoCoins ⟨"0f3a", 10⟩ none, .persistOrder 11]
    let crashed := (Lib.run (PaperRun.step fresh) steps (PaperRun.start fresh)).agent
    let rebuilt := (rehydratePaperExecutor fresh crashed.orders crashed.snapshots).2
    rebuilt.cash = 1000 ∧ rebuilt.bookQuantity "BTC/EUR" = 0 ∧
      rebuilt.tracker.quantity "BTC/EUR" = 2 ∧
      ¬ ∃ live, OneState rebuilt live := by
  intro fresh steps crashed rebuilt
  have hbook : rebuilt.bookQuantity "BTC/EUR" = 0 := by decide +kernel
  have hledger : rebuilt.tracker.quantity "BTC/EUR" = 2 := by decide +kernel
  refine ⟨by decide +kernel, hbook, hledger, ?_⟩
  rintro ⟨live, h⟩
  have hquantity := h.quantity "BTC/EUR"
  rw [hbook, hledger] at hquantity
  norm_num at hquantity

end SmartyTrader
