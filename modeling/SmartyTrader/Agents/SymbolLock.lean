import SmartyTrader.Core.PipelineLock
import SmartyTrader.Core.SleeveOwners
import SmartyTrader.Execution.Entries
import SmartyTrader.Execution.ScriptedVenue

set_option autoImplicit false

/-! # The symbol lock

Strategy sleeves that trade through one ccxt executor. A sleeve buys a symbol only if nobody owns it
or the sleeve itself does, and the owner is read from the decisions behind the open lots and the
working BUYs. But the lots count only while the venue's balance shows them, and a restart brings
back lots that were written off. In runs in which neither happens, all entries of a symbol are of
one sleeve (`symbol_lock`).
-/

namespace SmartyTrader

open Lib

variable {W : Type}

/-! ## Traders -/

/-- The objects in memory, and the rows of the decisions. -/
structure SleeveTrader (W : Type) where
  agent : AgentState W
  decisions : DecisionTable

/-- What a start reads from storage and builds. -/
structure TraderStart where
  levels : Dict DecisionId ExitLevels
  orders : OrderTable
  now : Time
  agentEngine : RiskEngine
  engines : Dict String RiskEngine
  allocation : Option Allocation

inductive TraderStep (W : Type) where
  /-- An operation of the agent. A cycle stores its decision at the given time. -/
  | agent (i : AgentInput W) (now : Time)
  | cancel (id : OrderId)
  | positions
  | cash
  | mark (symbol : Symbol) (price : ℚ)
  /-- What overrides, resets and `ensure_allocation` do to the engines and the allocation. -/
  | setup (agentEngine : RiskEngine) (engines : Dict String RiskEngine)
      (allocation : Option Allocation)
  /-- A start under the same configuration. -/
  | restart (r : TraderStart)

namespace SleeveTrader

/-- A new agent without orders or lots, over the decisions of a database. -/
def start (fresh : CcxtExecutor W) (settings : SleevesSettings) (agentEngine : RiskEngine)
    (engines : Dict String RiskEngine) (decisions : DecisionTable) : SleeveTrader W where
  agent :=
    { executor := fresh
      agentEngine := agentEngine
      book := some ⟨settings, Dict.empty, engines, none⟩
      lastDecisionAt := Dict.empty }
  decisions := decisions

def withExecutor (st : SleeveTrader W) (e : CcxtExecutor W) : SleeveTrader W :=
  { st with agent := { st.agent with executor := e } }

variable (c : ExchangeClient W)

/-- The rows after an operation. A decision is stored right after the gate, under the sleeve of its
pipeline; it has no id when that failed. -/
def storeDecision (now : Time) (st : SleeveTrader W) : AgentInput W → DecisionTable
  | .cycle p input =>
      match (p.run (ccxtExecutor c) input st.agent).1.signal, input.decisionId with
      | some _, some id => st.decisions.set id ⟨p.strategy, now⟩
      | _, _ => st.decisions
  | _ => st.decisions

/-- A new executor with the stored fills and the pending orders. -/
def loaded (r : TraderStart) (e : CcxtExecutor W) : CcxtExecutor W :=
  CcxtExecutor.reloaded r.levels r.orders r.now (CcxtExecutor.create e.world e.quote e.orders)

/-- The executor of a start. -/
def restarted (r : TraderStart) (e : CcxtExecutor W) : CcxtExecutor W :=
  CcxtExecutor.rehydrateVenueExecutor c r.levels r.orders r.now
    (CcxtExecutor.create e.world e.quote e.orders)

def step : TraderStep W → SleeveTrader W → SleeveTrader W
  | .agent i now, st => ⟨agentStep c i st.agent, st.storeDecision c now i⟩
  | .cancel id, st => st.withExecutor (st.agent.executor.cancelOrder c id).2
  | .positions, st => st.withExecutor (st.agent.executor.getPositions c).2
  | .cash, st => st.withExecutor (st.agent.executor.getCash c).2
  | .mark symbol price, st => st.withExecutor (st.agent.executor.updatePrice symbol price)
  | .setup agentEngine engines allocation, st =>
      { st with agent := { st.agent with
        agentEngine := agentEngine
        book := st.agent.book.map (fun b =>
          { b with
            engines := engines
            allocation := allocation }) } }
  | .restart r, st =>
      { st with agent :=
        { executor := restarted c r st.agent.executor
          agentEngine := r.agentEngine
          book := st.agent.book.map (fun b => ⟨b.settings, Dict.empty, r.engines, r.allocation⟩)
          lastDecisionAt := Dict.empty } }

end SleeveTrader

/-! ## What is asked of a run -/

namespace CcxtExecutor

section Balance

variable (c : ExchangeClient W)

/-- The executor as `get_positions` finds it when it reads the balance. -/
def swept (e : CcxtExecutor W) : CcxtExecutor W :=
  (e.ensureMarkets c).tracker.symbols.foldl (fun e s => e.writeOffDust s) (e.ensureMarkets c)

/-- What counts of a symbol: the quantity in the ledger, capped by the reported balance. -/
def counted (e : CcxtExecutor W) (totals : Option (Dict String (Option ℚ))) (s : Symbol) : ℚ :=
  match (totals.bind (fun t => t.get? (baseCode s))).join with
  | some held => min (e.tracker.quantity s) held
  | none => e.tracker.quantity s

/-- By the balance that the venue reports, what is held of the symbol is dust. -/
def Hidden (e : CcxtExecutor W) (s : Symbol) : Prop :=
  (e.swept c).isDust s ((e.swept c).counted (c.fetchBalance (e.swept c).world).1.toOption.join s)
    = true

/-- What is more than dust is a position. -/
theorem positionOf_counted (e : CcxtExecutor W) (totals : Option (Dict String (Option ℚ)))
    (s : Symbol) (h : e.isDust s (e.counted totals s) = false) :
    ∃ q, e.positionOf totals s = some q ∧ q.symbol = s ∧ 0 < q.quantity := by
  have hpos : 0 < e.counted totals s := by
    simp only [isDust, decide_eq_false_iff_not, not_or, not_le] at h
    have heps : (0 : ℚ) < lotEpsilon := by norm_num [lotEpsilon]
    exact heps.trans h.1
  have hreported : e.positionOf totals s = some ⟨s, e.counted totals s, _, _, _, _, _⟩ :=
    if_neg (Bool.eq_false_iff.mp h)
  exact ⟨_, hreported, rfl, hpos⟩

/-- Open lots that are not hidden are reported. -/
theorem reported_of_not_hidden {e : CcxtExecutor W} {s : Symbol} (h : ¬ e.Hidden c s)
    (hlots : (e.swept c).tracker.lotsOf s ≠ []) {positions : List Position}
    (hread : (e.getPositions c).1 = .ok positions) :
    ∃ q ∈ positions, q.symbol = s ∧ 0 < q.quantity := by
  obtain rfl := Except.ok.inj hread
  obtain ⟨q, hq, hreported⟩ := positionOf_counted _ _ s (Bool.eq_false_iff.mpr h)
  exact ⟨q, List.mem_filterMap.mpr ⟨s, (PositionTracker.mem_symbols_iff _ _).mpr hlots, hq⟩,
    hreported⟩

end Balance

/-- Some open lot of the symbol was bought by a decision of the sleeve. -/
def HeldBy (e : CcxtExecutor W) (t : DecisionTable) (settings : SleevesSettings) (s : Symbol)
    (name : String) : Prop :=
  ∃ i, some i ∈ e.tracker.entryDecisionIds s ∧ DecisionTable.sleeveOf t settings i = some name

/-- Some entry of the symbol is of a decision of the sleeve. -/
def EnteredBy (e : CcxtExecutor W) (t : DecisionTable) (settings : SleevesSettings) (s : Symbol)
    (name : String) : Prop :=
  ∃ i, e.HasEntry s (some i) ∧ DecisionTable.sleeveOf t settings i = some name

theorem HeldBy.entered {e : CcxtExecutor W} {t : DecisionTable} {settings : SleevesSettings}
    {s : Symbol} {name : String} (h : e.HeldBy t settings s name) :
    e.EnteredBy t settings s name := by
  obtain ⟨i, hlot, hname⟩ := h
  exact ⟨i, Or.inl hlot, hname⟩

end CcxtExecutor

/-- Some stored BUY of the symbol is of a decision of the sleeve. -/
def OrderTable.BoughtBy (orders : OrderTable) (t : DecisionTable) (settings : SleevesSettings)
    (s : Symbol) (name : String) : Prop :=
  ∃ row ∈ orders, row.symbol = s ∧ row.side = .buy ∧
    ∃ i, row.decisionId = some i ∧ DecisionTable.sleeveOf t settings i = some name

namespace SleeveTrader

/-- The database answers a cycle and a close-all from its rows or fails, the id of a new decision is
new, and stored orders are of stored decisions. -/
def Stored : TraderStep W → SleeveTrader W → Prop
  | .agent (.cycle _ input) _, st => DecisionTable.Answers st.decisions input.metaRead ∧
      ∀ id, input.decisionId = some id → st.decisions.get? id = none
  | .agent (.closeAll _ read _ _) _, st => DecisionTable.Answers st.decisions read
  | .restart r, st => ∀ row ∈ r.orders, ∀ i, row.decisionId = some i →
      (st.decisions.get? i).isSome
  | _, _ => True

/-- The executor in which a cycle reads who owns its symbol. -/
def asked (c : ExchangeClient W) (input : CycleInput) (st : SleeveTrader W) : CcxtExecutor W :=
  (input.marked (ccxtExecutor c) st.agent).executor

/-- A cycle that may buy reads the owner when no lot of its symbol that a sleeve bought is hidden. A
restart brings back no entry of a symbol that the executor let go, unless all stored BUYs of the
symbol are of one sleeve. -/
def Unhidden (c : ExchangeClient W) (settings : SleevesSettings) :
    TraderStep W → SleeveTrader W → Prop
  | .agent (.cycle _ input) _, st => input.signal.action = .buy →
      ∀ name, ((st.asked c input).swept c).HeldBy st.decisions settings input.symbol name →
        ¬ (st.asked c input).Hidden c input.symbol
  | .restart r, st => ∀ s,
      (∀ i, (loaded r st.agent.executor).HasEntry s (some i) →
        st.agent.executor.HasEntry s (some i)) ∨
      ∀ name name', OrderTable.BoughtBy r.orders st.decisions settings s name →
        OrderTable.BoughtBy r.orders st.decisions settings s name' → name = name'
  | _, _ => True

end SleeveTrader

/-! ## The invariant -/

/-- The book reads what the rows say, each entry is of a stored decision, and the entries of a
symbol are of one sleeve. -/
structure Locked (settings : SleevesSettings) (e : CcxtExecutor W) (book : Option SleeveBook)
    (t : DecisionTable) : Prop where
  book : ∃ b, book = some b ∧ b.settings = settings ∧ b.Coherent t
  rows : ∀ s i, e.HasEntry s (some i) → (t.get? i).isSome
  one : ∀ s name name', e.EnteredBy t settings s name → e.EnteredBy t settings s name' →
    name = name'

theorem metaOf_set {t : DecisionTable} {id i : DecisionId} (h : i ≠ id) (row : DecisionRow) :
    DecisionTable.metaOf (t.set id row) i = DecisionTable.metaOf t i := by
  unfold DecisionTable.metaOf
  rw [Dict.get?_set_ne _ _ h.symm]

theorem sleeveOf_set {t : DecisionTable} {id i : DecisionId} (h : i ≠ id) (row : DecisionRow)
    (settings : SleevesSettings) :
    DecisionTable.sleeveOf (t.set id row) settings i = DecisionTable.sleeveOf t settings i := by
  unfold DecisionTable.sleeveOf
  rw [metaOf_set h]

namespace Locked

variable {settings : SleevesSettings} {e e' : CcxtExecutor W} {book book' : Option SleeveBook}
  {t : DecisionTable}

/-- Nothing was entered. -/
theorem mono (h : Locked settings e book t) (hentries : ∀ s d, e'.HasEntry s d → e.HasEntry s d) :
    Locked settings e' book t where
  book := h.book
  rows s i hentry := h.rows s i (hentries s _ hentry)
  one s name name' := by
    rintro ⟨i, hi, hname⟩ ⟨j, hj, hname'⟩
    exact h.one s name name' ⟨i, hentries s _ hi, hname⟩ ⟨j, hentries s _ hj, hname'⟩

theorem rebook (h : Locked settings e book t)
    (hbook : ∃ b, book' = some b ∧ b.settings = settings ∧ b.Coherent t) :
    Locked settings e book' t := ⟨hbook, h.rows, h.one⟩

/-- A decision with a new id changes nothing of the ones before. -/
theorem decide (h : Locked settings e book t) {id : DecisionId} (hnew : t.get? id = none)
    (row : DecisionRow) : Locked settings e book (t.set id row) := by
  have hne : ∀ i, (t.get? i).isSome → i ≠ id := by
    rintro i hi rfl
    rw [hnew] at hi
    cases hi
  have hsome : ∀ i, (t.get? i).isSome → ((t.set id row).get? i).isSome := by
    intro i hi
    rwa [Dict.get?_set_ne _ _ (hne i hi).symm]
  obtain ⟨b, hb, hsettings, hcoherent⟩ := h.book
  refine ⟨⟨b, hb, hsettings, fun i known hknown => ?_⟩,
    fun s i hentry => hsome i (h.rows s i hentry), fun s name name' => ?_⟩
  · obtain ⟨hrow, hmeta⟩ := hcoherent i known hknown
    exact ⟨hsome i hrow, by rw [hmeta, metaOf_set (hne i hrow)]⟩
  · rintro ⟨i, hi, hname⟩ ⟨j, hj, hname'⟩
    rw [sleeveOf_set (hne i (h.rows s _ hi))] at hname
    rw [sleeveOf_set (hne j (h.rows s _ hj))] at hname'
    exact h.one s name name' ⟨i, hi, hname⟩ ⟨j, hj, hname'⟩

/-- A sleeve enters a symbol that no other sleeve has entered. -/
theorem enter (h : Locked settings e book t) (symbol : Symbol) (decisionId : Option DecisionId)
    (strategy : Option String)
    (hentries : ∀ s d, e'.HasEntry s d → e.HasEntry s d ∨ symbol = s ∧ decisionId = d)
    (hmade : ∀ i, decisionId = some i → (t.get? i).isSome ∧
      ∀ name, DecisionTable.sleeveOf t settings i = some name → strategy = some name)
    (howner : ∀ name, e.EnteredBy t settings symbol name → strategy = some name) :
    Locked settings e' book t := by
  refine ⟨h.book, fun s i hentry => ?_, fun s name name' => ?_⟩
  · rcases hentries s _ hentry with hold | ⟨-, hid⟩
    · exact h.rows s i hold
    · exact (hmade i hid).1
  · rintro ⟨i, hi, hname⟩ ⟨j, hj, hname'⟩
    rcases hentries s _ hi with hold | ⟨rfl, hid⟩
    · rcases hentries s _ hj with hold' | ⟨rfl, hid'⟩
      · exact h.one s name name' ⟨i, hold, hname⟩ ⟨j, hold', hname'⟩
      · have hstrategy := howner name ⟨i, hold, hname⟩
        exact Option.some.inj (hstrategy.symm.trans ((hmade j hid').2 _ hname'))
    · have hstrategy := (hmade i hid).2 _ hname
      rcases hentries _ _ hj with hold' | ⟨-, hid'⟩
      · exact Option.some.inj (hstrategy.symm.trans (howner name' ⟨j, hold', hname'⟩))
      · exact Option.some.inj (hstrategy.symm.trans ((hmade j hid').2 _ hname'))

end Locked

/-! ## A cycle -/

section Cycle

variable {c : ExchangeClient W}

theorem entries_reads {e e' : CcxtExecutor W} (h : Reads (ccxtExecutor c) e e') (s : Symbol)
    (d : Option DecisionId) (hentry : e'.HasEntry s d) : e.HasEntry s d :=
  h.preserves (I := fun u => ∀ s d, u.HasEntry s d → e.HasEntry s d)
    (fun u hu s d hd => hu s d ((CcxtExecutor.asides_getPositions c u).entries hd))
    (fun u hu s d hd => hu s d ((CcxtExecutor.asides_getCash c u).entries hd))
    (fun _ _ => id) s d hentry

theorem lots_reads {e e' : CcxtExecutor W} (h : Reads (ccxtExecutor c) e e') (s : Symbol)
    (d : Option DecisionId) (hlot : d ∈ e'.tracker.entryDecisionIds s) :
    d ∈ e.tracker.entryDecisionIds s :=
  h.preserves (I := fun u => ∀ s d, d ∈ u.tracker.entryDecisionIds s →
      d ∈ e.tracker.entryDecisionIds s)
    (fun u hu s d hd => hu s d ((CcxtExecutor.asides_getPositions c u).lots hd))
    (fun u hu s d hd => hu s d ((CcxtExecutor.asides_getCash c u).lots hd))
    (fun _ _ => id) s d hlot

variable {settings : SleevesSettings} {t : DecisionTable} {p : Pipeline} {input : CycleInput}
  {st : AgentState W}

/-- The entries that a plan to buy finds are lots that were open when the owner was read. -/
theorem SignalPlan.heldBy (plan : SignalPlan (ccxtExecutor c) p input st)
    (hbuy : input.signal.action = .buy) {name : String}
    (h : plan.after.EnteredBy t settings input.symbol name) :
    st.executor.HeldBy t settings input.symbol name := by
  obtain ⟨i, hentry, hname⟩ := h
  have hreads := plan.reads.positions.cash
  rw [plan.readCash] at hreads
  rcases hentry with hlot | hworks
  · exact ⟨i, lots_reads hreads _ _ hlot, hname⟩
  · -- No BUY of the symbol works while one is sent.
    obtain ⟨id, q, hget, hs, hside, hq, -⟩ :=
      (CcxtExecutor.mem_pendingEntryDecisionIds_iff _ _ _).mp hworks
    have hworking : OrderSide.buy ∈ plan.after.workingOrderSides input.symbol :=
      List.mem_map.mpr ⟨q, List.mem_filter.mpr
        ⟨(Dict.mem_values_iff _ _).mpr ⟨id, hget⟩, decide_eq_true ⟨hs, hq⟩⟩, hside⟩
    have hidle := plan.idle
    rw [if_pos hbuy] at hidle
    exact absurd hworking hidle

/-- **The owner.** What a cycle may buy is owned by no other sleeve, as long as no lot that a sleeve
bought is hidden. -/
theorem owner_of_entered (h : Locked settings st.executor st.book t)
    (hanswers : DecisionTable.Answers t input.metaRead)
    (hseen : ∀ name, (st.executor.swept c).HeldBy t settings input.symbol name →
      ¬ st.executor.Hidden c input.symbol)
    (hmay : p.MayDecide (Pipeline.sleeveOwnership (ccxtExecutor c) input st).1)
    (plan : SignalPlan (ccxtExecutor c) p input
      (Pipeline.sleeveOwnership (ccxtExecutor c) input st).2)
    (hbuy : input.signal.action = .buy) {name : String}
    (hentered : plan.after.EnteredBy t settings input.symbol name) : p.strategy = some name := by
  obtain ⟨b, hb, rfl, hcoherent⟩ := h.book
  obtain ⟨positions, hread⟩ : ∃ positions, (st.executor.getPositions c).1 = .ok positions :=
    ⟨_, rfl⟩
  have hown : Pipeline.sleeveOwnership (ccxtExecutor c) input st
      = ((b.ownership input.metaRead ((ccxtExecutor c).entryHooks (st.executor.getPositions c).2)
          positions input.symbol).1,
        { st with
          executor := (st.executor.getPositions c).2
          book := some (b.ownership input.metaRead
            ((ccxtExecutor c).entryHooks (st.executor.getPositions c).2) positions
              input.symbol).2 }) := by
    have hpair : (ccxtExecutor c).getPositions st.executor
        = (.ok positions, (st.executor.getPositions c).2) := by
      rw [← hread]
      rfl
    unfold Pipeline.sleeveOwnership
    rw [hb]
    dsimp only
    rw [hpair]
  have hheld := plan.heldBy hbuy hentered
  rw [hown] at hheld hmay
  obtain ⟨i, hlot, hname⟩ := hheld
  obtain ⟨o, ho, hlock⟩ := hmay
  -- The lot is reported, so the owner is read from the lots.
  have hshown : ∃ q ∈ positions, q.symbol = input.symbol ∧ 0 < q.quantity := by
    refine CcxtExecutor.reported_of_not_hidden c (hseen name ⟨i, hlot, hname⟩) ?_ hread
    intro hnone
    change some i ∈ ((st.executor.swept c).tracker.lotsOf input.symbol).map Fifo.Lot.tag at hlot
    rw [hnone] at hlot
    cases hlot
  have hback : ∀ s d, d ∈ (st.executor.getPositions c).2.tracker.entryDecisionIds s →
      st.executor.HasEntry s d := fun s d hd =>
    (CcxtExecutor.asides_getPositions c st.executor).entries (Or.inl hd)
  have hrows : ∀ j ∈ (((ccxtExecutor c).entryHooks (st.executor.getPositions c).2).entryDecisionIds
      input.symbol).filterMap id, (t.get? j).isSome := by
    intro j hj
    obtain ⟨d, hd, rfl⟩ := List.mem_filterMap.mp hj
    exact h.rows _ j (hback _ _ hd)
  obtain ⟨b', howner, -⟩ := hcoherent.ownership
    ((ccxtExecutor c).entryHooks (st.executor.getPositions c).2) hshown hrows
  rw [SleeveBook.ownership_answers hanswers b _ positions input.symbol ho, howner] at ho
  obtain rfl := Except.ok.inj ho
  rw [← hlock _ rfl]
  -- The first known lot is of the sleeve of every other one.
  generalize hids : (((ccxtExecutor c).entryHooks (st.executor.getPositions c).2).entryDecisionIds
    input.symbol).filterMap id = ids
  have hmem : i ∈ ids := hids ▸ List.mem_filterMap.mpr ⟨some i, hlot, rfl⟩
  show some ((DecisionTable.firstKnown t b.settings ids).getD _) = some name
  rw [DecisionTable.firstKnown_eq]
  cases hfirst : ids.findSome? (DecisionTable.sleeveOf t b.settings) with
  | none =>
      rw [List.findSome?_eq_none_iff.mp hfirst i hmem] at hname
      cases hname
  | some first =>
      obtain ⟨j, hj, hjname⟩ := List.exists_of_findSome?_eq_some hfirst
      rw [← hids] at hj
      obtain ⟨d, hd, rfl⟩ := List.mem_filterMap.mp hj
      exact congrArg some (h.one input.symbol first name ⟨j, hback _ _ hd, hjname⟩
        ⟨i, hback _ _ hlot, hname⟩)

theorem marked_book (ex : Executor (CcxtExecutor W)) (input : CycleInput) (st : AgentState W) :
    (input.marked ex st).book = st.book := by
  unfold CycleInput.marked
  split
  · rfl
  · split
    · rfl
    · unfold Pipeline.markPositions
      split_ifs <;> rfl

/-- What the executor asks the sleeves about are decisions with rows. -/
theorem asksFor_locked (h : Locked settings st.executor st.book t) :
    Pipeline.AsksFor (ccxtExecutor c) (fun ids => ∀ i ∈ ids, (t.get? i).isSome) st.executor := by
  intro e hreads ids hids i hi
  obtain ⟨s, rfl | rfl⟩ := hids
  · obtain ⟨d, hd, rfl⟩ := List.mem_filterMap.mp hi
    exact h.rows s i (entries_reads hreads s _ (Or.inl hd))
  · obtain ⟨d, hd, rfl⟩ := List.mem_filterMap.mp hi
    exact h.rows s i (entries_reads hreads s _ (Or.inr hd))

theorem locked_marked (h : Locked settings st.executor st.book t) (input : CycleInput) :
    Locked settings (input.marked (ccxtExecutor c) st).executor
      (input.marked (ccxtExecutor c) st).book t := by
  have hentries : ∀ s d, (input.marked (ccxtExecutor c) st).executor.HasEntry s d →
      st.executor.HasEntry s d :=
    marked_preserves (I := fun e => ∀ s d, e.HasEntry s d → st.executor.HasEntry s d)
      (fun e symbol price _ he s d hd =>
        he s d ((CcxtExecutor.asides_updatePrice c e symbol price).entries hd))
      input st fun _ _ => id
  rw [marked_book]
  exact h.mono hentries

/-- A new decision, stored or not, changes nothing of the ones before. -/
theorem locked_storeDecision {st : SleeveTrader W} {e : CcxtExecutor W} {book : Option SleeveBook}
    (h : Locked settings e book st.decisions) (now : Time)
    (hnew : ∀ id, input.decisionId = some id → st.decisions.get? id = none) :
    Locked settings e book (st.storeDecision c now (.cycle p input)) := by
  unfold SleeveTrader.storeDecision
  dsimp only
  split
  · rename_i id _ hid
    exact h.decide (hnew id hid) _
  · exact h

theorem sleeveOf_storeDecision (c : ExchangeClient W) {st : SleeveTrader W} (now : Time)
    (hnew : ∀ id, input.decisionId = some id → st.decisions.get? id = none) {i : DecisionId}
    (hrow : (st.decisions.get? i).isSome) :
    DecisionTable.sleeveOf (st.storeDecision c now (.cycle p input)) settings i
      = DecisionTable.sleeveOf st.decisions settings i := by
  unfold SleeveTrader.storeDecision
  dsimp only
  split
  · rename_i id _ hid
    refine sleeveOf_set ?_ _ settings
    rintro rfl
    rw [hnew i hid] at hrow
    cases hrow
  · rfl

/-- The decision behind the order of a signal is stored under the sleeve of the pipeline, unless
that failed. -/
theorem storeDecision_signal {st : SleeveTrader W} {signal : TradeSignal} (now : Time)
    (hsignal : (p.run (ccxtExecutor c) input st.agent).1.signal = some signal) {id : DecisionId}
    (hid : input.decisionId = some id) :
    st.storeDecision c now (.cycle p input) = st.decisions.set id ⟨p.strategy, now⟩ := by
  unfold SleeveTrader.storeDecision
  dsimp only
  rw [hsignal, hid]

/-- The sleeve of a decision that was just stored. -/
theorem sleeveOf_set_self (t : DecisionTable) (id : DecisionId) (strategy : Option String)
    (now : Time) {name : String}
    (h : DecisionTable.sleeveOf (t.set id ⟨strategy, now⟩) settings id = some name) :
    strategy = some name := by
  unfold DecisionTable.sleeveOf DecisionTable.metaOf at h
  rw [Dict.get?_set_self, Option.map_some, Option.getD_some] at h
  cases strategy with
  | none => cases h
  | some own =>
      simp only [DecisionRow.meta] at h
      split_ifs at h
      exact h

/-- **A cycle** keeps the lock. -/
theorem locked_cycle {st : SleeveTrader W} (now : Time)
    (h : Locked settings st.agent.executor st.agent.book st.decisions)
    (hstored : SleeveTrader.Stored (.agent (.cycle p input) now) st)
    (hseen : SleeveTrader.Unhidden c settings (.agent (.cycle p input) now) st) :
    Locked settings (p.run (ccxtExecutor c) input st.agent).2.executor
      (p.run (ccxtExecutor c) input st.agent).2.book
      (st.storeDecision c now (.cycle p input)) := by
  obtain ⟨hanswers, hnew⟩ := hstored
  have hmarked := locked_marked (c := c) h input
  have hbook := Pipeline.run_keepsBook (ccxtExecutor c) p
    (SleeveBook.keepsBook_coherent hanswers settings) (asksFor_locked hmarked) h.book
  have hsent : ∀ {id}, (p.run (ccxtExecutor c) input st.agent).1.signal = some input.ownSignal →
      input.decisionId = some id → st.storeDecision c now (.cycle p input)
        = st.decisions.set id ⟨p.strategy, now⟩ :=
    fun hsignal hid => storeDecision_signal now hsignal hid
  have hlocked := Pipeline.run_locked (ccxtExecutor c) p input st.agent
  generalize hr : p.run (ccxtExecutor c) input st.agent = r at hlocked hbook hsent ⊢
  cases hlocked with
  | quiet reads =>
      exact locked_storeDecision ((hmarked.mono (entries_reads reads)).rebook hbook) now hnew
  | close e req reads closes sent =>
      rw [sent]
      refine locked_storeDecision ((hmarked.mono fun s d hd => ?_).rebook hbook) now hnew
      exact entries_reads reads s d
        (CcxtExecutor.entries_placeOrder_sell c e input.stamp closes.sell hd)
  | signal may plan told =>
      have hreads := plan.reads.positions.cash
      rw [plan.readCash] at hreads
      have hafter := (hmarked.mono (entries_reads
        ((Pipeline.quiet_sleeveOwnership (ccxtExecutor c) input _).reads.trans hreads))).rebook
          hbook
      have hdecided := locked_storeDecision (c := c) (p := p) hafter now hnew
      rw [told.executor]
      by_cases hbuy : input.signal.action = .buy
      · refine hdecided.enter input.symbol input.decisionId p.strategy (fun s d hd => ?_)
          (fun i hi => ?_) fun name hentered => ?_
        · rcases CcxtExecutor.entries_placeOrder c _ _ _ hd with hold | ⟨-, hs, hid⟩
          · exact .inl hold
          · exact .inr ⟨hs, hid⟩
        · rw [hsent told.signal hi]
          exact ⟨by rw [Dict.get?_set_self]; rfl, fun name => sleeveOf_set_self _ _ _ _⟩
        · -- The entries that are there are of decisions that were there.
          refine owner_of_entered hmarked hanswers (hseen hbuy) may plan hbuy ?_
          obtain ⟨i, hi, hname⟩ := hentered
          rw [sleeveOf_storeDecision c now hnew (hafter.rows _ i hi)] at hname
          exact ⟨i, hi, hname⟩
      · refine hdecided.mono fun s d hd =>
          CcxtExecutor.entries_placeOrder_sell c _ input.stamp ?_ hd
        exact if_neg hbuy

end Cycle

/-! ## Runs -/

section Runs

variable {c : ExchangeClient W} {settings : SleevesSettings} {st : SleeveTrader W}

theorem locked_closeAll (h : Locked settings st.agent.executor st.agent.book st.decisions)
    (p : Pipeline) {read : MetaRead} (hanswers : DecisionTable.Answers st.decisions read)
    (stamps : ℕ → Stamp) (outcomeNow : Time) :
    let after := (p.closeAllPositions (ccxtExecutor c) read stamps outcomeNow st.agent).2
    Locked settings after.executor after.book st.decisions := by
  have hentries := Pipeline.closeAllPositions_preserves (ccxtExecutor c) p
    (I := fun e => ∀ s d, e.HasEntry s d → st.agent.executor.HasEntry s d)
    (fun e he s d hd => he s d ((CcxtExecutor.asides_getPositions c e).entries hd))
    (fun e req stamp hclose he s d hd => he s d
      (CcxtExecutor.entries_placeOrder_sell c e stamp hclose.sell hd))
    read stamps outcomeNow st.agent fun _ _ => id
  have hbook := Pipeline.closeAllPositions_keepsBook (ccxtExecutor c) p
    (SleeveBook.keepsBook_coherent hanswers settings) stamps outcomeNow (asksFor_locked h) h.book
  exact (h.mono hentries).rebook hbook

/-- **A restart** keeps the lock when it brings back nothing that was let go, or one sleeve's. -/
theorem locked_restart (h : Locked settings st.agent.executor st.agent.book st.decisions)
    {r : TraderStart} (hstored : SleeveTrader.Stored (.restart r) st)
    (hback : SleeveTrader.Unhidden c settings (.restart r) st) :
    Locked settings (SleeveTrader.restarted c r st.agent.executor)
      (st.agent.book.map (fun b => ⟨b.settings, Dict.empty, r.engines, r.allocation⟩))
      st.decisions := by
  obtain ⟨b, hb, hsettings, -⟩ := h.book
  have hloaded : ∀ s d, (SleeveTrader.restarted c r st.agent.executor).HasEntry s d →
      (SleeveTrader.loaded r st.agent.executor).HasEntry s d :=
    fun s d => CcxtExecutor.entries_rehydrateVenueExecutor c
  have hbought : ∀ s name, (SleeveTrader.restarted c r st.agent.executor).EnteredBy st.decisions
      settings s name → OrderTable.BoughtBy r.orders st.decisions settings s name := by
    rintro s name ⟨i, hi, hname⟩
    obtain ⟨row, hrow, hs, hside, hid⟩ := CcxtExecutor.entries_reloaded rfl (hloaded s _ hi)
    exact ⟨row, hrow, hs, hside, i, hid, hname⟩
  refine ⟨⟨_, congrArg (Option.map _) hb, hsettings, fun id known hknown => by cases hknown⟩,
    fun s i hi => ?_, fun s name name' hname hname' => ?_⟩
  · obtain ⟨row, hrow, -, -, hid⟩ := CcxtExecutor.entries_reloaded rfl (hloaded s _ hi)
    exact hstored row hrow i hid
  · rcases hback s with hold | hone
    · obtain ⟨i, hi, hi'⟩ := hname
      obtain ⟨j, hj, hj'⟩ := hname'
      exact h.one s name name' ⟨i, hold i (hloaded s _ hi), hi'⟩
        ⟨j, hold j (hloaded s _ hj), hj'⟩
    · exact hone name name' (hbought s name hname) (hbought s name' hname')

/-- **One step** keeps the lock. -/
theorem locked_step (x : TraderStep W)
    (h : Locked settings st.agent.executor st.agent.book st.decisions)
    (hstored : SleeveTrader.Stored x st) (hseen : SleeveTrader.Unhidden c settings x st) :
    Locked settings (st.step c x).agent.executor (st.step c x).agent.book
      (st.step c x).decisions := by
  cases x with
  | agent i now =>
      cases i with
      | venue move => exact h.mono fun s d => id
      | cycle p input => exact locked_cycle now h hstored hseen
      | closeAll p read stamps outcomeNow => exact locked_closeAll h p hstored stamps outcomeNow
      | reconcile now =>
          exact h.mono fun s d => CcxtExecutor.entries_reconcileOpenOrders c now st.agent.executor
      | confirm id =>
          exact h.mono fun s d => CcxtExecutor.entries_confirmReconciled st.agent.executor id
  | cancel id => exact h.mono fun s d => CcxtExecutor.entries_cancelOrder c st.agent.executor id
  | positions => exact h.mono fun s d => (CcxtExecutor.asides_getPositions c _).entries
  | cash => exact h.mono fun s d => (CcxtExecutor.asides_getCash c _).entries
  | mark symbol price =>
      exact h.mono fun s d => (CcxtExecutor.asides_updatePrice c _ symbol price).entries
  | setup agentEngine engines allocation =>
      obtain ⟨b, hb, hsettings, hcoherent⟩ := h.book
      exact h.rebook ⟨_, congrArg (Option.map _) hb, hsettings, hcoherent⟩
  | restart r => exact locked_restart h hstored hseen

/-- **The symbol lock.** In every run of sleeves over one ccxt executor in which no cycle that may
buy reads the owner while a sleeve's lot of its symbol is hidden, and no restart brings back entries
that were let go next to those of another sleeve, all open lots of a symbol whose entry decisions
are known are of one sleeve in every state reached. -/
theorem symbol_lock (c : ExchangeClient W) (w : W) (quote : String) (orders : VenueOrderSettings)
    (settings : SleevesSettings) (agentEngine : RiskEngine) (engines : Dict String RiskEngine)
    (decisions : DecisionTable) (steps : List (TraderStep W)) :
    let start := SleeveTrader.start (CcxtExecutor.create w quote orders) settings agentEngine
      engines decisions
    EachStep (SleeveTrader.step c) SleeveTrader.Stored steps start →
    EachStep (SleeveTrader.step c) (SleeveTrader.Unhidden c settings) steps start →
    let st := Lib.run (SleeveTrader.step c) steps start
    ∀ s name name', st.agent.executor.HeldBy st.decisions settings s name →
      st.agent.executor.HeldBy st.decisions settings s name' → name = name' := by
  intro start hstored hseen st s name name' hname hname'
  have hstart : Locked settings start.agent.executor start.agent.book start.decisions := by
    have hnone : ∀ s d, ¬ start.agent.executor.HasEntry s d := by
      rintro s d (hlot | hworks) <;> cases ‹_›
    refine ⟨⟨_, rfl, rfl, fun id known hknown => by cases hknown⟩,
      fun s i hi => absurd hi (hnone s _), ?_⟩
    rintro s name name' ⟨i, hi, -⟩
    exact absurd hi (hnone s _)
  have hlocked := run_preserves
    (I := fun st => Locked settings st.agent.executor st.agent.book st.decisions)
    (fun x st hx h => locked_step x h hx.1 hx.2) steps (hstored.and hseen) hstart
  exact hlocked.one s name name' hname.entered hname'.entered

end Runs

/-! ## Two sleeves -/

def twoSleeves : SleevesSettings := ⟨⟨"day", none, none⟩, [⟨"swing", none, none⟩], 1 / 5⟩

/-- The answer is to buy `BTC/USDC`. -/
def buyInput (id : DecisionId) (t : DecisionTable) : CycleInput :=
  { flatCycle 100 bracketBuy with
    metaRead := DecisionTable.getDecisionStrategies t
    decisionId := some id }

def sleeveBuys (name : String) (id : DecisionId) (t : DecisionTable) : AgentInput W :=
  .cycle ⟨some name, false, false⟩ (buyInput id t)

/-- The agent of both sleeves, at a venue that fills its orders at once. -/
def twoSleevesStart : SleeveTrader Script :=
  SleeveTrader.start (CcxtExecutor.create
      { Script.empty with
        creates := [.ok (Script.closed "1" 1 100), .ok (Script.closed "2" 1 100)] }
      "USDC" VenueOrderSettings.default)
    twoSleeves (RiskEngine.create RiskSettings.default) Dict.empty Dict.empty

theorem stored_sleeveBuys {st : SleeveTrader W} (name : String) {id : DecisionId} (now : Time)
    (hnew : st.decisions.get? id = none) :
    SleeveTrader.Stored (.agent (sleeveBuys name id st.decisions) now) st := by
  refine ⟨fun ids => .inl rfl, fun i hi => ?_⟩
  obtain rfl := Option.some.inj hi
  exact hnew

/-- At a venue that reports no balances the second sleeve is locked out. -/
theorem symbol_lock_lockedOut :
    let first := SleeveTrader.step Script.client (.agent (sleeveBuys "day" 1 Dict.empty) 1)
      twoSleevesStart
    let steps : List (TraderStep Script) := [.agent (sleeveBuys "day" 1 Dict.empty) 1,
      .agent (sleeveBuys "swing" 2 first.decisions) 2]
    let st := Lib.run (SleeveTrader.step Script.client) steps twoSleevesStart
    st.agent.executor.HeldBy st.decisions twoSleeves "BTC/USDC" "day" ∧
      ∀ s name name', st.agent.executor.HeldBy st.decisions twoSleeves s name →
        st.agent.executor.HeldBy st.decisions twoSleeves s name' → name = name' := by
  intro first steps st
  have hstored : EachStep (SleeveTrader.step Script.client) SleeveTrader.Stored steps
      twoSleevesStart :=
    ⟨stored_sleeveBuys "day" 1 rfl, stored_sleeveBuys "swing" 2 (by decide +kernel), trivial⟩
  have hseen : EachStep (SleeveTrader.step Script.client)
      (SleeveTrader.Unhidden Script.client twoSleeves) steps twoSleevesStart := by
    refine ⟨fun _ name hheld => ?_, fun _ name _ => ?_, trivial⟩
    · obtain ⟨i, hlot, -⟩ := hheld
      have hnone : ((twoSleevesStart.asked Script.client (buyInput 1 Dict.empty)).swept
          Script.client).tracker.entryDecisionIds "BTC/USDC" = [] := by decide +kernel
      exact absurd (hnone ▸ hlot) List.not_mem_nil
    · unfold CcxtExecutor.Hidden
      decide +kernel
  refine ⟨⟨1, by decide +kernel, by decide +kernel⟩, ?_⟩
  exact symbol_lock Script.client _ "USDC" VenueOrderSettings.default twoSleeves
    (RiskEngine.create RiskSettings.default) Dict.empty Dict.empty steps hstored hseen

/-- A venue that reports a balance of 0 for the coin. -/
def emptyWallet : ExchangeClient Script :=
  { Script.client with fetchBalance := fun w => (.ok (some (Dict.empty.set "BTC" (some 0))), w) }

/-- The second sleeve buys what the first one holds, because the venue reports nothing of it. -/
theorem two_sleeves_hold_one_symbol :
    let first := SleeveTrader.step emptyWallet (.agent (sleeveBuys "day" 1 Dict.empty) 1)
      twoSleevesStart
    let steps : List (TraderStep Script) := [.agent (sleeveBuys "day" 1 Dict.empty) 1,
      .agent (sleeveBuys "swing" 2 first.decisions) 2]
    let st := Lib.run (SleeveTrader.step emptyWallet) steps twoSleevesStart
    EachStep (SleeveTrader.step emptyWallet) SleeveTrader.Stored steps twoSleevesStart ∧
      st.agent.executor.HeldBy st.decisions twoSleeves "BTC/USDC" "day" ∧
      st.agent.executor.HeldBy st.decisions twoSleeves "BTC/USDC" "swing" := by
  refine ⟨⟨?_, ?_, trivial⟩, ⟨1, ?_, ?_⟩, ⟨2, ?_, ?_⟩⟩
  · exact stored_sleeveBuys "day" 1 rfl
  · exact stored_sleeveBuys "swing" 2 (by decide +kernel)
  all_goals decide +kernel

end SmartyTrader
