import SmartyTrader.Execution.Entries
import SmartyTrader.Execution.ScriptedVenue

set_option autoImplicit false

/-! # The limit on open positions over venue runs

The gate counts the positions of the book it reads. A BUY that still works at the venue is no
position, and neither is a holding the venue does not report, so both can open one symbol more
than the gate counted. The exposed symbols are the open ones and those with a BUY still working:
nothing but the placement of a BUY adds to them, and in runs whose gate counts all of them the
limit holds in every state (`max_open_positions`).
-/

namespace SmartyTrader

open Lib

variable {W : Type}

/-! ## Exposed symbols -/

/-- The symbol a fill on this side may open. -/
def opens (side : OrderSide) (s : Symbol) : Finset Symbol := if side = .buy then {s} else ∅

theorem mem_opens_buy (s : Symbol) : s ∈ opens .buy s := by simp [opens]

namespace CcxtExecutor

/-- Symbols of BUY orders that still work. -/
def buying (e : CcxtExecutor W) : List Symbol :=
  (e.openOrders.values.filter (fun p => p.side = .buy ∧ p.resolved = none)).map
    PendingOrder.symbol

/-- The symbols that are open in the ledger or have a BUY still working. -/
def exposed (e : CcxtExecutor W) : Finset Symbol :=
  e.tracker.symbols.toFinset ∪ e.buying.toFinset

theorem mem_exposed_iff (e : CcxtExecutor W) (s : Symbol) :
    s ∈ e.exposed ↔ s ∈ e.tracker.symbols ∨ s ∈ e.buying := by
  simp [exposed]

theorem card_symbols_le (e : CcxtExecutor W) : e.tracker.symbols.length ≤ e.exposed.card := by
  rw [← List.toFinset_card_of_nodup e.tracker.nodup_symbols]
  exact Finset.card_le_card Finset.subset_union_left

/-- The exposed symbols are those with an entry. -/
theorem mem_exposed_iff_entry (e : CcxtExecutor W) (s : Symbol) :
    s ∈ e.exposed ↔ ∃ d, e.HasEntry s d := by
  have hopen : s ∈ e.tracker.symbols ↔ ∃ d, d ∈ e.tracker.entryDecisionIds s := by
    rw [PositionTracker.mem_symbols_iff, ← List.length_pos_iff, List.length_pos_iff_exists_mem]
    simp [PositionTracker.entryDecisionIds]
  have hbuying : s ∈ e.buying ↔ ∃ d, d ∈ e.pendingEntryDecisionIds s := by
    unfold buying pendingEntryDecisionIds
    simp only [List.mem_map, List.mem_filter, decide_eq_true_eq]
    constructor
    · rintro ⟨p, ⟨hp, hside, hworks⟩, hs⟩
      exact ⟨p.decisionId, p, ⟨hp, hs, hside, hworks⟩, rfl⟩
    · rintro ⟨d, p, ⟨hp, hs, hside, hworks⟩, -⟩
      exact ⟨p, ⟨hp, hside, hworks⟩, hs⟩
  rw [mem_exposed_iff, hopen, hbuying]
  exact exists_or.symm

/-- A change that makes no entry exposes nothing new. -/
theorem exposed_mono {e e' : CcxtExecutor W} (h : ∀ s d, e'.HasEntry s d → e.HasEntry s d) :
    e'.exposed ⊆ e.exposed := by
  intro s hs
  obtain ⟨d, hd⟩ := (e'.mem_exposed_iff_entry s).mp hs
  exact (e.mem_exposed_iff_entry s).mpr ⟨d, h s d hd⟩

theorem Asides.exposed {c : ExchangeClient W} {e e' : CcxtExecutor W} (h : Asides c e e') :
    e'.exposed ⊆ e.exposed :=
  exposed_mono fun _ _ => h.entries

section Calls

variable (c : ExchangeClient W)

/-- **A placement** exposes at most its own symbol, and only a BUY does. -/
theorem exposed_placeOrder (e : CcxtExecutor W) (req : OrderRequest) (stamp : Stamp) :
    (e.placeOrder c req stamp).2.exposed ⊆ e.exposed ∪ opens req.side req.symbol := by
  intro s hs
  obtain ⟨d, hd⟩ := (mem_exposed_iff_entry _ s).mp hs
  rcases entries_placeOrder c e req stamp hd with hold | ⟨hside, rfl, -⟩
  · exact Finset.mem_union_left _ ((e.mem_exposed_iff_entry s).mpr ⟨d, hold⟩)
  · rw [hside]
    exact Finset.mem_union_right _ (mem_opens_buy _)

theorem exposed_placeOrder_sell (e : CcxtExecutor W) {req : OrderRequest} (stamp : Stamp)
    (h : req.side = .sell) : (e.placeOrder c req stamp).2.exposed ⊆ e.exposed :=
  exposed_mono fun _ _ => entries_placeOrder_sell c e stamp h

theorem tracker_getCash (e : CcxtExecutor W) : (e.getCash c).2.tracker = e.tracker := by
  unfold getCash
  split <;> rfl

end Calls

end CcxtExecutor

/-! ## The gate -/

/-- An approved BUY passed the count of positions. -/
theorem count_of_approved {e : RiskEngine} {signal : TradeSignal} {book : PortfolioState}
    {planned price : Option ℚ} {now later : Time} (hbuy : signal.action = .buy)
    (h : (e.evaluate signal book planned price now later).1 = .approved) :
    signal.symbol ∈ book.positions.map Position.symbol ∨
      (book.positions.length : ℤ) < e.settings.maxOpenPositions := by
  unfold RiskEngine.evaluate at h
  rw [hbuy] at h
  have hcount := (RiskResult.first_eq_approved_iff _).mp h (e.checkMaxPositions signal book)
    (by simp)
  unfold RiskEngine.checkMaxPositions at hcount
  split_ifs at hcount with hc
  rw [not_and_or, not_not, not_le] at hc
  exact hc

section Gate

variable {c : ExchangeClient W} {p : Pipeline} {input : CycleInput} {st : AgentState W}

/-- The book the signal is gated on lists every other exposed symbol, or there is room for one
symbol more than those exposed. -/
def SignalPlan.Counts (plan : SignalPlan (ccxtExecutor c) p input st) (limit : ℤ) : Prop :=
  (∀ s ∈ plan.after.exposed, s ≠ input.symbol → s ∈ plan.book.positions.map Position.symbol) ∨
    ((plan.after.exposed ∪ {input.symbol}).card : ℤ) ≤ limit

/-- The book of a plan lists open symbols only. -/
theorem SignalPlan.book_open (plan : SignalPlan (ccxtExecutor c) p input st) {s : Symbol}
    (h : s ∈ plan.book.positions.map Position.symbol) : s ∈ plan.after.exposed := by
  obtain ⟨q, hq, rfl⟩ := List.mem_map.mp h
  have hmem : q ∈ plan.positions := by
    rcases plan.ownBook with ⟨hb, -⟩ | ⟨-, hb, -⟩
    · rw [hb] at hq
      exact hq
    · exact (hb q hq).1
  have hopen := (CcxtExecutor.long_of_getPositions plan.readPositions hmem).2
  have hcash : plan.after.tracker = (CcxtExecutor.getPositions c plan.before).2.tracker := by
    rw [← (Prod.mk.inj plan.readCash).2]
    exact CcxtExecutor.tracker_getCash c _
  refine (CcxtExecutor.mem_exposed_iff _ _).mpr (Or.inl ?_)
  rw [hcash]
  exact hopen

/-- What a plan reads exposes nothing new. -/
theorem SignalPlan.exposed_after (plan : SignalPlan (ccxtExecutor c) p input st) :
    plan.after.exposed ⊆ st.executor.exposed := by
  have hreads := plan.reads.positions.cash
  rw [plan.readCash] at hreads
  exact hreads.preserves (I := fun e => e.exposed ⊆ st.executor.exposed)
    (fun e he => (CcxtExecutor.asides_getPositions c e).exposed.trans he)
    (fun e he => (CcxtExecutor.asides_getCash c e).exposed.trans he) (Finset.Subset.refl _)

/-- A gate that counts what is exposed leaves room for the symbol of the BUY. -/
theorem SignalPlan.room (plan : SignalPlan (ccxtExecutor c) p input st) {limit : ℤ}
    (hbuy : input.signal.action = .buy)
    (hlimit : (PipelineState.riskEngine st p).settings.maxOpenPositions ≤ limit)
    (hnow : (plan.after.exposed.card : ℤ) ≤ limit) (hcounts : plan.Counts limit) :
    ((plan.after.exposed ∪ {input.symbol}).card : ℤ) ≤ limit := by
  rcases hcounts with hlisted | hroom
  · rcases count_of_approved (by simpa using hbuy) plan.approved with hheld | hcount
    · -- The symbol is held already, so nothing is added.
      have hopen : {input.symbol} ⊆ plan.after.exposed :=
        Finset.singleton_subset_iff.mpr (plan.book_open hheld)
      rw [Finset.union_eq_left.mpr hopen]
      exact hnow
    · have hsub : plan.after.exposed ∪ {input.symbol}
          ⊆ insert input.symbol (plan.book.positions.map Position.symbol).toFinset := by
        intro s hs
        by_cases hsym : s = input.symbol
        · rw [hsym]
          exact Finset.mem_insert_self _ _
        · rw [Finset.mem_union, Finset.mem_singleton] at hs
          exact Finset.mem_insert_of_mem (List.mem_toFinset.mpr
            (hlisted s (hs.resolve_right hsym) hsym))
      have hcard := (Finset.card_le_card hsub).trans (Finset.card_insert_le _ _)
      have hlist := List.toFinset_card_le (plan.book.positions.map Position.symbol)
      rw [List.length_map] at hlist
      omega
  · exact hroom

end Gate

/-! ## Runs -/

/-- The limit of the engine that gates the cycle: the settings do not change. -/
def LimitedTo (limit : ℤ) : AgentInput W → AgentState W → Prop
  | .cycle p _, st => (st.riskEngine p).settings.maxOpenPositions ≤ limit
  | _, _ => True

/-- A BUY is gated on a book that counts what is exposed. -/
def CountsExposure (c : ExchangeClient W) (limit : ℤ) : AgentInput W → AgentState W → Prop
  | .cycle p input, st => input.signal.action = .buy →
      ∀ plan : SignalPlan (ccxtExecutor c) p input (input.marked (ccxtExecutor c) st),
        plan.Counts limit
  | _, _ => True

variable (c : ExchangeClient W)

/-- A step keeps the exposed symbols within the limit. -/
theorem exposed_agentStep (limit : ℤ) (i : AgentInput W) (st : AgentState W)
    (hlimit : LimitedTo limit i st) (hcounts : CountsExposure c limit i st)
    (h : (st.executor.exposed.card : ℤ) ≤ limit) :
    ((agentStep c i st).executor.exposed.card : ℤ) ≤ limit := by
  have hshrink : ∀ {e e' : CcxtExecutor W}, e'.exposed ⊆ e.exposed →
      (e.exposed.card : ℤ) ≤ limit → (e'.exposed.card : ℤ) ≤ limit := by
    intro e e' hsub hcard
    have := Finset.card_le_card hsub
    omega
  have hclose : ∀ e req stamp, Closes (ccxtExecutor c) e req → (e.exposed.card : ℤ) ≤ limit →
      (((ccxtExecutor c).placeOrder e req stamp).2.exposed.card : ℤ) ≤ limit :=
    fun e req stamp hc => hshrink (CcxtExecutor.exposed_placeOrder_sell c e stamp hc.sell)
  have hpos : ∀ e : CcxtExecutor W, (e.exposed.card : ℤ) ≤ limit →
      (((ccxtExecutor c).getPositions e).2.exposed.card : ℤ) ≤ limit :=
    fun e => hshrink (CcxtExecutor.asides_getPositions c e).exposed
  cases i with
  | venue move => exact h
  | reconcile now =>
      have hentries := fun s d =>
        CcxtExecutor.entries_reconcileOpenOrders c now st.executor (s := s) (d := d)
      exact hshrink (CcxtExecutor.exposed_mono hentries) h
  | confirm id =>
      have hentries := fun s d =>
        CcxtExecutor.entries_confirmReconciled st.executor id (s := s) (d := d)
      exact hshrink (CcxtExecutor.exposed_mono hentries) h
  | closeAll p read stamps outcomeNow =>
      exact Pipeline.closeAllPositions_preserves (ccxtExecutor c) p hpos hclose read stamps
        outcomeNow st h
  | cycle p input =>
      refine Pipeline.run_preserves (ccxtExecutor c) p hpos
        (fun e => hshrink (CcxtExecutor.asides_getCash c e).exposed)
        (fun e s price _ => hshrink (CcxtExecutor.asides_updatePrice c e s price).exposed)
        hclose (fun plan hplan => ?_) h
      by_cases hbuy : input.signal.action = .buy
      · have hroom := plan.room hbuy (by rw [marked_riskEngine]; exact hlimit) hplan
          (hcounts hbuy plan)
        have hplaced := CcxtExecutor.exposed_placeOrder c plan.after plan.request input.stamp
        have hside : opens plan.request.side plan.request.symbol ⊆ {input.symbol} := by
          unfold opens
          split_ifs
          · exact Finset.Subset.refl _
          · exact Finset.empty_subset _
        have hcard := Finset.card_le_card
          (hplaced.trans (Finset.union_subset_union_right hside))
        show ((CcxtExecutor.placeOrder c plan.after plan.request input.stamp).2.exposed.card : ℤ)
          ≤ limit
        omega
      · refine hshrink (CcxtExecutor.exposed_placeOrder_sell c _ input.stamp ?_) hplan
        show (if input.signal.action = .buy then OrderSide.buy else .sell) = .sell
        rw [if_neg hbuy]

/-- **Max open positions.** In every run with constant settings in which every BUY is gated on
a book that counts the exposed symbols, the number of open symbols stays within the limit in
every state reached, when the exposed symbols are within it at the start. -/
theorem max_open_positions (limit : ℤ) (inputs : List (AgentInput W)) (st : AgentState W)
    (hstart : (st.executor.exposed.card : ℤ) ≤ limit)
    (hlimit : AllSteps c (LimitedTo limit) inputs st)
    (hcounts : AllSteps c (CountsExposure c limit) inputs st) (before after : List (AgentInput W))
    (hinputs : inputs = before ++ after) :
    ((agentRun c before st).executor.tracker.symbols.length : ℤ) ≤ limit := by
  subst hinputs
  have hboth : AllSteps c (fun i st => LimitedTo limit i st ∧ CountsExposure c limit i st)
      before st := hlimit.left.and hcounts.left
  have hrun : ((agentRun c before st).executor.exposed.card : ℤ) ≤ limit := run_preserves
    (I := fun st => (st.executor.exposed.card : ℤ) ≤ limit)
    (fun i st hi => exposed_agentStep c limit i st hi.1 hi.2) before hboth hstart
  have hopen := CcxtExecutor.card_symbols_le (agentRun c before st).executor
  omega

/-! ## Two BUYs that rest at the venue -/

/-- Room for one open position. -/
def oneSlot : RiskSettings := { RiskSettings.default with maxOpenPositions := 1 }

/-- An agent with room for one position, at a venue that leaves two orders open and fills both
of them later. -/
def restingStart : AgentState Script where
  executor := CcxtExecutor.create
    { Script.empty with
      creates := [.ok (Script.ack "1"), .ok (Script.ack "2")]
      fetches := [.ok (Script.working "1"), .ok (Script.working "2"),
        .ok (Script.closed "1" 1 100), .ok (Script.closed "2" (5501 / 5000) 100)] }
    "USDC" VenueOrderSettings.default
  agentEngine := RiskEngine.create oneSlot
  book := none
  lastDecisionAt := Dict.empty

/-- The second BUY passes the gate while the first one rests, and both fill. -/
theorem two_open_in_one_slot :
    restingStart.executor.tracker.symbols = [] ∧
      restingStart.agentEngine.settings.maxOpenPositions = 1 ∧
      (agentRun Script.client [buyCycle "BTC/USDC", buyCycle "ETH/USDC", .reconcile 0]
        restingStart).executor.tracker.symbols = ["BTC/USDC", "ETH/USDC"] := by
  decide +kernel

/-- With one BUY the limit holds. -/
theorem max_open_positions_oneBuy :
    ((agentRun Script.client [buyCycle "BTC/USDC", .reconcile 0]
      restingStart).executor.tracker.symbols.length : ℤ) ≤ 1 := by
  refine max_open_positions Script.client 1 [buyCycle "BTC/USDC", .reconcile 0] restingStart
    (by decide +kernel) ⟨le_refl (1 : ℤ), trivial, trivial⟩ ⟨?_, trivial, trivial⟩
    [buyCycle "BTC/USDC", .reconcile 0] [] rfl
  intro _ plan
  right
  have hmark := CcxtExecutor.asides_updatePrice Script.client restingStart.executor "BTC/USDC" 100
  have hnone : plan.after.exposed ⊆ ∅ :=
    plan.exposed_after.trans (hmark.exposed.trans (by decide +kernel))
  rw [Finset.subset_empty.mp hnone]
  decide

end SmartyTrader
