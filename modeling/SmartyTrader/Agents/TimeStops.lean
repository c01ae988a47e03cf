import SmartyTrader.Agents.SleeveAgent
import SmartyTrader.Core.SleeveOwners

set_option autoImplicit false

/-! # Time stops

The owner of a position and the time it was opened are read from the open lots and the stored
decisions in every cycle. In every run, restarts included, each open lot names a decision that has
a row, and what the sleeves have cached of the rows is what the rows say (`ready_step`). So a cycle
that sees a price either closes a position that its owner has held too long, or leaves one whose
oldest known entry is younger than the limit of its owner, whichever sleeve's cycle it was
(`time_stop_enforced`).
-/

namespace SmartyTrader

open Lib

/-! ## The limits -/

/-- The hours after which a sleeve closes are positive. -/
def SleevesSettings.PositiveHours (s : SleevesSettings) : Prop :=
  ∀ spec ∈ s.strategies, ∀ hours, spec.maxHoldingHours = some hours → 0 < hours

/-- Is the limit of the owner reached? -/
theorem timeStopDue_eq_false {b : SleeveBook} {o : Ownership} {now : Time}
    (h : b.timeStopDue o now = false) {hours : ℚ} {opened : Time}
    (hhours : (b.spec (some o.strategy)).maxHoldingHours = some hours)
    (hopened : o.openedAt = some opened) : ((now - opened : ℤ) : ℚ) < hours * 3600000000 := by
  unfold SleeveBook.timeStopDue at h
  rw [hhours, hopened] at h
  simpa using h

/-! ## A cycle on a held symbol -/

section Cycle

open Pipeline

variable (p : Pipeline) {input : CycleInput} {st : PipelineState PaperExecutor}

/-- The check of the levels leaves the book as it was or closes the symbol's position. -/
theorem checkExitLevels_flat (hbook : st.executor.LongBook) (mark : ℚ) (owner : Option String) :
    p.checkExitLevels paperExecutor input mark owner st = (none, st) ∨
    ∃ r st', p.checkExitLevels paperExecutor input mark owner st = (some r, st') ∧
      st'.executor.positions.get? input.symbol = none := by
  have hread : paperExecutor.getPositions st.executor
      = (.ok st.executor.getPositions, st.executor) := rfl
  unfold Pipeline.checkExitLevels
  split_ifs
  · exact .inl rfl
  · simp only [hread]
    split
    · exact .inl rfl
    · rename_i position reason hfind
      obtain ⟨q, hq, hbreach⟩ := List.exists_of_findSome?_eq_some hfind
      split_ifs at hbreach with hc
      obtain ⟨r, -, hr⟩ := Option.map_eq_some_iff.mp hbreach
      cases hr
      exact .inr ⟨_, _, rfl, closeForExit_flat p hbook hq hc.1 mark reason owner⟩

/-- The time stop closes a held position when it is due. -/
theorem checkTimeStop_cases (hbook : st.executor.LongBook) {b : SleeveBook} (hb : st.book = some b)
    {mark : ℚ} (hmark : 0 < mark) (fetchedAt : Time) (ownership : Ownership)
    (hheld : ∃ q ∈ st.executor.getPositions, q.symbol = input.symbol ∧ 0 < q.quantity) :
    (b.timeStopDue ownership fetchedAt = false ∧
      p.checkTimeStop paperExecutor input mark fetchedAt ownership st = (none, st)) ∨
    ∃ r st', p.checkTimeStop paperExecutor input mark fetchedAt ownership st = (some r, st') ∧
      st'.executor.positions.get? input.symbol = none := by
  have hread : paperExecutor.getPositions st.executor
      = (.ok st.executor.getPositions, st.executor) := rfl
  unfold Pipeline.checkTimeStop
  split
  · rename_i hnone
    rw [hb] at hnone
    cases hnone
  · rename_i b' hb'
    obtain rfl : b = b' := Option.some.inj (hb.symm.trans hb')
    by_cases hdue : b.timeStopDue ownership fetchedAt = false
    · rw [if_pos (.inl hdue)]
      exact .inl ⟨hdue, rfl⟩
    · rw [if_neg (not_or.mpr ⟨hdue, not_le.mpr hmark⟩)]
      simp only [hread]
      split
      · rename_i hfind
        obtain ⟨q, hq, hsymbol, hpos⟩ := hheld
        have := List.find?_eq_none.mp hfind q hq
        simp [hsymbol, hpos] at this
      · rename_i position hfind
        have hc := List.find?_some hfind
        simp only [decide_eq_true_eq, gt_iff_lt] at hc
        exact .inr ⟨_, _, rfl, closeForExit_flat p hbook (List.mem_of_find?_eq_some hfind) hc.1
          mark .timeStop (some ownership.strategy)⟩

variable (input) in
/-- **A cycle on a held symbol.** It closes the position, or the limit of the owner is not reached
and only the owner goes on. -/
theorem run_stopped (hbook : st.executor.LongBook) {b : SleeveBook} (hb : st.book = some b)
    {snapshot : MarketSnapshot} {last : OHLCV} (hsnap : input.snapshot = .ok snapshot)
    (hlast : snapshot.candles.getLast? = some last) (hmark : 0 < last.close)
    (hheld : ∃ q ∈ (input.marked paperExecutor st).executor.getPositions,
      q.symbol = input.symbol ∧ 0 < q.quantity) {o : Ownership} {b' : SleeveBook}
    (hown : b.ownership input.metaRead
      (paperExecutor.entryHooks (input.marked paperExecutor st).executor)
      (input.marked paperExecutor st).executor.getPositions input.symbol = (.ok (some o), b')) :
    (p.run paperExecutor input st).2.executor.positions.get? input.symbol = none ∨
      (b'.timeStopDue o snapshot.fetchedAt = false ∧ (some o.strategy = p.strategy ∨
        (p.run paperExecutor input st).2.executor = (input.marked paperExecutor st).executor)) := by
  have hmarked : input.marked paperExecutor st
      = markPositions paperExecutor input.symbol last.close st := by
    unfold CycleInput.marked
    rw [hsnap]
    dsimp only
    rw [hlast]
  rw [hmarked] at hheld hown ⊢
  have hbook' : (markPositions paperExecutor input.symbol last.close st).executor.LongBook := by
    unfold markPositions
    split_ifs
    · exact hbook
    · exact hbook.updatePrice _ _
  have hbook'' : (markPositions paperExecutor input.symbol last.close st).book = some b := by
    unfold markPositions
    split_ifs <;> exact hb
  have hownership : sleeveOwnership paperExecutor input
      (markPositions paperExecutor input.symbol last.close st)
      = (.ok (some o), { markPositions paperExecutor input.symbol last.close st with
          book := some b' }) := by
    have hread : paperExecutor.getPositions
        (markPositions paperExecutor input.symbol last.close st).executor
        = (.ok (markPositions paperExecutor input.symbol last.close st).executor.getPositions,
          (markPositions paperExecutor input.symbol last.close st).executor) := rfl
    unfold sleeveOwnership
    rw [hbook'']
    simp only [hread, hown]
  unfold Pipeline.run
  rw [hsnap]
  dsimp only
  rw [hlast]
  dsimp only
  rw [hownership]
  dsimp only
  generalize markPositions paperExecutor input.symbol last.close st = marked at hheld hbook' ⊢
  have hbooked : ({ marked with book := some b' } : PipelineState PaperExecutor).executor.LongBook :=
    hbook'
  rcases checkExitLevels_flat p hbooked last.close (ownerName (.ok (some o))) with
    hlevels | ⟨r, st', hlevels, hclosed⟩
  · rw [hlevels]
    dsimp only
    rcases checkTimeStop_cases p hbooked rfl hmark snapshot.fetchedAt o hheld with ⟨hdue, hstop⟩ | ⟨r, st', hstop, hclosed⟩
    · rw [hstop]
      dsimp only
      split_ifs with hlock
      · exact .inr ⟨hdue, .inr rfl⟩
      · exact .inr ⟨hdue, .inl (not_not.mp hlock)⟩
    · rw [hstop]
      exact .inl hclosed
  · rw [hlevels]
    exact .inl hclosed

end Cycle

/-! ## The decisions behind the lots -/

/-- Some decisions were appended, to what was there or to nothing. -/
def Extends (decided : DecisionId → Prop) (old new : List (Option DecisionId)) : Prop :=
  ∃ tail, (∀ tag ∈ tail, ∃ id, tag = some id ∧ decided id) ∧ (new = old ++ tail ∨ new = tail)

theorem Extends.refl (decided : DecisionId → Prop) (old : List (Option DecisionId)) :
    Extends decided old old :=
  ⟨[], fun _ h => (List.not_mem_nil h).elim, .inl (List.append_nil old).symm⟩

theorem Extends.trans {decided : DecisionId → Prop} {old mid new : List (Option DecisionId)}
    (h : Extends decided old mid) (h' : Extends decided mid new) : Extends decided old new := by
  obtain ⟨tail, htail, hmid⟩ := h
  obtain ⟨tail', htail', hnew⟩ := h'
  have hboth : ∀ tag ∈ tail ++ tail', ∃ id, tag = some id ∧ decided id := fun tag htag =>
    (List.mem_append.mp htag).elim (htail tag) (htail' tag)
  rcases hnew with rfl | rfl
  · rcases hmid with rfl | rfl
    · exact ⟨tail ++ tail', hboth, .inl (List.append_assoc ..)⟩
    · exact ⟨mid ++ tail', hboth, .inr rfl⟩
  · exact ⟨new, htail', .inr rfl⟩

/-- An order leaves the decisions of a symbol, drops them with the whole position, or appends its
own. -/
theorem entryDecisionIds_placed {e : PaperExecutor} (h : e.Level) {req : OrderRequest}
    (hsized : 0 ≤ req.quantity ∧ req.quantity ∈ grid sizeUnit)
    (hwhole : req.side = .sell → ClosesWhole e req) (stamp : Stamp) (s : Symbol) :
    let after := (paperExecutor.placeOrder e req stamp).2.entryDecisionIds s
    after = e.entryDecisionIds s ∨ after = [] ∨
      (req.side = .buy ∧ after = e.entryDecisionIds s ++ [req.decisionId]) := by
  have hsame : ∀ e' : PaperExecutor, e'.tracker = e.tracker →
      e'.entryDecisionIds s = e.entryDecisionIds s := by
    intro e' ht
    unfold PaperExecutor.entryDecisionIds
    rw [ht]
  rw [paperExecutor_placeOrder]
  rcases e.placeOrder_cases req ("paper-" ++ stamp.shortId) stamp.now with
    ⟨r, e', -, he, -, -, -, htr⟩ | ⟨price, -, -, -, he⟩ | ⟨price, hside, -, he⟩ |
    ⟨price, pos, hside, hpos, -, he⟩
  · rw [he]
    exact .inl (hsame e' htr)
  · rw [he]
    exact .inl (hsame _ rfl)
  · rw [he]
    simp only [PaperExecutor.entryDecisionIds, PositionTracker.entryDecisionIds,
      PaperExecutor.remember, PaperExecutor.bought]
    rcases hsized.1.eq_or_lt with h0 | hq
    · rw [← h0, PositionTracker.onBuy_zero]
      exact .inl rfl
    · rw [PositionTracker.lotsOf_onBuy _ _ _ _ _ _ _ hq]
      by_cases hs : req.symbol = s
      · rw [if_pos hs, hs, List.map_append]
        exact .inr (.inr ⟨hside, rfl⟩)
      · rw [if_neg hs]
        exact .inl rfl
  · obtain ⟨-, pos', hpos', hquantity⟩ := hwhole hside
    obtain rfl : pos = pos' := Option.some.inj (hpos.symm.trans hpos')
    have htotal : Fifo.total (e.tracker.lotsOf req.symbol) = req.quantity := by
      have := h.quantity_eq req.symbol
      rw [PaperExecutor.bookQuantity, hpos] at this
      exact this.trans hquantity
    rw [he]
    simp only [PaperExecutor.entryDecisionIds, PositionTracker.entryDecisionIds,
      PaperExecutor.remember, PaperExecutor.sold, PaperExecutor.realize]
    rw [PositionTracker.lotsOf_onSell_grid PaperExecutor.lotEpsilon_lt_sizeUnit h.onGrid _ _
      hsized.1 hsized.2]
    by_cases hs : req.symbol = s
    · rw [if_pos hs, Fifo.drop_of_total_le (h.onGrid _).1 htotal.le]
      exact .inr (.inl rfl)
    · rw [if_neg hs]
      exact .inl rfl

/-- The executor records the fills that are stored or wait for their row. -/
structure Recorded (x : PaperAgent) : Prop where
  ids : x.ids.Nodup
  long : x.executor.LongBook
  records : Records (OrderTable.fills .paper Dict.empty x.orders
    ++ x.unwritten.flatMap (fun r => bookedFill r.1 r.2.1)) x.executor

section Steps

variable {fresh : PaperExecutor} {decided : DecisionId → Prop} {owner : Option String → Prop}
  {clock : Time → Prop} {s : PaperStep} {x : PaperAgent}

/-- **One step** is recorded. -/
theorem recorded_step (h : Recorded x) (hs : PaperStep.Orderly decided owner clock s x) :
    Recorded (x.step fresh s) := by
  have hids := ids_step fresh h.ids hs
  rcases orderly_cases fresh hs h.ids with ⟨symbol, price, he⟩ |
    ⟨req, stamp, strategy, hplaced, he⟩ | ⟨r, rest, now, hu, he⟩ | ⟨hexecutor, horders, hu⟩
  · rw [he] at hids ⊢
    exact ⟨hids, h.long.updatePrice symbol price, h.records.mark symbol price⟩
  · rw [he] at hids ⊢
    refine ⟨hids, h.long.placeOrder req _ _, ?_⟩
    have hrecords := h.records.place req ("paper-" ++ stamp.shortId) stamp.now hplaced.sized.1
      hplaced.sized.2
    dsimp only
    rw [paperExecutor_placeOrder, List.flatMap_append, ← List.append_assoc]
    cases hresult : (x.executor.placeOrder req ("paper-" ++ stamp.shortId) stamp.now).1 with
    | error err =>
        rw [hresult] at hrecords
        exact hrecords
    | ok order =>
        rw [hresult] at hrecords
        exact hrecords
  · rw [he] at hids ⊢
    refine ⟨hids, h.long, ?_⟩
    have hrecords := h.records
    rw [hu, List.flatMap_cons] at hrecords
    dsimp only
    rw [PaperRun.fills_append, List.append_assoc]
    exact hrecords
  · refine ⟨hids, hexecutor ▸ h.long, ?_⟩
    rw [hexecutor, horders, hu]
    exact h.records

/-- **One step** leaves the decisions of a symbol, drops them, or appends one. -/
theorem extends_step (h : Recorded x) (hs : PaperStep.Orderly decided owner clock s x)
    (symbol : Symbol) : Extends decided (x.executor.entryDecisionIds symbol)
      ((x.step fresh s).executor.entryDecisionIds symbol) := by
  rcases orderly_cases fresh hs h.ids with ⟨marked, price, he⟩ |
    ⟨req, stamp, strategy, hplaced, he⟩ | ⟨r, rest, now, -, he⟩ | ⟨hexecutor, -, -⟩
  · rw [he]
    show Extends decided _ (((x.executor.updatePrice marked price).tracker.lotsOf symbol).map _)
    rw [PaperExecutor.tracker_updatePrice]
    exact Extends.refl decided _
  · rw [he]
    rcases entryDecisionIds_placed h.records.level hplaced.sized (fun hs => (hplaced.sell hs).1)
      stamp symbol with hsame | hnone | ⟨hbuy, happended⟩
    · exact hsame ▸ Extends.refl decided _
    · exact ⟨[], fun tag htag => (List.not_mem_nil htag).elim, .inr hnone⟩
    · obtain ⟨id, hid, hdecided⟩ := hplaced.buy hbuy
      refine ⟨[some id], fun tag htag => ⟨id, List.mem_singleton.mp htag, hdecided⟩, .inl ?_⟩
      rw [← hid]
      exact happended
  · rw [he]
    exact Extends.refl decided _
  · rw [hexecutor]
    exact Extends.refl decided _

/-- The steps of an operation are recorded, and append the decisions that it made. -/
theorem traced_extends {x y : PaperAgent} (htraced : Traced fresh decided owner clock x y)
    (h : Recorded x) : Recorded y ∧ ∀ symbol,
      Extends decided (x.executor.entryDecisionIds symbol) (y.executor.entryDecisionIds symbol) :=
  htraced.preserves (I := fun z => Recorded z ∧ ∀ symbol,
      Extends decided (x.executor.entryDecisionIds symbol) (z.executor.entryDecisionIds symbol))
    (fun _ _ hs hz => ⟨recorded_step hz.1 hs,
      fun symbol => (hz.2 symbol).trans (extends_step hz.1 hs symbol)⟩)
    ⟨h, fun _ => Extends.refl decided _⟩

end Steps

/-- The decisions behind the lots of an executor, from the fills it records. -/
theorem Records.entryDecisionIds {fills : List FillRecord} {e : PaperExecutor}
    (h : Records fills e) (s : Symbol) : e.entryDecisionIds s
      = ((replayFills PositionTracker.empty fills).tracker.lotsOf s).map Fifo.Lot.tag := by
  rw [h.replayed, List.map_map]
  rfl

/-! ## Operations of the agent -/

/-- What is new in an operation: the ids of its orders, the id of its decision, and a configuration
that is checked. -/
def SleeveStep.Admitted (s : SleeveStep) (a : SleeveAgent) : Prop :=
  s.NewIds a ∧ (∀ c, s = .cycle c → a.decisions.get? c.decisionId = none) ∧
    ∀ agentEngine settings engines now, s = .restart agentEngine settings engines now →
      settings.PositiveHours

namespace SleeveAgent

/-- The fills of the stored orders. -/
def fills (a : SleeveAgent) : List FillRecord := OrderTable.fills .paper Dict.empty a.orders

/-- The decisions that an operation makes. -/
def Decides (a : SleeveAgent) (s : SleeveStep) (id : DecisionId) : Prop :=
  ∃ c, s = .cycle c ∧ id = c.decisionId ∧ (a.runCycle c).1.signal.isSome

/-- The newest snapshot counts every stored fill. -/
def Counted (orders : OrderTable) (snapshots : SnapshotTable) : Prop :=
  (snapshots.getLatestPortfolioSnapshot = none ∧ OrderTable.fills .paper Dict.empty orders = []) ∨
    ∃ row saved, snapshots.getLatestPortfolioSnapshot = some row ∧
      Records (OrderTable.fills .paper Dict.empty orders) saved ∧ saved.LongBook ∧
      row.cash = saved.cash ∧ row.positions = saved.getPositions

/-- What the cache of the sleeves, the ledger and the tables have in common between two operations:
the cache holds what the rows say, the newest snapshot counts every stored fill, and every open lot
names a decision that has a row. -/
structure Ready (a : SleeveAgent) : Prop where
  book : ∃ b, a.pipeline.book = some b ∧ b.settings.PositiveHours ∧ b.Coherent a.decisions
  recorded : Recorded a.paper
  saved : Counted a.orders a.snapshots
  named : ∀ symbol, ∀ tag ∈ a.pipeline.executor.entryDecisionIds symbol,
    ∃ id, tag = some id ∧ (a.decisions.get? id).isSome

theorem Ready.records {a : SleeveAgent} (h : Ready a) : Records a.fills a.pipeline.executor := by
  have hrecords := h.recorded.records
  rw [show a.paper.unwritten = [] from rfl, List.flatMap_nil, List.append_nil] at hrecords
  exact hrecords

/-- The ids behind the lots all have rows. -/
theorem Ready.rows {a : SleeveAgent} (h : Ready a) (symbol : Symbol) :
    ∀ i ∈ (a.pipeline.executor.entryDecisionIds symbol).filterMap id,
      (a.decisions.get? i).isSome := by
  intro i hi
  obtain ⟨tag, htag, rfl⟩ := List.mem_filterMap.mp hi
  obtain ⟨j, hj, hrow⟩ := h.named symbol _ htag
  cases hj
  exact hrow

theorem ready_start (cash : ℚ) (costs : CostModel) (agentEngine : RiskEngine)
    {settings : SleevesSettings} (engines : Dict String RiskEngine)
    (hsettings : settings.PositiveHours) :
    Ready (start (PaperExecutor.create cash costs) agentEngine settings engines) where
  book := ⟨_, rfl, hsettings, fun id known h => (by cases h)⟩
  recorded := ⟨List.nodup_nil, PaperExecutor.longBook_create cash costs, records_create cash costs⟩
  saved := .inl ⟨rfl, rfl⟩
  named symbol tag h := by cases h

section Operations

variable {fresh : PaperExecutor} {s : SleeveStep} {a : SleeveAgent}

variable (fresh) in
/-- The rows of decisions after an operation: those before it, and one for its decision. -/
theorem get?_decisions_step (hadmitted : s.Admitted a) :
    (∀ id, (a.decisions.get? id).isSome →
      (a.step fresh s).decisions.get? id = a.decisions.get? id) ∧
    ∀ id, a.Decides s id → ∃ c, s = .cycle c ∧
      (a.step fresh s).decisions.get? id = some ⟨c.pipeline.strategy, c.decidedAt⟩ := by
  rw [step_decisions]
  constructor
  · intro id hid
    cases s with
    | cycle c =>
        have hnew := hadmitted.2.1 c rfl
        have hne : c.decisionId ≠ id := by
          rintro rfl
          rw [hnew] at hid
          cases hid
        unfold runCycle
        dsimp only
        split_ifs
        · exact Dict.get?_set_ne _ _ hne
        · rfl
    | _ => rfl
  · rintro id ⟨c, rfl, rfl, hsignal⟩
    refine ⟨c, rfl, ?_⟩
    unfold runCycle at hsignal ⊢
    dsimp only at hsignal ⊢
    rw [if_pos hsignal, Dict.get?_set_self]

theorem metaOf_step (hadmitted : s.Admitted a) {id : DecisionId}
    (h : (a.decisions.get? id).isSome) :
    DecisionTable.metaOf (a.step fresh s).decisions id = DecisionTable.metaOf a.decisions id := by
  unfold DecisionTable.metaOf
  rw [(get?_decisions_step fresh hadmitted).1 id h]

variable (fresh) in
/-- **The steps of an operation**, with the decisions they append. -/
theorem extends_operation (h : Ready a) (hadmitted : s.Admitted a) (hs : s.isRestart = false) :
    Recorded (a.step fresh s).paper ∧ ∀ symbol,
      Extends (a.Decides s) (a.pipeline.executor.entryDecisionIds symbol)
        ((a.step fresh s).pipeline.executor.entryDecisionIds symbol) := by
  obtain ⟨b, hb, -⟩ := h.book
  have hrows : (a.orders.map OrderRow.orderId).Nodup := (List.nodup_append.mp h.recorded.ids).1
  have hfilled : s.FilledAt (fun _ => True) := by
    cases s with
    | cycle c => exact trivial
    | closeAll c => exact fun _ => trivial
    | _ => exact trivial
  have htraced : Traced fresh (a.Decides s) (fun _ => True) (fun _ => True) a.paper
      (a.step fresh s).paper :=
    traced_step s a hb h.recorded.long h.records.level hrows hs hadmitted.1 hfilled
      (fun _ _ => trivial) (fun c hc => ⟨trivial, fun hsignal => ⟨c, hc, rfl, hsignal⟩⟩)
  exact traced_extends htraced h.recorded

theorem postProcess_snapshot (a : SleeveAgent) (now : Time) (r : PipelineResult) :
    (a.postProcess now r).snapshots.getLatestPortfolioSnapshot
      = some (a.pipeline.executor.portfolio.snapshot now) := by
  unfold postProcess
  dsimp only
  unfold SnapshotTable.getLatestPortfolioSnapshot SnapshotTable.savePortfolioSnapshot
  rw [List.getLast?_concat]

/-- After a close-all the newest snapshot is of the book, unless nothing was closed. -/
theorem closeAll_snapshot (a : SleeveAgent) (c : SleeveClose) :
    ((a.closeAll c).orders = a.orders ∧ (a.closeAll c).snapshots = a.snapshots) ∨
      (a.closeAll c).snapshots.getLatestPortfolioSnapshot
        = some ((a.closeAll c).pipeline.executor.portfolio.snapshot c.writtenAt) := by
  have howners : (a.readOwners).2.orders = a.orders ∧
      (a.readOwners).2.snapshots = a.snapshots := by
    unfold readOwners
    split
    · exact ⟨rfl, rfl⟩
    · split <;> exact ⟨rfl, rfl⟩
  have hlast : ∀ (owners : Dict Symbol String) (closed : List (Symbol × OrderResult))
      (a : SleeveAgent), closed ≠ [] →
      let a' := closed.foldl (fun a o => a.postProcess c.writtenAt (closeResult owners o)) a
      a'.snapshots.getLatestPortfolioSnapshot
        = some (a'.pipeline.executor.portfolio.snapshot c.writtenAt) := by
    intro owners closed
    induction closed using List.reverseRecOn with
    | nil => exact fun _ h => absurd rfl h
    | append_singleton closed o _ =>
        intro a _
        rw [List.foldl_append, List.foldl_cons, List.foldl_nil]
        dsimp only
        rw [postProcess_executor]
        exact postProcess_snapshot _ _ _
  unfold closeAll
  generalize a.readOwners = r at howners ⊢
  obtain ⟨owners, a'⟩ := r
  dsimp only at howners ⊢
  split
  · exact .inl howners
  · rename_i closed _
    by_cases hclosed : closed = []
    · rw [hclosed]
      exact .inl howners
    · exact .inr (hlast owners closed _ hclosed)

/-- A snapshot of the book counts every stored fill. -/
theorem saved_of_snapshot (hrecorded : Recorded a.paper) {now : Time}
    (h : a.snapshots.getLatestPortfolioSnapshot = some (a.pipeline.executor.portfolio.snapshot now)) :
    Counted a.orders a.snapshots := by
  have hrecords := hrecorded.records
  rw [show a.paper.unwritten = [] from rfl, List.flatMap_nil, List.append_nil] at hrecords
  exact .inr ⟨_, a.pipeline.executor, h, hrecords, hrecorded.long, rfl, rfl⟩

theorem ready_allocate (h : Ready a) (now : Time) : Ready (a.allocate now) := by
  obtain ⟨b, hb, hhours, hcoherent⟩ := h.book
  unfold allocate
  rw [hb]
  exact ⟨⟨_, rfl, hhours, hcoherent⟩, h.recorded, h.saved, h.named⟩

/-- **A restart.** The ledger is replayed from the stored fills, so that its lots name the same
decisions. -/
theorem ready_restart (h : Ready a) (cash : ℚ) (costs : CostModel) (agentEngine : RiskEngine)
    {settings : SleevesSettings} (engines : Dict String RiskEngine)
    (hsettings : settings.PositiveHours) :
    Ready { a with pipeline :=
      { executor := (rehydratePaperExecutor (PaperExecutor.create cash costs) a.orders a.snapshots).2
        agentEngine := agentEngine
        book := some ⟨settings, Dict.empty, engines, none⟩
        lastDecisionAt := Dict.empty } } := by
  obtain ⟨hrecords, hlong⟩ : Records a.fills (rehydratePaperExecutor
      (PaperExecutor.create cash costs) a.orders a.snapshots).2 ∧
      (rehydratePaperExecutor (PaperExecutor.create cash costs) a.orders a.snapshots).2.LongBook := by
    unfold rehydratePaperExecutor
    rcases h.saved with ⟨hnone, hfills⟩ | ⟨row, saved, hrow, hsaved, hlong, hcash, hpositions⟩
    · rw [fills, hnone, hfills]
      exact ⟨records_create cash costs, PaperExecutor.longBook_create cash costs⟩
    · rw [hrow]
      dsimp only
      rw [hcash, hpositions]
      refine ⟨(hsaved.load (PaperExecutor.create cash costs)).1, ?_⟩
      refine PaperExecutor.longBook_loadPortfolioState _ _ _ fun pos hpos => ?_
      obtain ⟨s, hs⟩ := (Dict.mem_values_iff _ _).mp hpos
      exact (hlong s pos hs).2
  refine ⟨⟨_, rfl, hsettings, fun id known hk => (by cases hk)⟩, ⟨h.recorded.ids, hlong, ?_⟩,
    h.saved, fun symbol tag htag => h.named symbol tag ?_⟩
  · show Records (a.fills ++ []) _
    rw [List.append_nil]
    exact hrecords
  · rw [hrecords.entryDecisionIds] at htag
    rw [h.records.entryDecisionIds]
    exact htag

variable (fresh) in
/-- The book of the sleeves after an operation that is not a start. -/
theorem book_step (h : Ready a) (hadmitted : s.Admitted a) (hs : s.isRestart = false)
    {b : SleeveBook} (hb : a.pipeline.book = some b) :
    ∃ b', (a.step fresh s).pipeline.book = some b' ∧ b'.settings = b.settings ∧
      b'.Coherent (a.step fresh s).decisions := by
  have hcoherent : b.Coherent a.decisions := by
    obtain ⟨b', hb', -, hcoherent⟩ := h.book
    obtain rfl := Option.some.inj (hb.symm.trans hb')
    exact hcoherent
  obtain ⟨b', hb', hsettings, hcoherent'⟩ : ∃ b', (a.step fresh s).pipeline.book = some b' ∧
      b'.settings = b.settings ∧ b'.Coherent a.decisions := by
    by_cases hallocate : ∃ now, s = .allocate now
    · obtain ⟨now, rfl⟩ := hallocate
      show ∃ b', (a.allocate now).pipeline.book = some b' ∧ _
      unfold allocate
      rw [hb]
      exact ⟨_, rfl, rfl, hcoherent⟩
    · refine step_keepsBook
        (SleeveBook.keepsBook_coherent (fun _ => .inl rfl) b.settings) (fun symbol =>
        ⟨h.rows symbol, fun i hi => (List.not_mem_nil hi).elim⟩) hb ⟨b, hb, rfl, hcoherent⟩ hs
        fun now he => hallocate ⟨now, he⟩
  refine ⟨b', hb', hsettings, fun id known hknown => ?_⟩
  obtain ⟨hrow, hmeta⟩ := hcoherent' id known hknown
  refine ⟨?_, hmeta.trans (metaOf_step hadmitted hrow).symm⟩
  rw [(get?_decisions_step fresh hadmitted).1 id hrow]
  exact hrow

/-- **One operation** leaves the agent ready. -/
theorem ready_step {cash : ℚ} {costs : CostModel} (h : Ready a) (hadmitted : s.Admitted a) :
    Ready (a.step (PaperExecutor.create cash costs) s) := by
  by_cases hs : s.isRestart = false
  · obtain ⟨b, hb, hhours, -⟩ := h.book
    obtain ⟨b', hb', hsettings, hcoherent⟩ :=
      book_step (PaperExecutor.create cash costs) h hadmitted hs hb
    obtain ⟨hrecorded, hextends⟩ :=
      extends_operation (PaperExecutor.create cash costs) h hadmitted hs
    have hrows := get?_decisions_step (PaperExecutor.create cash costs) hadmitted
    refine ⟨⟨b', hb', hsettings ▸ hhours, hcoherent⟩, hrecorded, ?_, fun symbol tag htag => ?_⟩
    · cases s with
      | cycle c =>
          have hsnapshot : (a.cycle c).snapshots.getLatestPortfolioSnapshot
              = some ((a.cycle c).pipeline.executor.portfolio.snapshot c.writtenAt) := by
            unfold cycle
            dsimp only
            rw [postProcess_executor]
            exact postProcess_snapshot _ _ _
          exact saved_of_snapshot hrecorded hsnapshot
      | closeAll c =>
          rcases a.closeAll_snapshot c with ⟨horders, hsnapshots⟩ | hsnapshot
          · show Counted (a.closeAll c).orders (a.closeAll c).snapshots
            rw [horders, hsnapshots]
            exact h.saved
          · exact saved_of_snapshot hrecorded hsnapshot
      | mark symbol price => exact h.saved
      | engines agentEngine engines => exact h.saved
      | allocate now => exact (ready_allocate h now).saved
      | restart agentEngine settings engines now => cases hs
    · obtain ⟨tail, htail, hnew⟩ := hextends symbol
      have hold : ∀ tag ∈ a.pipeline.executor.entryDecisionIds symbol, ∃ id, tag = some id ∧
          ((a.step (PaperExecutor.create cash costs) s).decisions.get? id).isSome := by
        intro tag htag
        obtain ⟨id, hid, hrow⟩ := h.named symbol tag htag
        exact ⟨id, hid, by rw [hrows.1 id hrow]; exact hrow⟩
      have hmade : ∀ tag ∈ tail, ∃ id, tag = some id ∧
          ((a.step (PaperExecutor.create cash costs) s).decisions.get? id).isSome := by
        intro tag htag
        obtain ⟨id, hid, hdecides⟩ := htail tag htag
        obtain ⟨c, -, hrow⟩ := hrows.2 id hdecides
        exact ⟨id, hid, by rw [hrow]; rfl⟩
      rcases hnew with hnew | hnew
      · rw [hnew] at htag
        exact (List.mem_append.mp htag).elim (hold tag) (hmade tag)
      · rw [hnew] at htag
        exact hmade tag htag
  · cases s with
    | restart agentEngine settings engines now =>
        exact ready_allocate (ready_restart h cash costs agentEngine engines
          (hadmitted.2.2 _ _ _ _ rfl)) now
    | _ => exact absurd rfl hs

end Operations

end SleeveAgent

/-! ## The clock and the owner of appended lots -/

namespace DecisionTable

variable {t t' : DecisionTable}

theorem times_append (t : DecisionTable) (xs ys : List DecisionId) :
    DecisionTable.times t (xs ++ ys) = DecisionTable.times t xs ++ DecisionTable.times t ys :=
  List.filterMap_append

theorem times_congr {ids : List DecisionId}
    (h : ∀ i ∈ ids, DecisionTable.metaOf t' i = DecisionTable.metaOf t i) :
    DecisionTable.times t' ids = DecisionTable.times t ids :=
  List.filterMap_congr fun i hi => by rw [h i hi]

theorem firstKnown_congr {ids : List DecisionId} (settings : SleevesSettings)
    (h : ∀ i ∈ ids, DecisionTable.metaOf t' i = DecisionTable.metaOf t i) :
    DecisionTable.firstKnown t' settings ids = DecisionTable.firstKnown t settings ids :=
  findSome?_congr fun i hi => by rw [h i hi]

/-- Decisions of one sleeve are owned by no other one. -/
theorem firstKnown_of_made {settings : SleevesSettings} {ids : List DecisionId}
    {strategy : Option String} (h : ∀ i ∈ ids, (DecisionTable.metaOf t i).1 = strategy)
    {name : String} (hname : DecisionTable.firstKnown t settings ids = some name) :
    strategy = some name := by
  obtain ⟨i, hi, hknown⟩ := List.exists_of_findSome?_eq_some hname
  rw [h i hi] at hknown
  split at hknown
  · split_ifs at hknown
    exact hknown
  · cases hknown

/-- **Adding to a position** does not change its owner: only the owner adds to it. -/
theorem ownership_append {settings : SleevesSettings} {old tail : List DecisionId}
    {strategy : Option String}
    (hold : ∀ i ∈ old, DecisionTable.metaOf t' i = DecisionTable.metaOf t i)
    (hmade : ∀ i ∈ tail, (DecisionTable.metaOf t' i).1 = strategy)
    (hlock : tail = [] ∨ some (DecisionTable.ownership t settings old).strategy = strategy) :
    (DecisionTable.ownership t' settings (old ++ tail)).strategy
      = (DecisionTable.ownership t settings old).strategy := by
  rcases hlock with rfl | hlock
  · unfold DecisionTable.ownership
    rw [List.append_nil, firstKnown_congr settings hold]
  · have happend : DecisionTable.firstKnown t' settings (old ++ tail)
        = (DecisionTable.firstKnown t settings old).or
          (DecisionTable.firstKnown t' settings tail) := by
      rw [← firstKnown_congr settings hold]
      exact List.findSome?_append
    unfold DecisionTable.ownership at hlock ⊢
    dsimp only at hlock ⊢
    rw [happend]
    cases hknown : DecisionTable.firstKnown t settings old with
    | some name => rfl
    | none =>
        rw [hknown, Option.getD_none] at hlock
        rw [Option.none_or, Option.getD_none]
        cases htail : DecisionTable.firstKnown t' settings tail with
        | none => rfl
        | some name => exact Option.some.inj ((firstKnown_of_made hmade htail).symm.trans hlock.symm)

end DecisionTable

/-- The ids among tags that name one. -/
theorem filterMap_id_extends {decided : DecisionId → Prop} {old new : List (Option DecisionId)}
    (h : Extends decided old new) : ∃ tail, (∀ i ∈ tail, decided i) ∧
      (new.filterMap id = old.filterMap id ++ tail ∨ new.filterMap id = tail) := by
  obtain ⟨tail, htail, hnew⟩ := h
  refine ⟨tail.filterMap id, fun i hi => ?_, ?_⟩
  · obtain ⟨tag, htag, rfl⟩ := List.mem_filterMap.mp hi
    obtain ⟨j, hj, hdecided⟩ := htail _ htag
    cases hj
    exact hdecided
  · rcases hnew with rfl | rfl
    · exact .inl List.filterMap_append
    · exact .inr rfl

namespace SleeveAgent

/-- The ids of the decisions behind the open lots, oldest lot first. -/
def entryIds (a : SleeveAgent) (symbol : Symbol) : List DecisionId :=
  (a.pipeline.executor.entryDecisionIds symbol).filterMap id

/-- The times of the known decisions behind the open lots, oldest lot first. -/
def entryTimes (a : SleeveAgent) (symbol : Symbol) : List Time :=
  DecisionTable.times a.decisions (a.entryIds symbol)

section Entries

variable {fresh : PaperExecutor} {s : SleeveStep} {a : SleeveAgent}

variable (fresh) in
/-- What an operation does to the decisions behind the lots of a symbol. -/
theorem entryIds_step (h : Ready a) (hadmitted : s.Admitted a) (hs : s.isRestart = false)
    (symbol : Symbol) :
    (∀ i ∈ a.entryIds symbol, DecisionTable.metaOf (a.step fresh s).decisions i
      = DecisionTable.metaOf a.decisions i) ∧
    ∃ tail, (∀ i ∈ tail, ∃ c, s = .cycle c ∧
        DecisionTable.metaOf (a.step fresh s).decisions i
          = (c.pipeline.strategy, some c.decidedAt)) ∧
      ((a.step fresh s).entryIds symbol = a.entryIds symbol ++ tail ∨
        (a.step fresh s).entryIds symbol = tail) := by
  refine ⟨fun i hi => metaOf_step hadmitted (h.rows symbol i hi), ?_⟩
  obtain ⟨tail, hdecided, hnew⟩ := filterMap_id_extends
    ((extends_operation fresh h hadmitted hs).2 symbol)
  refine ⟨tail, fun i hi => ?_, hnew⟩
  obtain ⟨c, hc, hrow⟩ := (get?_decisions_step fresh hadmitted).2 i (hdecided i hi)
  refine ⟨c, hc, ?_⟩
  unfold DecisionTable.metaOf
  rw [hrow]
  rfl

/-- A symbol whose lots name no decision is flat. -/
theorem Ready.flat (h : Ready a) {symbol : Symbol} (hnone : a.entryIds symbol = []) :
    a.pipeline.executor.bookQuantity symbol = 0 := by
  have hlots : a.pipeline.executor.tracker.lotsOf symbol = [] := by
    cases hl : a.pipeline.executor.tracker.lotsOf symbol with
    | nil => rfl
    | cons l ls =>
        have htag : l.tag ∈ a.pipeline.executor.entryDecisionIds symbol := by
          unfold PaperExecutor.entryDecisionIds PositionTracker.entryDecisionIds
          rw [hl]
          exact List.mem_cons_self
        obtain ⟨id, hid, -⟩ := h.named symbol l.tag htag
        have hmem : id ∈ a.entryIds symbol := List.mem_filterMap.mpr ⟨_, htag, hid⟩
        rw [hnone] at hmem
        exact (List.not_mem_nil hmem).elim
  rw [← h.records.level.quantity_eq, PositionTracker.quantity, hlots, Fifo.total_nil]

/-- A symbol that has lots is held. -/
theorem held_of_lots {e : PaperExecutor} (hlevel : e.Level) (hlong : e.LongBook) {symbol : Symbol}
    (hlots : e.entryDecisionIds symbol ≠ []) :
    ∃ q ∈ e.getPositions, q.symbol = symbol ∧ 0 < q.quantity := by
  have htotal : 0 < e.bookQuantity symbol := by
    rw [← hlevel.quantity_eq]
    refine lt_of_not_ge fun hle => hlots ?_
    have hnil : e.tracker.lotsOf symbol = [] :=
      Fifo.eq_nil_of_total_nonpos (hlevel.onGrid symbol).1 hle
    unfold PaperExecutor.entryDecisionIds PositionTracker.entryDecisionIds
    rw [hnil, List.map_nil]
  unfold PaperExecutor.bookQuantity at htotal
  cases hpos : e.positions.get? symbol with
  | none =>
      rw [hpos] at htotal
      exact absurd htotal (lt_irrefl _)
  | some pos =>
      rw [hpos] at htotal
      exact ⟨pos, (Dict.mem_values_iff _ _).mpr ⟨symbol, hpos⟩, (hlong symbol pos hpos).1, htotal⟩

theorem entryDecisionIds_ne_nil {symbol : Symbol} (h : a.entryIds symbol ≠ []) :
    a.pipeline.executor.entryDecisionIds symbol ≠ [] := by
  intro hnil
  unfold entryIds at h
  rw [hnil] at h
  exact h rfl

/-- **The owner**, between two operations: it is read as the rows say. -/
theorem Ready.ownership (h : Ready a) {b : SleeveBook} (hb : a.pipeline.book = some b)
    {symbol : Symbol} (hlots : a.entryIds symbol ≠ []) :
    ∃ b', b.ownership (DecisionTable.getDecisionStrategies a.decisions)
        (paperExecutor.entryHooks a.pipeline.executor) a.pipeline.executor.getPositions symbol
        = (.ok (some (DecisionTable.ownership a.decisions b.settings (a.entryIds symbol))), b') := by
  obtain ⟨b₁, hb₁, -, hcoherent⟩ := h.book
  obtain rfl := Option.some.inj (hb.symm.trans hb₁)
  have hheld := held_of_lots h.records.level h.recorded.long (entryDecisionIds_ne_nil hlots)
  obtain ⟨b', hown, -⟩ := hcoherent.ownership (paperExecutor.entryHooks a.pipeline.executor) hheld
    (h.rows symbol)
  exact ⟨b', hown⟩

end Entries

/-- An entry at `opened` is younger than some hours. -/
def Younger (now opened : Time) (hours : ℚ) : Prop := ((now - opened : ℤ) : ℚ) < hours * 3600000000

theorem spec_of_settings {b b' : SleeveBook} (h : b'.settings = b.settings)
    (name : Option String) : b'.spec name = b.spec name := by
  unfold SleeveBook.spec
  rw [h]

theorem spec_hours {b : SleeveBook} (h : b.settings.PositiveHours) {name : Option String}
    {hours : ℚ} (hspec : (b.spec name).maxHoldingHours = some hours) : 0 < hours := by
  refine h (b.spec name) ?_ hours hspec
  unfold SleeveBook.spec
  cases hget : b.settings.get name with
  | none => exact List.mem_cons_self
  | some spec => exact List.mem_of_find?_eq_some hget

/-- The time of every lot's decision is known. -/
theorem Ready.known {a : SleeveAgent} (h : Ready a) {symbol : Symbol}
    (hlots : a.entryIds symbol ≠ []) : a.entryTimes symbol ≠ [] := by
  obtain ⟨i, hi⟩ := List.exists_mem_of_ne_nil _ hlots
  obtain ⟨row, hrow⟩ := Option.isSome_iff_exists.mp (h.rows symbol i hi)
  refine List.ne_nil_of_mem (a := row.timestamp) (List.mem_filterMap.mpr ⟨i, hi, ?_⟩)
  unfold DecisionTable.metaOf
  rw [hrow]
  rfl

/-- A cycle on a held symbol closes it, or its owner's limit is not reached and only the owner
adds to it. -/
theorem cycle_held {a : SleeveAgent} (h : Ready a) {c : SleeveCycle} {snapshot : MarketSnapshot}
    {last : OHLCV} (hsnap : c.input.snapshot = .ok snapshot)
    (hlast : snapshot.candles.getLast? = some last) (hmark : 0 < last.close) {b : SleeveBook}
    (hb : a.pipeline.book = some b) (hcoherent : b.Coherent a.decisions)
    (hlots : a.entryIds c.input.symbol ≠ []) :
    let o := DecisionTable.ownership a.decisions b.settings (a.entryIds c.input.symbol)
    (a.cycle c).pipeline.executor.bookQuantity c.input.symbol = 0 ∨
      (b.timeStopDue o snapshot.fetchedAt = false ∧ (some o.strategy = c.pipeline.strategy ∨
        (a.cycle c).entryIds c.input.symbol = a.entryIds c.input.symbol)) := by
  intro o
  let marked := (a.reading c).marked paperExecutor a.pipeline
  have htracker : marked.executor.tracker = a.pipeline.executor.tracker :=
    marked_preserves (I := fun e => e.tracker = a.pipeline.executor.tracker)
      (fun e s price _ he => (e.tracker_updatePrice s price).trans he) (a.reading c) a.pipeline rfl
  have hlevel : marked.executor.Level :=
    marked_preserves (I := PaperExecutor.Level) (fun _ s price _ he => he.updatePrice s price)
      (a.reading c) a.pipeline h.records.level
  have hlong : marked.executor.LongBook :=
    marked_preserves (I := PaperExecutor.LongBook) (fun _ s price _ he => he.updatePrice s price)
      (a.reading c) a.pipeline h.recorded.long
  have hids : marked.executor.entryDecisionIds c.input.symbol
      = a.pipeline.executor.entryDecisionIds c.input.symbol := by
    unfold PaperExecutor.entryDecisionIds
    rw [htracker]
  have hheld := held_of_lots hlevel hlong (hids ▸ entryDecisionIds_ne_nil hlots)
  obtain ⟨b', hread, hsettings⟩ := hcoherent.ownership (paperExecutor.entryHooks marked.executor)
    hheld (by
      show ∀ i ∈ (marked.executor.entryDecisionIds c.input.symbol).filterMap id, _
      rw [hids]
      exact h.rows c.input.symbol)
  have howner : DecisionTable.ownership a.decisions b.settings
      (((paperExecutor.entryHooks marked.executor).entryDecisionIds c.input.symbol).filterMap id)
        = o := by
    show DecisionTable.ownership a.decisions b.settings
      ((marked.executor.entryDecisionIds c.input.symbol).filterMap id) = o
    rw [hids]
    rfl
  rw [howner] at hread
  have hexecutor : (a.cycle c).pipeline.executor
      = (c.pipeline.run paperExecutor (a.reading c) a.pipeline).2.executor :=
    postProcess_executor _ _ _
  rcases run_stopped c.pipeline (a.reading c) h.recorded.long hb hsnap hlast hmark hheld
    hread with hclosed | ⟨hdue, hlock⟩
  · left
    unfold PaperExecutor.bookQuantity
    rw [hexecutor]
    have : (c.pipeline.run paperExecutor (a.reading c) a.pipeline).2.executor.positions.get?
        c.input.symbol = none := hclosed
    rw [this]
  · refine .inr ⟨?_, hlock.imp_right fun hsame => ?_⟩
    · unfold SleeveBook.timeStopDue at hdue ⊢
      rw [spec_of_settings hsettings] at hdue
      exact hdue
    · unfold entryIds
      rw [hexecutor, hsame, hids]

/-- **One cycle.** It ends with the symbol flat, or with an oldest known entry that is younger than
the limit of the owner. -/
theorem cycle_stopped (cash : ℚ) (costs : CostModel) {a : SleeveAgent} (h : Ready a)
    {c : SleeveCycle} (hadmitted : (SleeveStep.cycle c).Admitted a) {snapshot : MarketSnapshot}
    {last : OHLCV} (hsnap : c.input.snapshot = .ok snapshot)
    (hlast : snapshot.candles.getLast? = some last) (hmark : 0 < last.close)
    (hclock : snapshot.fetchedAt ≤ c.decidedAt) {b : SleeveBook}
    (hb : (a.cycle c).pipeline.book = some b) :
    (a.cycle c).pipeline.executor.bookQuantity c.input.symbol = 0 ∨
      ∀ hours, (b.spec (some (DecisionTable.ownership (a.cycle c).decisions b.settings
          ((a.cycle c).entryIds c.input.symbol)).strategy)).maxHoldingHours = some hours →
        ∀ opened ∈ ((a.cycle c).entryTimes c.input.symbol).head?,
          Younger snapshot.fetchedAt opened hours := by
  let fresh := PaperExecutor.create cash costs
  obtain ⟨b₀, hb₀, hhours, hcoherent⟩ := h.book
  have hsettings : b.settings = b₀.settings := by
    obtain ⟨b', hb', hsettings, -⟩ := book_step fresh h hadmitted rfl hb₀
    obtain rfl := Option.some.inj (hb.symm.trans hb')
    exact hsettings
  obtain ⟨hold, tail, htail, hnew⟩ :=
    entryIds_step fresh h hadmitted rfl c.input.symbol
  have hmade : ∀ i ∈ tail, DecisionTable.metaOf (a.cycle c).decisions i
      = (c.pipeline.strategy, some c.decidedAt) := by
    intro i hi
    obtain ⟨c', hc, hmeta⟩ := htail i hi
    cases hc
    exact hmeta
  by_cases hflat : (a.cycle c).pipeline.executor.bookQuantity c.input.symbol = 0
  · exact .inl hflat
  right
  intro hours hspec opened hopened
  -- where all lots are of this cycle, they are not older than what it fetched
  have hown : (a.cycle c).entryIds c.input.symbol = tail →
      Younger snapshot.fetchedAt opened hours := by
    intro htailed
    have hpositive : 0 < hours := spec_hours (hsettings ▸ hhours) hspec
    have hmem : opened ∈ (a.cycle c).entryTimes c.input.symbol := List.mem_of_mem_head? hopened
    unfold entryTimes DecisionTable.times at hmem
    rw [htailed] at hmem
    obtain ⟨i, hi, htime⟩ := List.mem_filterMap.mp hmem
    rw [hmade i hi] at htime
    obtain rfl := Option.some.inj htime
    have hpast : ((snapshot.fetchedAt - c.decidedAt : ℤ) : ℚ) ≤ 0 := by
      exact_mod_cast sub_nonpos.mpr hclock
    unfold Younger
    linarith
  rcases hnew with happend | hreplaced
  · by_cases hempty : a.entryIds c.input.symbol = []
    · rw [hempty, List.nil_append] at happend
      exact hown happend
    · -- the cycle met a position: it was not due, and only its owner added to it
      rcases cycle_held h hsnap hlast hmark hb₀ hcoherent hempty with hclosed | ⟨hdue, hlock⟩
      · exact absurd hclosed hflat
      · have hlock' := hlock.symm.imp_left fun hsame =>
          List.self_eq_append_right.mp (hsame.symm.trans happend)
        have howner : (DecisionTable.ownership (a.cycle c).decisions b₀.settings
            (a.entryIds c.input.symbol ++ tail)).strategy = _ :=
          DecisionTable.ownership_append hold (fun i hi => congrArg Prod.fst (hmade i hi)) hlock'
        have htimes : (a.cycle c).entryTimes c.input.symbol
            = a.entryTimes c.input.symbol ++ DecisionTable.times (a.cycle c).decisions tail := by
          unfold entryTimes
          rw [show (a.cycle c).entryIds c.input.symbol = _ from happend, DecisionTable.times_append]
          exact congrArg (· ++ _) (DecisionTable.times_congr hold)
        rw [htimes, List.head?_append_of_ne_nil _ (h.known hempty)] at hopened
        rw [show (a.cycle c).entryIds c.input.symbol = _ from happend, hsettings,
          spec_of_settings hsettings, howner] at hspec
        exact timeStopDue_eq_false hdue hspec hopened
  · exact hown hreplaced

/-! ## The order of the lots -/

/-- A cycle does not decide before anything that was decided earlier. -/
def Timely (s : SleeveStep) (a : SleeveAgent) : Prop :=
  ∀ c, s = .cycle c → ∀ id row, a.decisions.get? id = some row → row.timestamp ≤ c.decidedAt

/-- Older lots name older decisions. -/
def Ordered (a : SleeveAgent) : Prop := ∀ symbol, (a.entryTimes symbol).Pairwise (· ≤ ·)

/-- The times of the lots come from rows. -/
theorem row_of_entryTime {a : SleeveAgent} {symbol : Symbol} {time : Time}
    (h : time ∈ a.entryTimes symbol) : ∃ id row, a.decisions.get? id = some row ∧
      row.timestamp = time := by
  obtain ⟨i, -, hmeta⟩ := List.mem_filterMap.mp h
  unfold DecisionTable.metaOf at hmeta
  cases hrow : a.decisions.get? i with
  | none =>
      rw [hrow] at hmeta
      cases hmeta
  | some row =>
      rw [hrow] at hmeta
      exact ⟨i, row, hrow, Option.some.inj hmeta⟩

/-- A restart keeps the decisions behind the lots, and their rows. -/
theorem entryTimes_restart {cash : ℚ} {costs : CostModel} {a : SleeveAgent} (h : Ready a)
    {agentEngine : RiskEngine} {settings : SleevesSettings} {engines : Dict String RiskEngine}
    {now : Time} (h' : Ready (a.step (PaperExecutor.create cash costs)
      (.restart agentEngine settings engines now))) (symbol : Symbol) :
    (a.step (PaperExecutor.create cash costs) (.restart agentEngine settings engines now)).entryTimes
      symbol = a.entryTimes symbol := by
  have hids : (a.step (PaperExecutor.create cash costs)
      (.restart agentEngine settings engines now)).entryIds symbol = a.entryIds symbol := by
    unfold entryIds
    rw [h'.records.entryDecisionIds, h.records.entryDecisionIds]
    rfl
  unfold entryTimes
  rw [hids]
  rfl

/-- **One operation** keeps the lots in order. -/
theorem ordered_step {cash : ℚ} {costs : CostModel} {s : SleeveStep} {a : SleeveAgent}
    (h : Ready a) (hadmitted : s.Admitted a) (htimely : Timely s a) (hordered : Ordered a) :
    Ordered (a.step (PaperExecutor.create cash costs) s) := by
  have hready : Ready (a.step (PaperExecutor.create cash costs) s) := ready_step h hadmitted
  intro symbol
  by_cases hs : s.isRestart = false
  · obtain ⟨hold, tail, htail, hnew⟩ :=
      entryIds_step (PaperExecutor.create cash costs) h hadmitted hs symbol
    -- what is appended is of one time, and that is not before any row
    have hlater : ∀ time ∈ DecisionTable.times (a.step (PaperExecutor.create cash costs) s).decisions
        tail, ∃ c, s = .cycle c ∧ time = c.decidedAt := by
      intro time htime
      obtain ⟨i, hi, hmeta⟩ := List.mem_filterMap.mp htime
      obtain ⟨c, hc, hrow⟩ := htail i hi
      rw [hrow] at hmeta
      exact ⟨c, hc, (Option.some.inj hmeta).symm⟩
    have hpairwise : (DecisionTable.times (a.step (PaperExecutor.create cash costs) s).decisions
        tail).Pairwise (· ≤ ·) := by
      refine List.pairwise_of_forall_mem_list fun x hx y hy => ?_
      obtain ⟨c, hc, rfl⟩ := hlater x hx
      obtain ⟨c', hc', rfl⟩ := hlater y hy
      obtain rfl := SleeveStep.cycle.inj (hc.symm.trans hc')
      exact le_rfl
    unfold entryTimes
    rcases hnew with happend | hreplaced
    · rw [happend, DecisionTable.times_append, DecisionTable.times_congr hold]
      refine List.pairwise_append.mpr ⟨hordered symbol, hpairwise, fun x hx y hy => ?_⟩
      obtain ⟨id, row, hrow, rfl⟩ := row_of_entryTime hx
      obtain ⟨c, hc, rfl⟩ := hlater y hy
      exact htimely c hc id row hrow
    · rw [hreplaced]
      exact hpairwise
  · cases s with
    | restart agentEngine settings engines now =>
        rw [entryTimes_restart h hready]
        exact hordered symbol
    | _ => exact absurd rfl hs

/-! ## The theorem -/

/-- The symbol is flat, or the given entries are younger at `now` than the holding limit of the
sleeve that owns the position, if it has one. -/
def Stopped (a : SleeveAgent) (symbol : Symbol) (now : Time) (entries : List Time) : Prop :=
  a.pipeline.executor.bookQuantity symbol = 0 ∨
    ∃ b o b', a.pipeline.book = some b ∧
      b.ownership (DecisionTable.getDecisionStrategies a.decisions)
        (paperExecutor.entryHooks a.pipeline.executor) a.pipeline.executor.getPositions symbol
        = (.ok (some o), b') ∧
      ∀ hours, (b.spec (some o.strategy)).maxHoldingHours = some hours →
        ∀ opened ∈ entries, Younger now opened hours

/-- One sleeve that holds for a day at most. -/
def dayTrades : SleevesSettings := ⟨⟨"day", some 1, some 24⟩, [], 1 / 5⟩

/-- A buy of the sleeve. -/
def dayBuy : SleeveCycle where
  pipeline := ⟨some "day", false, false⟩
  input := flatCycle 100 bracketBuy
  decisionId := 1
  decidedAt := 1
  writtenAt := 2

/-- A flat candle, 25 hours later. -/
def nextCandles : MarketSnapshot := ⟨[⟨none, 100, 100, 100, 100, 0⟩], 90000000000⟩

/-- The same cycle over it. -/
def nextDay : SleeveCycle where
  pipeline := dayBuy.pipeline
  input := { dayBuy.input with
    snapshot := .ok nextCandles
    stamp := ⟨"b", 90000000001⟩ }
  decisionId := 2
  decidedAt := 90000000001
  writtenAt := 90000000002

end SleeveAgent

end SmartyTrader
