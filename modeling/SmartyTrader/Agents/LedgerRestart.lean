import SmartyTrader.Agents.LedgerMirror
import SmartyTrader.Lib.Runs

set_option autoImplicit false

/-! # A restart rebuilds the ledger

The run of a ccxt executor whose orders are all stored: each result of a placement gets its row, and
each result of a reconciliation patches its row or gets one before it is confirmed. What a restart
loads then has the lots and the levels of the live executor for every symbol that is `Rebuildable`:
nothing of it was written off as dust, which no row tells of, and its rows stand in the order of the
bookings, or in one that comes to the same (`ledger_rebuilt`).
-/

namespace SmartyTrader

open Lib

variable {W : Type}

/-- A venue executor and its order table. -/
structure StoredLedger (W : Type) where
  executor : CcxtExecutor W
  orders : OrderTable

/-- What happens to them. -/
inductive LedgerCall (W : Type) where
  | venue (w : W)
  | place (req : OrderRequest) (stamp : Stamp) (strategy : Option String)
  | reconcile (now : Time) (strategy : OrderId → Option String)
  | cancel (id : OrderId)
  | positions
  | cash
  | price (symbol : Symbol) (price : ℚ)

namespace StoredLedger

/-- `_persist_order`: the row of a placed order, under the decision of its request. -/
def persistOrder (r : OrderResult) (decisionId : Option DecisionId) (strategy : Option String)
    (now : Time) (st : StoredLedger W) : StoredLedger W :=
  match OrderTable.saveOrder st.orders (BaseAgent.rowOf r decisionId strategy now) with
  | .ok orders => { st with orders := orders }
  | .error _ => st

/-- One order of `_reconcile_orders`: patch its row, or write one, and confirm. -/
def storeUpdate (now : Time) (strategy : OrderId → Option String) (st : StoredLedger W)
    (r : OrderResult) : StoredLedger W :=
  let patched := OrderTable.updateOrderStatus st.orders r.orderId (BaseAgent.patchOf r now)
  let row := BaseAgent.rowOf r (st.executor.pendingDecisionId r.orderId) (strategy r.orderId) now
  if patched.1 then ⟨st.executor.confirmReconciled r.orderId, patched.2⟩
  else
    match OrderTable.saveOrder patched.2 row with
    | .ok orders => ⟨st.executor.confirmReconciled r.orderId, orders⟩
    | .error _ => { st with orders := patched.2 }

def step (c : ExchangeClient W) : LedgerCall W → StoredLedger W → StoredLedger W
  | .venue w, st => { st with executor := { st.executor with world := w } }
  | .place req stamp strategy, st =>
      match st.executor.placeOrder c req stamp with
      | (.error _, e) => { st with executor := e }
      | (.ok r, e) =>
          persistOrder r req.decisionId strategy stamp.now { st with executor := e }
  | .reconcile now strategy, st =>
      let r := CcxtExecutor.reconcileOpenOrders c now st.executor
      r.1.foldl (storeUpdate now strategy) { st with executor := r.2 }
  | .cancel id, st => { st with executor := (st.executor.cancelOrder c id).2 }
  | .positions, st => { st with executor := (st.executor.getPositions c).2 }
  | .cash, st => { st with executor := (st.executor.getCash c).2 }
  | .price symbol price, st => { st with executor := st.executor.updatePrice symbol price }

/-- A new executor that was loaded with the table. -/
def start (c : ExchangeClient W) (decisions : Dict DecisionId ExitLevels) (t : OrderTable)
    (now : Time) (fresh : CcxtExecutor W) : StoredLedger W :=
  ⟨fresh.rehydrateVenueExecutor c decisions t now, t⟩

end StoredLedger

/-! ## What is asked of a run -/

/-- Nothing is tracked yet. The ids of the table are different and none of the paper executor's; an
order that is stored as pending has no fees yet and is no child of a protective order, and a stored
child is a fill. -/
structure Loadable (c : ExchangeClient W) (t : OrderTable) (fresh : CcxtExecutor W) : Prop where
  untracked : fresh.openOrders = Dict.empty
  ids : (t.map OrderRow.orderId).Nodup
  pending : ∀ row ∈ t, row.status = .pending →
    row.feeBase = none ∧ row.feeQuote = none ∧ ¬ fresh.MayFire c row.orderId
  children : ∀ row ∈ t, fresh.MayFire c row.orderId → row.orderId ≠ "" ∧ row.replayable = true
  genuine : ∀ id, fresh.MayFire c id → isPaperOrder id = false

/-- The row of a call is written. The venue gives every order an id of its own, a BUY has the levels
of its stored decision, a cancel by hand is of an order that still works, and a fill without a price
finds a row without one. -/
def CallStored (c : ExchangeClient W) (decisions : Dict DecisionId ExitLevels) :
    LedgerCall W → StoredLedger W → Prop
  | .place req stamp _, st =>
      (req.side = .buy →
        (req.stopLoss, req.takeProfit) = levelsOfDecision decisions req.decisionId) ∧
      ∀ r, (st.executor.placeOrder c req stamp).1 = .ok r →
        r.orderId ∉ st.orders.map OrderRow.orderId ∧ isPaperOrder r.orderId = false ∧
          ¬ st.executor.MayFire c r.orderId
  | .reconcile now _, st =>
      ∀ r ∈ (CcxtExecutor.reconcileOpenOrders c now st.executor).1,
        r.status = .filled → r.price = none →
          ∀ row ∈ st.orders, row.orderId = r.orderId → row.price = none
  | .cancel id, st => ∀ p, st.executor.openOrders.get? id = some p → p.resolved = none
  | _, _ => True

/-- Nothing of the symbol was written off, and its rows stand in the order of the bookings, or in
one that comes to the same. -/
def Rebuildable (decisions : Dict DecisionId ExitLevels) (t₀ : OrderTable) (st : StoredLedger W)
    (s : Symbol) : Prop :=
  .writeOff s ∉ st.executor.journal ∧
    SameHistory (ofSymbol s (OrderTable.filled decisions st.orders))
      (ofSymbol s (OrderTable.filled decisions t₀ ++ recorded decisions st.executor.journal))

/-! ## The invariant -/

namespace StoredLedger

open CcxtExecutor

variable {c : ExchangeClient W} {decisions : Dict DecisionId ExitLevels}
  {stored : List FillRecord} {st : StoredLedger W}

/-- The books are those of the fills, and the rows mirror the fills. -/
structure Faithful (c : ExchangeClient W) (decisions : Dict DecisionId ExitLevels)
    (stored : List FillRecord) (st : StoredLedger W) : Prop where
  kept : CcxtExecutor.Kept decisions stored st.executor
  mirrors : Mirrors c decisions st.orders stored st.executor

theorem Faithful.moves (h : Faithful c decisions stored st) {e : CcxtExecutor W}
    (hm : CcxtExecutor.Moves c st.executor e) : Faithful c decisions stored { st with executor := e } :=
  ⟨hm.kept h.kept, hm.mirrors h.mirrors⟩

/-- The books and the orders are the same. -/
theorem Faithful.same (h : Faithful c decisions stored st) {e : CcxtExecutor W}
    (hb : e.books = st.executor.books) (ho : e.openOrders = st.executor.openOrders)
    (hk : e.knownOrderIds = st.executor.knownOrderIds)
    (hp : e.protection = st.executor.protection) :
    Faithful c decisions stored { st with executor := e } := by
  have htidy : e.Tidy c := by
    unfold Tidy MayFire
    rw [ho, hk, hp]
    exact h.mirrors.tidy
  have hjournal : e.journal = st.executor.journal := congrArg Books.journal hb
  constructor
  · refine h.kept.of_books ?_ ?_
    · rw [hb]
      exact h.kept.books
    · intro id p hget _
      rw [ho] at hget
      exact hget
  · show Mirrored c decisions st.orders (stored ++ recorded decisions e.journal) e
    rw [hjournal]
    exact h.mirrors.carry htidy ho hk (by rw [hp])

/-! ### The start -/

/-- The fills of a table have the ids of its rows. -/
theorem nodup_filled {t : OrderTable} (h : (t.map OrderRow.orderId).Nodup) :
    ((OrderTable.filled decisions t).map FillRecord.orderId).Nodup := by
  have hsub : ((OrderTable.filled decisions t).map FillRecord.orderId).Sublist
      ((t.map OrderRow.orderId).map some) := by
    unfold OrderTable.filled
    induction t with
    | nil => exact List.Sublist.refl _
    | cons row rest ih =>
        have hrest := ih (List.nodup_cons.mp h).2
        cases hf : row.replayed decisions with
        | none =>
            rw [List.filterMap_cons_none hf]
            exact hrest.cons _
        | some f =>
            rw [List.filterMap_cons_some hf, List.map_cons, Mirrored.orderId_replayed hf]
            exact hrest.cons_cons _
  exact hsub.nodup (h.map (Option.some_injective _))

section Start

variable {t : OrderTable} {fresh : CcxtExecutor W}

theorem kept_reloaded (h : Loadable c t fresh) (now : Time) :
    CcxtExecutor.Kept decisions (OrderTable.filled decisions t) (fresh.reloaded decisions t now) := by
  have hload := reloads_loadPendingOrders (OrderTable.pendingRecords decisions t) now
    (fresh.loadFills (OrderTable.venueFills decisions t))
  have hlots : ∀ s, (fresh.reloaded decisions t now).tracker.lotsOf s
      = lotsAfter (ofSymbol s (OrderTable.filled decisions t)) [] := by
    intro s
    rw [show (fresh.reloaded decisions t now).tracker = _ from hload.tracker]
    exact lotsOf_loadFills fresh decisions t s
  have hnone : recorded decisions (fresh.reloaded decisions t now).journal = [] := by
    rw [show (fresh.reloaded decisions t now).journal = _ from hload.journal]
    rfl
  constructor
  · refine ⟨fun s => ?_, fun s _ => ?_, fun s _ hopen => ?_⟩
    · show Fifo.Positive ((fresh.reloaded decisions t now).tracker.lotsOf s)
      rw [hlots]
      exact positive_lotsAfter _ Fifo.Positive.nil
    · show (fresh.reloaded decisions t now).tracker.lotsOf s = lotsAfter (ofSymbol s
        (_ ++ recorded decisions (fresh.reloaded decisions t now).journal)) []
      rw [hnone, List.append_nil]
      exact hlots s
    · change lotEpsilon < (fresh.reloaded decisions t now).tracker.quantity s at hopen
      show (fresh.reloaded decisions t now).exitLevels.get? s = levelsAfter (ofSymbol s
        (_ ++ recorded decisions (fresh.reloaded decisions t now).journal))
      rw [hnone, List.append_nil]
      rw [show (fresh.reloaded decisions t now).tracker = _ from hload.tracker] at hopen
      rw [show (fresh.reloaded decisions t now).exitLevels = _ from hload.exitLevels]
      exact levels_loadFills fresh decisions t s hopen
  · intro id p hget _ _
    obtain ⟨o, ho, -, rfl⟩ := tracked_reloaded h.untracked hget
    obtain ⟨row, -, -, -, -, -, -, hdecision, hlevels⟩ := of_mem_pendingRecords ho
    show (o.stopLoss, o.takeProfit) = levelsOfDecision decisions o.decisionId
    rw [hlevels, hdecision]

theorem mayFire_reloaded (now : Time) (id : OrderId) :
    (fresh.reloaded decisions t now).MayFire c id ↔ fresh.MayFire c id := by
  have hload := reloads_loadPendingOrders (OrderTable.pendingRecords decisions t) now
    (fresh.loadFills (OrderTable.venueFills decisions t))
  unfold MayFire
  rw [show (fresh.reloaded decisions t now).protection = fresh.protection from hload.protection]

/-- Of a stored fill the id is known. -/
theorem known_reloaded {row : OrderRow} (hrow : row ∈ t) (hreplay : row.replayable = true)
    (hid : row.orderId ≠ "") (now : Time) :
    row.orderId ∈ (fresh.reloaded decisions t now).knownOrderIds := by
  apply (reloads_loadPendingOrders _ now (fresh.loadFills _)).known
  apply List.mem_append_left
  rw [venueFills_eq]
  obtain ⟨f, hf⟩ := exists_replayed
    (getExitLevels decisions (lastBuys (t.filter OrderRow.replayable)).values) hreplay
  refine List.mem_filterMap.mpr ⟨f, List.mem_filterMap.mpr ⟨row, hrow, hf⟩, ?_⟩
  rw [Mirrored.orderId_replayed hf]
  simp [hid]

theorem mirrors_reloaded (h : Loadable c t fresh) (now : Time) :
    Mirrors c decisions t (OrderTable.filled decisions t) (fresh.reloaded decisions t now) := by
  have hload := reloads_loadPendingOrders (OrderTable.pendingRecords decisions t) now
    (fresh.loadFills (OrderTable.venueFills decisions t))
  have hnone : recorded decisions (fresh.reloaded decisions t now).journal = [] := by
    rw [show (fresh.reloaded decisions t now).journal = _ from hload.journal]
    rfl
  unfold Mirrors
  rw [hnone, List.append_nil]
  refine ⟨?_, h.ids, nodup_filled h.ids, ?_, ?_, ?_, ?_, ?_⟩
  · intro id p hget
    obtain ⟨o, ho, rfl, rfl⟩ := tracked_reloaded h.untracked hget
    obtain ⟨row, hrow, hstatus, -, hid, -⟩ := of_mem_pendingRecords ho
    refine ⟨fun r hr => (by cases hr), fun hfire => ?_⟩
    rw [mayFire_reloaded, hid] at hfire
    exact absurd hfire (h.pending row hrow hstatus).2.2
  · intro f
    constructor
    · intro hf
      obtain ⟨row, hrow, hreplay⟩ := List.mem_filterMap.mp hf
      exact Or.inl ⟨row, hrow, hreplay⟩
    · rintro (⟨row, hrow, hreplay⟩ | ⟨id, p, hget, hwait⟩)
      · exact List.mem_filterMap.mpr ⟨row, hrow, hreplay⟩
      · obtain ⟨o, -, -, rfl⟩ := tracked_reloaded h.untracked hget
        rw [Mirrored.awaiting_of_working rfl] at hwait
        cases hwait
  · intro id p hget
    obtain ⟨o, ho, rfl, rfl⟩ := tracked_reloaded h.untracked hget
    obtain ⟨row, hrow, hstatus, hpaper, hid, hsymbol, hside, hdecision, -⟩ :=
      of_mem_pendingRecords ho
    refine ⟨by rw [hid]; exact hpaper, Or.inl (hid ▸ List.mem_map_of_mem hrow), ?_⟩
    intro row' hrow' hsame
    obtain rfl : row' = row := List.inj_on_of_nodup_map h.ids hrow' hrow (hsame.trans hid)
    obtain ⟨hbase, hquote, -⟩ := h.pending row' hrow' hstatus
    refine ⟨?_, hsymbol.symm, hside.symm, hdecision.symm, hbase, hquote⟩
    unfold OrderRow.replayed
    rw [if_neg (by rw [hstatus]; decide)]
  · intro id p r hget hr
    obtain ⟨o, -, -, rfl⟩ := tracked_reloaded h.untracked hget
    cases hr
  · intro row hrow hfire
    rw [mayFire_reloaded] at hfire
    obtain ⟨hid, hreplay⟩ := h.children row hrow hfire
    exact known_reloaded hrow hreplay hid now
  · intro id hfire
    rw [mayFire_reloaded] at hfire
    exact h.genuine id hfire

theorem faithful_start (h : Loadable c t fresh) (now : Time) :
    Faithful c decisions (OrderTable.filled decisions t) (start c decisions t now fresh) := by
  have ha := asides_restoreProtection c now (fresh.reloaded decisions t now)
  exact ⟨ha.kept (kept_reloaded h now), ha.mirrors (mirrors_reloaded h now)⟩

end Start

/-! ### Rows of results -/

/-- The fill that a filled row tells of. -/
def rowFill (row : OrderRow) (price : ℚ) : BookedFill where
  orderId := row.orderId
  symbol := row.symbol
  side := row.side
  quantity := row.quantity
  price := price
  feeBase := row.feeBase.getD 0
  feeQuote := row.feeQuote.getD 0
  decisionId := row.decisionId

theorem replayed_filled {row : OrderRow} (hstatus : row.status = .filled)
    (hpaper : isPaperOrder row.orderId = false) :
    row.replayed decisions = row.price.map (fun price => (rowFill row price).record decisions) := by
  unfold OrderRow.replayed venueFill
  rw [if_pos hstatus, if_neg (by simp [hpaper])]
  rfl

theorem replayed_unfilled {row : OrderRow} (hstatus : row.status ≠ .filled) :
    row.replayed decisions = none := by
  unfold OrderRow.replayed
  rw [if_neg hstatus]

/-- The row that a result leaves, written or patched, tells what the result tells. -/
theorem replayed_result {row : OrderRow} {p : PendingOrder} {r : OrderResult}
    (hpaper : isPaperOrder row.orderId = false) (hr : p.resolved = some r)
    (hsymbol : row.symbol = p.symbol) (hside : row.side = p.side)
    (hdecision : row.decisionId = p.decisionId) (hstatus : row.status = r.status)
    (hfilled : r.status = .filled → row.quantity = r.quantity ∧ row.price = r.price)
    (hbase : row.feeBase = r.feeBase) (hquote : row.feeQuote = r.feeQuote) :
    row.replayed decisions = p.awaiting decisions row.orderId := by
  unfold PendingOrder.awaiting
  rw [hr, Option.bind_some]
  by_cases h : r.status = .filled
  · obtain ⟨hquantity, hprice⟩ := hfilled h
    rw [if_pos h, replayed_filled (hstatus.trans h) hpaper, hprice]
    unfold rowFill
    rw [hsymbol, hside, hdecision, hquantity, hbase, hquote]
  · rw [if_neg h, replayed_unfilled (by rw [hstatus]; exact h)]

/-- A row that tells of no fill, for an order that is not tracked. -/
theorem Faithful.writes (h : Faithful c decisions stored st) {row : OrderRow}
    (hid : row.orderId ∉ st.orders.map OrderRow.orderId)
    (hfire : ¬ st.executor.MayFire c row.orderId) (hrow : row.replayed decisions = none) :
    Faithful c decisions stored { st with orders := st.orders ++ [row] } := by
  refine ⟨h.kept, ?_⟩
  have happend := h.mirrors.append h.mirrors.tidy rfl rfl rfl hid hfire
  rw [hrow, Option.toList_none, List.append_nil] at happend
  exact happend

/-! ### Placements -/

/-- An order that was filled at its placement is booked, and its row tells so. -/
theorem Faithful.booked (h : Faithful c decisions stored st) {req : OrderRequest} {id : OrderId}
    {q price : ℚ} {raw : RawOrder} {row : OrderRow}
    (hreq : req.side = .buy →
      (req.stopLoss, req.takeProfit) = levelsOfDecision decisions req.decisionId)
    (hid : row.orderId ∉ st.orders.map OrderRow.orderId)
    (hfire : ¬ st.executor.MayFire c row.orderId)
    (hrow : row.replayed decisions
      = some ((reportedFill id req.symbol req.side q price req.decisionId raw).record decisions)) :
    Faithful c decisions stored
      ⟨(st.executor.bookPlaced req id q price raw).2, st.orders ++ [row]⟩ := by
  have hf := frame_bookPlaced st.executor req id q price raw
  have htidy : (st.executor.bookPlaced req id q price raw).2.Tidy c := by
    unfold Tidy MayFire
    rw [hf.openOrders, hf.knownOrderIds, hf.protection]
    exact h.mirrors.tidy
  have hjournal : recorded decisions (st.executor.bookPlaced req id q price raw).2.journal
      = recorded decisions st.executor.journal ++ (row.replayed decisions).toList := by
    rw [(bookPlaced_booked st.executor req id q price raw).2, recorded_recordFill, hrow,
      Option.toList_some]
  constructor
  · refine h.kept.of_books (keptBooks_bookPlaced h.kept.books hreq id q price raw) ?_
    intro i p hget _
    rw [hf.openOrders] at hget
    exact hget
  · unfold Mirrors
    rw [hjournal, ← List.append_assoc]
    exact h.mirrors.append htidy hf.openOrders hf.knownOrderIds (by rw [hf.protection]) hid hfire

/-- An order that works is tracked, and its row is open. -/
theorem Faithful.tracks (h : Faithful c decisions stored st) {row : OrderRow} {p : PendingOrder}
    (hworking : p.resolved = none)
    (hlevels : p.side = .buy →
      (p.stopLoss, p.takeProfit) = levelsOfDecision decisions p.decisionId)
    (hid : row.orderId ∉ st.orders.map OrderRow.orderId)
    (hfire : ¬ st.executor.MayFire c row.orderId) (hpaper : isPaperOrder row.orderId = false)
    (hopen : row.Open decisions p) :
    Faithful c decisions stored
      ⟨{ st.executor with openOrders := st.executor.openOrders.set row.orderId p },
        st.orders ++ [row]⟩ := by
  refine ⟨⟨h.kept.books, ?_⟩, h.mirrors.tracks rfl rfl rfl hworking hid hfire hpaper hopen⟩
  intro i p' hget hp'
  change (st.executor.openOrders.set row.orderId p).get? i = some p' at hget
  rw [Dict.get?_set] at hget
  split_ifs at hget
  · obtain rfl := Option.some.inj hget
    exact hlevels
  · exact h.kept.planned i p' hget hp'

/-- Until its last word the venue moves, and the ledger keeps. -/
theorem Faithful.accepted (h : Faithful c decisions stored st) {req : OrderRequest}
    {e₁ e₂ : CcxtExecutor W} {amount : ℚ} {id : OrderId} {raw : RawOrder}
    (ha : Accepted c req st.executor e₁ e₂ amount id raw) :
    Faithful c decisions stored { st with executor := e₂ } ∧
      e₂.protection.isSome = st.executor.protection.isSome := by
  obtain ⟨_, _, _, _, _, _, _, rfl⟩ := ha.answer
  refine ⟨(h.moves ha.before.moves).same rfl rfl rfl rfl, ?_⟩
  exact ha.before.protection

theorem faithful_place (h : Faithful c decisions stored st) {req : OrderRequest} {stamp : Stamp}
    {strategy : Option String} (hcall : CallStored c decisions (.place req stamp strategy) st) :
    Faithful c decisions stored (step c (.place req stamp strategy) st) := by
  obtain ⟨hreq, hfresh⟩ := hcall
  have hplaced := placeOrder_placed c st.executor req stamp
  show Faithful c decisions stored (match st.executor.placeOrder c req stamp with
    | (.error _, e) => { st with executor := e }
    | (.ok r, e) => persistOrder r req.decisionId strategy stamp.now { st with executor := e })
  rcases hresult : st.executor.placeOrder c req stamp with ⟨err | r, e⟩
  all_goals rw [hresult] at hplaced hfresh
  · dsimp only at hplaced ⊢
    cases hplaced with
    | failed e₁ amount err w ha hs hc => exact (h.moves ha.moves).same rfl rfl rfl rfl
  · obtain ⟨hid, hpaper, hfire⟩ := hfresh r rfl
    have hmay : ∀ {e' : CcxtExecutor W}, e'.protection.isSome = st.executor.protection.isSome →
        ¬ e'.MayFire c r.orderId := by
      intro e' hp
      unfold MayFire at hfire ⊢
      rw [hp]
      exact hfire
    unfold persistOrder
    dsimp only at hplaced ⊢
    rw [saveOrder_of_fresh hid]
    cases hplaced with
    | refused e₁ reason ha hs =>
        exact (h.moves ha.moves).writes hid (hmay ha.protection)
          (replayed_unfilled (show OrderStatus.rejected ≠ .filled by decide))
    | tracked e₁ e₂ amount id raw limit ha hs hne =>
        obtain ⟨hf, hp⟩ := h.accepted ha
        have hunfilled : (resolveStatus raw amount).1 ≠ .filled := by
          rw [hs]
          decide
        have hopen : (BaseAgent.rowOf (placedResult req id amount limit raw stamp.now)
            req.decisionId strategy stamp.now).Open decisions
              (pendingOf req amount limit stamp.now) :=
          ⟨replayed_unfilled hunfilled, rfl, rfl, rfl, rfl, rfl⟩
        exact hf.tracks rfl hreq hid (hmay hp) hpaper hopen
    | filled e₁ e₂ e' amount id raw limit price ha hs hprice hasides =>
        obtain ⟨hf, hp⟩ := h.accepted ha
        obtain ⟨hbase, hquote⟩ := getD_reportedFees raw req.symbol
        generalize hrow : BaseAgent.rowOf (withFill (placedResult req id amount limit raw stamp.now)
          (reportedFees raw req.symbol)
          (e₂.bookPlaced req id (resolveStatus raw amount).2.1 price raw).1) req.decisionId
          strategy stamp.now = row
        have hreplay : row.replayed decisions = some ((reportedFill id req.symbol req.side
            (resolveStatus raw amount).2.1 price req.decisionId raw).record decisions) := by
          rw [← hrow, replayed_filled hs hpaper]
          show (pyOr raw.fillPrice (pyOr limit req.price)).map _ = _
          rw [hprice, Option.map_some]
          unfold rowFill BaseAgent.rowOf withFill
          dsimp only
          rw [hbase, hquote]
          rfl
        subst hrow
        exact (hf.booked hreq hid (hmay hp) hreplay).moves hasides.moves
    | ended e₁ e₂ amount id raw limit ha hpending hfilled =>
        obtain ⟨hf, hp⟩ := h.accepted ha
        refine hf.writes hid (hmay hp) ?_
        by_cases hs : (resolveStatus raw amount).1 = .filled
        · rw [replayed_filled hs hpaper]
          show (pyOr raw.fillPrice (pyOr limit req.price)).map _ = _
          rw [hfilled hs, Option.map_none]
        · exact replayed_unfilled hs

/-! ### Reconciliations -/

/-- The row of a result is patched, or written when there is none, and the result is confirmed. -/
theorem storeUpdate_eq (now : Time) (strategy : OrderId → Option String) (st : StoredLedger W)
    (r : OrderResult) : ∃ orders,
    storeUpdate now strategy st r = ⟨st.executor.confirmReconciled r.orderId, orders⟩ ∧
      (r.orderId ∈ st.orders.map OrderRow.orderId ∧ orders = st.orders.map (fun row =>
          if row.orderId = r.orderId then (BaseAgent.patchOf r now).write row else row) ∨
        r.orderId ∉ st.orders.map OrderRow.orderId ∧ orders = st.orders ++ [BaseAgent.rowOf r
          (st.executor.pendingDecisionId r.orderId) (strategy r.orderId) now]) := by
  have hhas : OrderTable.has st.orders r.orderId = true ↔
      r.orderId ∈ st.orders.map OrderRow.orderId := by
    simp [OrderTable.has]
  unfold storeUpdate OrderTable.updateOrderStatus
  dsimp only
  by_cases hmem : r.orderId ∈ st.orders.map OrderRow.orderId
  · rw [if_pos (hhas.mpr hmem)]
    exact ⟨_, rfl, Or.inl ⟨hmem, rfl⟩⟩
  · have hsame : st.orders.map (fun row =>
        if row.orderId = r.orderId then (BaseAgent.patchOf r now).write row else row)
        = st.orders := by
      conv_rhs => rw [← List.map_id st.orders]
      apply List.map_congr_left
      intro row hrow
      have hne : row.orderId ≠ r.orderId := by
        intro hid
        exact hmem (hid ▸ List.mem_map_of_mem hrow)
      exact if_neg hne
    rw [if_neg (fun h => hmem (hhas.mp h)), hsame, saveOrder_of_fresh hmem]
    exact ⟨_, rfl, Or.inr ⟨hmem, rfl⟩⟩

/-- One result is stored and confirmed. -/
theorem faithful_storeUpdate (h : Faithful c decisions stored st) (now : Time)
    (strategy : OrderId → Option String) {r : OrderResult}
    (hr : st.executor.stage r.orderId = .resolved r)
    (hprice : r.status = .filled → r.price = none →
      ∀ row ∈ st.orders, row.orderId = r.orderId → row.price = none) :
    Faithful c decisions stored (storeUpdate now strategy st r) ∧
      (storeUpdate now strategy st r).executor.openOrders
        = st.executor.openOrders.erase r.orderId ∧
      ∀ row ∈ (storeUpdate now strategy st r).orders, row.orderId ≠ r.orderId →
        row ∈ st.orders := by
  obtain ⟨p, hget, hp⟩ := (st.executor.stage_eq_resolved_iff _ _).mp hr
  obtain ⟨hpaper, -, hopen⟩ := h.mirrors.tracked _ p hget
  obtain ⟨hsymbol, hside⟩ := h.mirrors.results _ p r hget hp
  obtain ⟨orders, heq, hrows⟩ := storeUpdate_eq now strategy st r
  have hconfirm : st.executor.confirmReconciled r.orderId
      = { st.executor with openOrders := st.executor.openOrders.erase r.orderId } := by
    rcases st.executor.confirmReconciled_cases r.orderId with ⟨-, he⟩ | ⟨hn, -⟩
    · exact he
    · exact absurd hr (hn r)
  have htidy := tidy_confirmReconciled c st.executor h.mirrors.tidy r.orderId
  -- The new table: the row of the result, and the rows that were there.
  have key : (orders.map OrderRow.orderId).Nodup ∧
      (∀ row ∈ orders, row ∈ st.orders ∧ row.orderId ≠ r.orderId ∨
        row.orderId = r.orderId ∧
          row.replayed decisions = p.awaiting decisions r.orderId) ∧
      (∀ row ∈ st.orders, row.orderId ≠ r.orderId → row ∈ orders) ∧
      ∃ row ∈ orders, row.orderId = r.orderId := by
    rcases hrows with ⟨hmem, rfl⟩ | ⟨hmem, rfl⟩
    · refine ⟨?_, ?_, ?_, ?_⟩
      · have hids := map_orderId_updateOrderStatus st.orders r.orderId (BaseAgent.patchOf r now)
        unfold OrderTable.updateOrderStatus at hids
        rw [hids]
        exact h.mirrors.rows
      · intro row' hrow'
        obtain ⟨row, hrow, rfl⟩ := List.mem_map.mp hrow'
        by_cases hid : row.orderId = r.orderId
        · rw [if_pos hid]
          refine Or.inr ⟨hid, ?_⟩
          have ho := hopen row hrow hid
          rw [← hid]
          refine replayed_result (hid ▸ hpaper) hp ho.symbol ho.side ho.decisionId rfl ?_ ?_ ?_
          · intro hs
            refine ⟨?_, ?_⟩
            · show (if r.status = .filled then some r.quantity else none).getD row.quantity = _
              rw [if_pos hs, Option.getD_some]
            · show r.price.or row.price = r.price
              cases hpr : r.price with
              | none => rw [Option.none_or, hprice hs hpr row hrow hid]
              | some price => rw [Option.some_or]
          · show r.feeBase.or row.feeBase = r.feeBase
            rw [ho.feeBase, Option.or_none]
          · show r.feeQuote.or row.feeQuote = r.feeQuote
            rw [ho.feeQuote, Option.or_none]
        · rw [if_neg hid]
          exact Or.inl ⟨hrow, hid⟩
      · intro row hrow hid
        exact List.mem_map.mpr ⟨row, hrow, if_neg hid⟩
      · obtain ⟨row, hrow, hid⟩ := List.mem_map.mp hmem
        exact ⟨_, List.mem_map_of_mem hrow, by rw [if_pos hid]; exact hid⟩
    · refine ⟨Mirrored.nodup_concat h.mirrors.rows hmem, ?_, ?_, ?_⟩
      · intro row hrow
        rcases List.mem_append.mp hrow with hrow | hrow
        · exact Or.inl ⟨hrow, fun hid => hmem (hid ▸ List.mem_map_of_mem hrow)⟩
        · rw [List.mem_singleton.mp hrow]
          refine Or.inr ⟨rfl, replayed_result hpaper hp hsymbol hside ?_ rfl
            (fun _ => ⟨rfl, rfl⟩) rfl rfl⟩
          show st.executor.pendingDecisionId r.orderId = p.decisionId
          unfold CcxtExecutor.pendingDecisionId
          rw [hget, Option.bind_some]
      · intro row hrow _
        exact List.mem_append_left _ hrow
      · exact ⟨_, List.mem_append_right _ (List.mem_singleton_self _), rfl⟩
  obtain ⟨hids, hnew, hkeep, hrow⟩ := key
  rw [heq, hconfirm]
  rw [hconfirm] at htidy
  refine ⟨⟨?_, h.mirrors.stores hget htidy rfl rfl rfl hids hnew hkeep hrow⟩, rfl, ?_⟩
  · refine h.kept.of_books h.kept.books ?_
    intro i p' hget' _
    change (st.executor.openOrders.erase r.orderId).get? i = some p' at hget'
    rw [Dict.get?_erase] at hget'
    split_ifs at hget'
    exact hget'
  · intro row hmem hne
    rcases hnew row hmem with ⟨hold, -⟩ | ⟨hid, -⟩
    · exact hold
    · exact absurd hid hne

/-- All the results of a reconciliation are stored. -/
theorem faithful_storeUpdates (now : Time) (strategy : OrderId → Option String)
    (rs : List OrderResult) (h : Faithful c decisions stored st)
    (hids : (rs.map OrderResult.orderId).Nodup)
    (hresolved : ∀ r ∈ rs, st.executor.stage r.orderId = .resolved r)
    (hprice : ∀ r ∈ rs, r.status = .filled → r.price = none →
      ∀ row ∈ st.orders, row.orderId = r.orderId → row.price = none) :
    Faithful c decisions stored (rs.foldl (storeUpdate now strategy) st) := by
  induction rs generalizing st with
  | nil => exact h
  | cons r rest ih =>
      obtain ⟨hhead, hrest⟩ := List.nodup_cons.mp hids
      obtain ⟨hf, hopen, hrows⟩ := faithful_storeUpdate h now strategy
        (hresolved r List.mem_cons_self) (hprice r List.mem_cons_self)
      have hne : ∀ r' ∈ rest, r'.orderId ≠ r.orderId := by
        intro r' hr' hsame
        exact hhead (hsame ▸ List.mem_map_of_mem hr')
      apply ih hf hrest
      · intro r' hr'
        have hstage := hresolved r' (List.mem_cons_of_mem _ hr')
        unfold stage at hstage ⊢
        rw [hopen, Dict.get?_erase_ne _ (hne r' hr').symm]
        exact hstage
      · intro r' hr' hs hnone row hrow hid
        have hold := hrows row hrow (by rw [hid]; exact hne r' hr')
        exact hprice r' (List.mem_cons_of_mem _ hr') hs hnone row hold hid

theorem faithful_reconcile (h : Faithful c decisions stored st) {now : Time}
    {strategy : OrderId → Option String}
    (hcall : CallStored c decisions (.reconcile now strategy) st) :
    Faithful c decisions stored (step c (.reconcile now strategy) st) := by
  have hmoves := moves_reconcileOpenOrders c now st.executor h.mirrors.tidy
  exact faithful_storeUpdates now strategy _ (h.moves hmoves)
    (nodup_reconcileOpenOrders c now st.executor h.mirrors.tidy)
    (returned_reconcileOpenOrders c now st.executor h.mirrors.tidy) hcall

/-! ### The other calls -/

theorem faithful_cancel (h : Faithful c decisions stored st) {id : OrderId}
    (hcall : CallStored c decisions (.cancel id) st) :
    Faithful c decisions stored (step c (.cancel id) st) := by
  show Faithful c decisions stored { st with executor := (st.executor.cancelOrder c id).2 }
  unfold cancelOrder
  cases st.executor.orderSymbols.get? id with
  | none => exact h
  | some symbol =>
      dsimp only
      rcases c.cancelOrder id symbol st.executor.world with ⟨err | answer, w⟩
      · exact h.same rfl rfl rfl rfl
      · constructor
        · refine h.kept.of_books h.kept.books ?_
          intro i p hget _
          change (st.executor.openOrders.erase id).get? i = some p at hget
          rw [Dict.get?_erase] at hget
          split_ifs at hget
          exact hget
        · have hnone : ∀ p, st.executor.openOrders.get? id = some p →
              p.awaiting decisions id = none :=
            fun p hget => Mirrored.awaiting_of_working (hcall p hget)
          show Mirrored c decisions _ _ { st.executor with
            world := w
            openOrders := st.executor.openOrders.erase id }
          exact h.mirrors.drops hnone rfl rfl rfl

/-- **One call keeps the books those of the fills, and the rows their mirror.** -/
theorem faithful_step (call : LedgerCall W) (st : StoredLedger W)
    (hcall : CallStored c decisions call st) (h : Faithful c decisions stored st) :
    Faithful c decisions stored (step c call st) := by
  cases call with
  | venue w => exact h.same rfl rfl rfl rfl
  | place req stamp strategy => exact faithful_place h hcall
  | reconcile now strategy => exact faithful_reconcile h hcall
  | cancel id => exact faithful_cancel h hcall
  | positions => exact h.moves (asides_getPositions c st.executor).moves
  | cash => exact h.moves (asides_getCash c st.executor).moves
  | price symbol price => exact h.moves (asides_updatePrice c st.executor symbol price).moves

/-- What a run keeps. -/
theorem faithful_run {t : OrderTable} {fresh : CcxtExecutor W} (h : Loadable c t fresh) (now : Time)
    (calls : List (LedgerCall W))
    (hcalls : EachStep (step c) (CallStored c decisions) calls (start c decisions t now fresh)) :
    Faithful c decisions (OrderTable.filled decisions t)
      (Lib.run (step c) calls (start c decisions t now fresh)) :=
  run_preserves faithful_step calls hcalls (faithful_start h now)

/-! ### What a restart loads -/

/-- Once every result is stored, the rows are the booked fills in some order. -/
theorem Faithful.perm (h : Faithful c decisions stored st)
    (hstored : ∀ id p, st.executor.openOrders.get? id = some p → p.resolved = none) :
    (OrderTable.filled decisions st.orders).Perm
      (stored ++ recorded decisions st.executor.journal) := by
  have hrows : (OrderTable.filled decisions st.orders).Nodup :=
    (nodup_filled h.mirrors.rows).of_map
  refine (List.perm_ext_iff_of_nodup hrows h.mirrors.once.of_map).mpr fun f => ?_
  rw [h.mirrors.mem f]
  unfold OrderTable.filled
  rw [List.mem_filterMap]
  constructor
  · exact Or.inl
  · rintro (hrow | ⟨id, p, hget, hwait⟩)
    · exact hrow
    · rw [Mirrored.awaiting_of_working (hstored id p hget)] at hwait
      cases hwait

end StoredLedger

/-- **A restart rebuilds the ledger** of every symbol that is rebuildable: the lots, and while it is
open the levels. -/
theorem ledger_rebuilt (c : ExchangeClient W) (decisions : Dict DecisionId ExitLevels)
    {t : OrderTable} {fresh : CcxtExecutor W} (h : Loadable c t fresh) (now : Time)
    (calls : List (LedgerCall W))
    (hcalls : EachStep (StoredLedger.step c) (CallStored c decisions) calls
      (StoredLedger.start c decisions t now fresh))
    (hstored : ∀ id p,
      (Lib.run (StoredLedger.step c) calls
        (StoredLedger.start c decisions t now fresh)).executor.openOrders.get? id = some p →
      p.resolved = none)
    {s : Symbol}
    (hs : Rebuildable decisions t
      (Lib.run (StoredLedger.step c) calls (StoredLedger.start c decisions t now fresh)) s)
    (restarted : CcxtExecutor W) :
    let st := Lib.run (StoredLedger.step c) calls (StoredLedger.start c decisions t now fresh)
    let loaded := restarted.loadFills (OrderTable.venueFills decisions st.orders)
    loaded.tracker.lotsOf s = st.executor.tracker.lotsOf s ∧
      (lotEpsilon < st.executor.tracker.quantity s →
        loaded.exitLevels.get? s = st.executor.exitLevels.get? s) := by
  intro st loaded
  obtain ⟨hkept, hsame⟩ := hs
  have hf := StoredLedger.faithful_run h now calls hcalls
  have hperm : (ofSymbol s (OrderTable.filled decisions st.orders)).Perm
      (ofSymbol s (OrderTable.filled decisions t ++ recorded decisions st.executor.journal)) :=
    (hf.perm hstored).filter _
  have hlots : loaded.tracker.lotsOf s = st.executor.tracker.lotsOf s := by
    calc loaded.tracker.lotsOf s
        = lotsAfter (ofSymbol s (OrderTable.filled decisions st.orders)) [] :=
          CcxtExecutor.lotsOf_loadFills restarted decisions st.orders s
      _ = lotsAfter (ofSymbol s (OrderTable.filled decisions t
            ++ recorded decisions st.executor.journal)) [] := hsame.lotsAfter hperm
      _ = st.executor.tracker.lotsOf s := (hf.kept.books.lots s hkept).symm
  refine ⟨hlots, fun hopen => ?_⟩
  have hloaded : lotEpsilon < loaded.tracker.quantity s := by
    unfold PositionTracker.quantity at hopen ⊢
    rw [hlots]
    exact hopen
  calc loaded.exitLevels.get? s
      = levelsAfter (ofSymbol s (OrderTable.filled decisions st.orders)) :=
        CcxtExecutor.levels_loadFills restarted decisions st.orders s hloaded
    _ = levelsAfter (ofSymbol s (OrderTable.filled decisions t
          ++ recorded decisions st.executor.journal)) := hsame.levelsAfter
    _ = st.executor.exitLevels.get? s := (hf.kept.books.levels s hkept hopen).symm

/-! ## Two runs -/

/-- A placement without protective orders is stored under a new id. -/
theorem callStored_place {c : ExchangeClient W} {decisions : Dict DecisionId ExitLevels}
    {st : StoredLedger W} {req : OrderRequest} {stamp : Stamp} {id : OrderId}
    (strategy : Option String)
    (hlevels : req.side = .buy →
      (req.stopLoss, req.takeProfit) = levelsOfDecision decisions req.decisionId)
    (hid : (st.executor.placeOrder c req stamp).1.toOption.map OrderResult.orderId = some id)
    (hnew : id ∉ st.orders.map OrderRow.orderId) (hpaper : isPaperOrder id = false)
    (hprotection : st.executor.protection.isSome = false) :
    CallStored c decisions (.place req stamp strategy) st := by
  refine ⟨hlevels, fun r hr => ?_⟩
  rw [hr] at hid
  obtain rfl := Option.some.inj hid
  refine ⟨hnew, hpaper, fun hfire => ?_⟩
  rw [CcxtExecutor.MayFire, hprotection] at hfire
  cases hfire.1

/-- Results with a price are stored with it. -/
theorem callStored_reconcile {c : ExchangeClient W} {decisions : Dict DecisionId ExitLevels}
    {st : StoredLedger W} {now : Time} (strategy : OrderId → Option String)
    (hpriced : ∀ r ∈ (CcxtExecutor.reconcileOpenOrders c now st.executor).1, r.price ≠ none) :
    CallStored c decisions (.reconcile now strategy) st :=
  fun r hr _ hnone => absurd hnone (hpriced r hr)

/-- Results that were all confirmed. -/
theorem unresolved_of_untracked {e : CcxtExecutor W} (h : e.openOrders.entries = []) :
    ∀ id p, e.openOrders.get? id = some p → p.resolved = none := by
  intro id p hget
  rw [← Dict.mem_entries_iff, h] at hget
  cases hget

/-- An account without protective orders and without a history. -/
def newAccount (answers : Script) : CcxtExecutor Script :=
  CcxtExecutor.create answers "EUR" VenueOrderSettings.default

theorem loadable_newAccount (answers : Script) :
    Loadable Script.client [] (newAccount answers) where
  untracked := rfl
  ids := List.nodup_nil
  pending _ h := by cases h
  children _ h := by cases h
  genuine _ h := by cases h.1

/-- The levels of one decision. -/
def stopDecision : Dict DecisionId ExitLevels := Dict.empty.set 1 (some 90, none)

/-- A limit BUY of that decision. -/
def limitBuy : OrderRequest := ⟨"BTC/EUR", .buy, 1, some 100, some 1, some 90, none⟩

def partSell : OrderRequest := ⟨"BTC/EUR", .sell, 1 / 2, some 120, none, none, none⟩

/-- A BUY rests until it is reconciled, and half of it is sold. -/
def boughtLate : Script :=
  { Script.empty with
    creates := [.ok (Script.working "1"), .ok (Script.closed "2" (1 / 2) 120)]
    fetches := [.ok (Script.working "1"), .ok (Script.closed "1" 1 100)] }

/-- What is left of the BUY is loaded with its stop. -/
theorem ledger_rebuilt_boughtLate :
    let calls : List (LedgerCall Script) := [.place limitBuy ⟨"a", 0⟩ none,
      .reconcile 1 (fun _ => none), .place partSell ⟨"b", 2⟩ none]
    let st := Lib.run (StoredLedger.step Script.client) calls
      (StoredLedger.start Script.client stopDecision [] 0 (newAccount boughtLate))
    let loaded := (newAccount Script.empty).loadFills (OrderTable.venueFills stopDecision st.orders)
    st.executor.tracker.lotsOf "BTC/EUR" = [⟨1 / 2, 100, 0, some 1⟩] ∧
      loaded.tracker.lotsOf "BTC/EUR" = st.executor.tracker.lotsOf "BTC/EUR" ∧
      loaded.exitLevels.get? "BTC/EUR" = st.executor.exitLevels.get? "BTC/EUR" := by
  intro calls st loaded
  have hcalls : EachStep (StoredLedger.step Script.client)
      (CallStored Script.client stopDecision) calls
      (StoredLedger.start Script.client stopDecision [] 0 (newAccount boughtLate)) := by
    refine ⟨?_, ?_, ?_, trivial⟩
    · exact callStored_place none (fun _ => rfl) (show _ = some "1" by decide +kernel)
        (by decide +kernel) (by decide) (by decide +kernel)
    · exact callStored_reconcile _ (by decide +kernel)
    · exact callStored_place none (by decide) (show _ = some "2" by decide +kernel)
        (by decide +kernel) (by decide) (by decide +kernel)
  have hrebuilt := ledger_rebuilt Script.client stopDecision (loadable_newAccount boughtLate) 0
    calls hcalls (unresolved_of_untracked (by decide +kernel))
    (s := "BTC/EUR") ⟨by decide +kernel, .ordered (by decide +kernel)⟩ (newAccount Script.empty)
  exact ⟨by decide +kernel, hrebuilt.1, hrebuilt.2 (by decide +kernel)⟩

/-- A BUY rests until it is reconciled, and another is filled at once. -/
def overtaken : Script :=
  { Script.empty with
    creates := [.ok (Script.working "1"), .ok (Script.closed "2" 1 110)]
    fetches := [.ok (Script.working "1"), .ok (Script.closed "1" 1 100)] }

/-- A BUY without a decision. -/
def plainBuy : OrderRequest := ⟨"BTC/EUR", .buy, 1, some 110, none, none, none⟩

/-- The resting BUY has the older row and the younger lot, so a restart turns the queue around and
loads the levels of the other BUY. -/
theorem ledger_turned_around :
    let calls : List (LedgerCall Script) := [.place limitBuy ⟨"a", 0⟩ none,
      .place plainBuy ⟨"b", 1⟩ none, .reconcile 2 (fun _ => none)]
    let start := StoredLedger.start Script.client stopDecision [] 0 (newAccount overtaken)
    let st := Lib.run (StoredLedger.step Script.client) calls start
    let loaded := (newAccount Script.empty).loadFills (OrderTable.venueFills stopDecision st.orders)
    EachStep (StoredLedger.step Script.client) (CallStored Script.client stopDecision) calls start ∧
      st.executor.openOrders.entries = [] ∧
      st.executor.tracker.lotsOf "BTC/EUR" = [⟨1, 110, 0, none⟩, ⟨1, 100, 0, some 1⟩] ∧
      loaded.tracker.lotsOf "BTC/EUR" = [⟨1, 100, 0, some 1⟩, ⟨1, 110, 0, none⟩] ∧
      st.executor.exitLevels.get? "BTC/EUR" = some (some 90, none) ∧
      loaded.exitLevels.get? "BTC/EUR" = some (none, none) := by
  refine ⟨⟨?_, ?_, ?_, trivial⟩, ?_⟩
  · exact callStored_place none (fun _ => rfl) (show _ = some "1" by decide +kernel)
      (by decide +kernel) (by decide) (by decide +kernel)
  · exact callStored_place none (fun _ => rfl) (show _ = some "2" by decide +kernel)
      (by decide +kernel) (by decide) (by decide +kernel)
  · exact callStored_reconcile _ (by decide +kernel)
  · decide +kernel

end SmartyTrader
