import SmartyTrader.Core.FillHistory
import SmartyTrader.Execution.CcxtReconciliation

set_option autoImplicit false

/-! # Restart of the ccxt executor

What a new executor is loaded with: the stored fills of its venue, with the exit levels of each
symbol's last BUY, and the orders that are stored as pending. The levels are read for a few
decisions only; `levelsAfter_lastBuys` shows that they are the ones that count.
-/

namespace SmartyTrader

open Lib

/-! ## What is read from storage -/

/-- `get_exit_levels`: the levels of the decisions asked for. -/
def getExitLevels (decisions : Dict DecisionId ExitLevels) (ids : List DecisionId) :
    Dict DecisionId ExitLevels :=
  ⟨decisions.entries.filter (fun e => e.1 ∈ ids),
    (List.filter_sublist.map Prod.fst).nodup decisions.nodup⟩

/-- `levels.get(decision_id, (None, None))`. -/
def levelsOfDecision (levels : Dict DecisionId ExitLevels) (id : Option DecisionId) : ExitLevels :=
  (id.bind levels.get?).getD (none, none)

theorem get?_getExitLevels (decisions : Dict DecisionId ExitLevels) {ids : List DecisionId}
    {id : DecisionId} (h : id ∈ ids) :
    (getExitLevels decisions ids).get? id = decisions.get? id := by
  apply Option.ext
  intro levels
  rw [← Dict.mem_entries_iff, ← Dict.mem_entries_iff]
  simp [getExitLevels, h]

/-- A stored fill of the venue: one with a price that is no paper order. -/
def OrderRow.replayable (row : OrderRow) : Bool :=
  row.status = .filled ∧ row.price.isSome ∧ isPaperOrder row.orderId = false

/-- `last_buy`: the decision of each symbol's last BUY that has one. -/
def lastBuys (rows : List OrderRow) : Dict Symbol DecisionId :=
  rows.foldl (fun d row =>
    match row.side, row.decisionId with
    | .buy, some id => d.set row.symbol id
    | _, _ => d) Dict.empty

/-- The fills that a venue executor is loaded with. -/
def OrderTable.venueFills (decisions : Dict DecisionId ExitLevels) (t : OrderTable) :
    List FillRecord :=
  let rows := t.filter OrderRow.replayable
  rows.filterMap (venueFill (getExitLevels decisions (lastBuys rows).values))

/-- The orders that a venue executor is loaded with. -/
def OrderTable.pendingRecords (decisions : Dict DecisionId ExitLevels) (t : OrderTable) :
    List PendingOrderRecord :=
  let rows := (OrderTable.getPendingOrders t).filter (fun row =>
    row.orderId ≠ "" ∧ isPaperOrder row.orderId = false)
  let levels := getExitLevels decisions (rows.filterMap OrderRow.decisionId)
  rows.map (fun row =>
    { orderId := row.orderId
      symbol := row.symbol
      side := row.side
      quantity := row.quantity
      decisionId := row.decisionId
      stopLoss := (levelsOfDecision levels row.decisionId).1
      takeProfit := (levelsOfDecision levels row.decisionId).2
      placedAt := some row.createdAt
      price := row.price })

/-! ## The fills of the rows -/

/-- What a row is in a replay that knows the levels of every decision. -/
def OrderRow.replayed (decisions : Dict DecisionId ExitLevels) (row : OrderRow) :
    Option FillRecord :=
  if row.status = .filled then venueFill decisions row else none

/-- The fills of a table, in the order of their rows. -/
def OrderTable.filled (decisions : Dict DecisionId ExitLevels) (t : OrderTable) :
    List FillRecord :=
  t.filterMap (OrderRow.replayed decisions)

theorem replayed_of_not_replayable (levels : Dict DecisionId ExitLevels) {row : OrderRow}
    (h : row.replayable = false) : row.replayed levels = none := by
  unfold OrderRow.replayed venueFill
  by_cases hstatus : row.status = .filled
  · by_cases hpaper : isPaperOrder row.orderId = true
    · rw [if_pos hstatus, if_pos hpaper]
    · cases hprice : row.price with
      | none => rw [if_pos hstatus, if_neg hpaper, Option.map_none]
      | some price => simp [OrderRow.replayable, hstatus, hprice, hpaper] at h
  · rw [if_neg hstatus]

theorem venueFill_of_replayable (levels : Dict DecisionId ExitLevels) {row : OrderRow}
    (h : row.replayable = true) : venueFill levels row = row.replayed levels := by
  have hstatus : row.status = .filled := by
    simp only [OrderRow.replayable, decide_eq_true_eq] at h
    exact h.1
  rw [OrderRow.replayed, if_pos hstatus]

theorem filterMap_replayable (levels : Dict DecisionId ExitLevels) (t : OrderTable) :
    (t.filter OrderRow.replayable).filterMap (venueFill levels) = OrderTable.filled levels t := by
  induction t with
  | nil => rfl
  | cons row rest ih =>
      unfold OrderTable.filled at ih ⊢
      by_cases h : row.replayable = true
      · rw [List.filter_cons_of_pos h, List.filterMap_cons, List.filterMap_cons,
          venueFill_of_replayable levels h, ih]
      · rw [List.filter_cons_of_neg h, List.filterMap_cons,
          replayed_of_not_replayable levels (by simpa using h), ih]

theorem venueFills_eq (decisions : Dict DecisionId ExitLevels) (t : OrderTable) :
    OrderTable.venueFills decisions t
      = OrderTable.filled
          (getExitLevels decisions (lastBuys (t.filter OrderRow.replayable)).values) t :=
  filterMap_replayable _ t

/-- The levels aside, a row is the same fill whatever levels are known. -/
theorem bookLots_replayed (levels levels' : Dict DecisionId ExitLevels) (row : OrderRow) :
    (row.replayed levels).map (fun f => (f.symbol, f.bookLots))
      = (row.replayed levels').map (fun f => (f.symbol, f.bookLots)) := by
  unfold OrderRow.replayed
  by_cases hstatus : row.status = .filled
  · rw [if_pos hstatus, if_pos hstatus]
    exact read_levels .venue levels levels' row
  · rw [if_neg hstatus, if_neg hstatus]

theorem lotsAfter_filled (levels levels' : Dict DecisionId ExitLevels) (t : OrderTable) (s : Symbol)
    (ls : List Lot) :
    lotsAfter (ofSymbol s (OrderTable.filled levels t)) ls
      = lotsAfter (ofSymbol s (OrderTable.filled levels' t)) ls := by
  induction t generalizing ls with
  | nil => rfl
  | cons row rest ih =>
      unfold OrderTable.filled at ih ⊢
      have hrow := bookLots_replayed levels levels' row
      rw [List.filterMap_cons, List.filterMap_cons]
      cases hf : row.replayed levels with
      | none =>
          rw [hf, Option.map_none, eq_comm, Option.map_eq_none_iff] at hrow
          rw [hrow]
          exact ih ls
      | some f =>
          rw [hf, Option.map_some, eq_comm, Option.map_eq_some_iff] at hrow
          obtain ⟨g, hg, hsame⟩ := hrow
          obtain ⟨hsymbol, hbook⟩ := Prod.mk.inj hsame
          rw [hg]
          dsimp only
          unfold ofSymbol at ih ⊢
          by_cases hs : f.symbol = s
          · rw [List.filter_cons_of_pos (by simpa using hs),
              List.filter_cons_of_pos (by simpa [hsymbol] using hs)]
            show lotsAfter _ (f.bookLots ls) = lotsAfter _ (g.bookLots ls)
            rw [hbook]
            exact ih _
          · rw [List.filter_cons_of_neg (by simpa using hs),
              List.filter_cons_of_neg (by simpa [hsymbol] using hs)]
            exact ih ls

theorem filled_append (levels : Dict DecisionId ExitLevels) (t t' : OrderTable) :
    OrderTable.filled levels (t ++ t')
      = OrderTable.filled levels t ++ OrderTable.filled levels t' := List.filterMap_append

theorem filled_singleton (levels : Dict DecisionId ExitLevels) (row : OrderRow) :
    OrderTable.filled levels [row] = (row.replayed levels).toList := by
  unfold OrderTable.filled
  cases h : row.replayed levels with
  | none => rw [List.filterMap_cons_none h, List.filterMap_nil, Option.toList_none]
  | some f => rw [List.filterMap_cons_some h, List.filterMap_nil, Option.toList_some]

/-- The fill of a row, field by field. -/
structure OrderRow.FillIs (row : OrderRow) (levels : Dict DecisionId ExitLevels) (f : FillRecord) :
    Prop where
  orderId : f.orderId = some row.orderId
  symbol : f.symbol = row.symbol
  side : f.side = some row.side
  levels : (f.stopLoss, f.takeProfit)
    = if row.side = .buy then levelsOfDecision levels row.decisionId else (none, none)

theorem fillIs_of_replayed {levels : Dict DecisionId ExitLevels} {row : OrderRow} {f : FillRecord}
    (h : row.replayed levels = some f) : row.FillIs levels f := by
  have hrow : row.replayable = true := by
    by_contra hnot
    rw [replayed_of_not_replayable levels (by simpa using hnot)] at h
    cases h
  simp only [OrderRow.replayable, decide_eq_true_eq] at hrow
  unfold OrderRow.replayed venueFill at h
  rw [if_pos hrow.1, hrow.2.2, if_neg (by simp)] at h
  obtain ⟨price, -, rfl⟩ := Option.map_eq_some_iff.mp h
  exact ⟨rfl, rfl, rfl, apply_ite (fun x : ExitLevels => (x.1, x.2)) _ _ _⟩

/-- A row that can be replayed is a fill. -/
theorem exists_replayed (levels : Dict DecisionId ExitLevels) {row : OrderRow}
    (h : row.replayable = true) : ∃ f, row.replayed levels = some f := by
  simp only [OrderRow.replayable, decide_eq_true_eq] at h
  obtain ⟨hstatus, hprice, hpaper⟩ := h
  obtain ⟨price, hprice⟩ := Option.isSome_iff_exists.mp hprice
  unfold OrderRow.replayed venueFill
  simp [hstatus, hprice, hpaper]

/-- The decision of a symbol's last BUY after one more row. -/
theorem lastBuys_concat (rows : List OrderRow) (row : OrderRow) (s : Symbol) :
    (lastBuys (rows ++ [row])).get? s =
      if row.symbol = s ∧ row.side = .buy ∧ row.decisionId.isSome then row.decisionId
      else (lastBuys rows).get? s := by
  unfold lastBuys
  rw [List.foldl_append, List.foldl_cons, List.foldl_nil]
  generalize List.foldl _ Dict.empty rows = d
  cases hside : row.side with
  | sell => simp
  | buy =>
      cases hid : row.decisionId with
      | none => simp
      | some id =>
          dsimp only
          rw [Dict.get?_set]
          by_cases hs : row.symbol = s <;> simp [hs]

/-- **The decisions of the last BUYs are enough** to know the levels of every symbol. -/
theorem levelsAfter_lastBuys (decisions : Dict DecisionId ExitLevels) (t : OrderTable) (s : Symbol)
    {ids : List DecisionId}
    (hids : ∀ id, (lastBuys (t.filter OrderRow.replayable)).get? s = some id → id ∈ ids) :
    levelsAfter (ofSymbol s (OrderTable.filled (getExitLevels decisions ids) t))
      = levelsAfter (ofSymbol s (OrderTable.filled decisions t)) := by
  induction t using List.reverseRecOn with
  | nil => rfl
  | append_singleton rest row ih =>
      rw [filled_append, filled_append, filled_singleton, filled_singleton]
      rw [List.filter_append] at hids
      by_cases hrow : row.replayable = true
      · rw [List.filter_cons_of_pos hrow, List.filter_nil] at hids
        obtain ⟨f, hf⟩ := exists_replayed (getExitLevels decisions ids) hrow
        obtain ⟨g, hg⟩ := exists_replayed decisions hrow
        have hfis := fillIs_of_replayed hf
        have hgis := fillIs_of_replayed hg
        rw [hf, hg, Option.toList_some, Option.toList_some]
        by_cases hs : row.symbol = s
        · subst hs
          rw [← hfis.symbol, ofSymbol_concat_self, hfis.symbol, ← hgis.symbol,
            ofSymbol_concat_self, hgis.symbol]
          cases hside : row.side with
          | buy =>
              have hfbuy : f.side = some .buy := by rw [hfis.side, hside]
              have hgbuy : g.side = some .buy := by rw [hgis.side, hside]
              rw [levelsAfter_buy _ hfbuy, levelsAfter_buy _ hgbuy, hfis.levels, hgis.levels,
                if_pos hside, if_pos hside]
              -- The decision of this BUY is among the ids, if it has one.
              cases hid : row.decisionId with
              | none => rfl
              | some id =>
                  have hmem : id ∈ ids := by
                    apply hids
                    rw [lastBuys_concat, hside, hid]
                    simp
                  unfold levelsOfDecision
                  rw [Option.bind_some, Option.bind_some, get?_getExitLevels decisions hmem]
          | sell =>
              have hfsell : f.side ≠ some .buy := by
                rw [hfis.side, hside]
                decide
              have hgsell : g.side ≠ some .buy := by
                rw [hgis.side, hside]
                decide
              rw [levelsAfter_other _ hfsell, levelsAfter_other _ hgsell]
              apply ih
              intro id hid
              apply hids
              rw [lastBuys_concat, hside]
              simpa using hid
        · rw [ofSymbol_concat_ne _ (by rw [hfis.symbol]; exact hs),
            ofSymbol_concat_ne _ (by rw [hgis.symbol]; exact hs)]
          apply ih
          intro id hid
          apply hids
          rw [lastBuys_concat, if_neg (fun h => hs h.1)]
          exact hid
      · have hnone : row.replayable = false := by simpa using hrow
        rw [replayed_of_not_replayable _ hnone, replayed_of_not_replayable _ hnone,
          Option.toList_none, List.append_nil, List.append_nil]
        rw [List.filter_cons_of_neg hrow, List.filter_nil, List.append_nil] at hids
        exact ih hids

theorem levelsAfter_venueFills (decisions : Dict DecisionId ExitLevels) (t : OrderTable)
    (s : Symbol) : levelsAfter (ofSymbol s (OrderTable.venueFills decisions t))
      = levelsAfter (ofSymbol s (OrderTable.filled decisions t)) := by
  rw [venueFills_eq]
  apply levelsAfter_lastBuys
  intro id hid
  exact (Dict.mem_values_iff _ _).mpr ⟨s, hid⟩

/-! ## The restarted executor -/

namespace CcxtExecutor

variable {W : Type}

/-- `rehydrate_venue_executor`, before the protective orders are restored. -/
def reloaded (decisions : Dict DecisionId ExitLevels) (t : OrderTable) (now : Time)
    (e : CcxtExecutor W) : CcxtExecutor W :=
  (e.loadFills (OrderTable.venueFills decisions t)).loadPendingOrders
    (OrderTable.pendingRecords decisions t) now

/-- `rehydrate_venue_executor`. -/
def rehydrateVenueExecutor (c : ExchangeClient W) (decisions : Dict DecisionId ExitLevels)
    (t : OrderTable) (now : Time) (e : CcxtExecutor W) : CcxtExecutor W :=
  restoreProtection c now (e.reloaded decisions t now)

/-- The ledger that a restart rebuilds has the lots of the stored fills. -/
theorem lotsOf_loadFills (e : CcxtExecutor W) (decisions : Dict DecisionId ExitLevels)
    (t : OrderTable) (s : Symbol) :
    (e.loadFills (OrderTable.venueFills decisions t)).tracker.lotsOf s
      = lotsAfter (ofSymbol s (OrderTable.filled decisions t)) [] := by
  have hreplay : (e.loadFills (OrderTable.venueFills decisions t)).tracker.lotsOf s
      = lotsAfter (ofSymbol s (OrderTable.venueFills decisions t)) [] :=
    lotsOf_replayFills _ s
  rw [hreplay, venueFills_eq]
  exact lotsAfter_filled _ _ t s []

/-- Of a symbol that is open it has the levels of the last stored BUY. -/
theorem levels_loadFills (e : CcxtExecutor W) (decisions : Dict DecisionId ExitLevels)
    (t : OrderTable) (s : Symbol)
    (h : lotEpsilon
      < (e.loadFills (OrderTable.venueFills decisions t)).tracker.quantity s) :
    (e.loadFills (OrderTable.venueFills decisions t)).exitLevels.get? s
      = levelsAfter (ofSymbol s (OrderTable.filled decisions t)) := by
  rw [← levelsAfter_venueFills]
  exact levels_replayFills _ s h

/-- The order that is tracked for a stored one. -/
def trackedAgain (o : PendingOrderRecord) (now : Time) : PendingOrder :=
  ⟨o.symbol, o.side, o.quantity, o.decisionId, o.stopLoss, o.takeProfit, none,
    some (o.placedAt.getD now), o.price⟩

/-- Loading pending orders tracks them and knows their ids. -/
structure Reloads (orders : List PendingOrderRecord) (now : Time) (e e' : CcxtExecutor W) :
    Prop where
  tracker : e'.tracker = e.tracker
  exitLevels : e'.exitLevels = e.exitLevels
  journal : e'.journal = e.journal
  protection : e'.protection = e.protection
  known : ∀ id ∈ e.knownOrderIds, id ∈ e'.knownOrderIds
  orders : ∀ id p, e'.openOrders.get? id = some p → e.openOrders.get? id = some p ∨
    ∃ o ∈ orders, o.orderId = id ∧ p = trackedAgain o now

theorem reloads_loadPendingOrders (orders : List PendingOrderRecord) (now : Time)
    (e : CcxtExecutor W) : Reloads orders now e (e.loadPendingOrders orders now) := by
  unfold loadPendingOrders
  induction orders generalizing e with
  | nil => exact ⟨rfl, rfl, rfl, rfl, fun _ h => h, fun _ _ h => Or.inl h⟩
  | cons o rest ih =>
      rw [List.foldl_cons]
      by_cases hid : o.orderId = ""
      · rw [if_pos hid]
        have hrest := ih e
        refine ⟨hrest.tracker, hrest.exitLevels, hrest.journal, hrest.protection, hrest.known, ?_⟩
        intro id p hget
        rcases hrest.orders id p hget with hold | ⟨o', ho', hp⟩
        · exact Or.inl hold
        · exact Or.inr ⟨o', List.mem_cons_of_mem _ ho', hp⟩
      · rw [if_neg hid]
        have hrest := ih { e with
          orderSymbols := e.orderSymbols.set o.orderId o.symbol
          knownOrderIds := o.orderId :: e.knownOrderIds
          openOrders := e.openOrders.setDefault o.orderId (trackedAgain o now) }
        refine ⟨hrest.tracker, hrest.exitLevels, hrest.journal, hrest.protection, ?_, ?_⟩
        · intro id hmem
          exact hrest.known id (List.mem_cons_of_mem _ hmem)
        · intro id p hget
          rcases hrest.orders id p hget with hold | ⟨o', ho', hp⟩
          · rw [Dict.get?_setDefault] at hold
            by_cases hsame : o.orderId = id
            · rw [if_pos hsame] at hold
              cases hg : e.openOrders.get? o.orderId with
              | none =>
                  rw [hg, Option.getD_none] at hold
                  exact Or.inr ⟨o, List.mem_cons_self, hsame, (Option.some.inj hold).symm⟩
              | some p' =>
                  rw [hg, Option.getD_some] at hold
                  rw [← hsame, hg]
                  exact Or.inl hold
            · rw [if_neg hsame] at hold
              exact Or.inl hold
          · exact Or.inr ⟨o', List.mem_cons_of_mem _ ho', hp⟩

/-- A pending record comes from a pending row, with the levels of its decision. -/
theorem of_mem_pendingRecords {decisions : Dict DecisionId ExitLevels} {t : OrderTable}
    {o : PendingOrderRecord} (h : o ∈ OrderTable.pendingRecords decisions t) :
    ∃ row ∈ t, row.status = .pending ∧ isPaperOrder row.orderId = false ∧
      o.orderId = row.orderId ∧ o.symbol = row.symbol ∧ o.side = row.side ∧
      o.decisionId = row.decisionId ∧
      (o.stopLoss, o.takeProfit) = levelsOfDecision decisions row.decisionId := by
  unfold OrderTable.pendingRecords OrderTable.getPendingOrders at h
  obtain ⟨row, hrow, rfl⟩ := List.mem_map.mp h
  obtain ⟨hpending, hid⟩ := List.mem_filter.mp hrow
  obtain ⟨hmem, hstatus⟩ := List.mem_filter.mp hpending
  rw [decide_eq_true_eq] at hid hstatus
  refine ⟨row, hmem, hstatus, hid.2, rfl, rfl, rfl, rfl, ?_⟩
  cases hdecision : row.decisionId with
  | none => rfl
  | some id =>
      have hread : id ∈ List.filterMap OrderRow.decisionId _ :=
        List.mem_filterMap.mpr ⟨row, hrow, hdecision⟩
      simp only [levelsOfDecision, Option.bind_some, get?_getExitLevels decisions hread]

/-- The orders that a loaded executor tracks, if it tracked none before. -/
theorem tracked_reloaded {decisions : Dict DecisionId ExitLevels} {t : OrderTable}
    {fresh : CcxtExecutor W} (h : fresh.openOrders = Dict.empty) {now : Time} {id : OrderId}
    {p : PendingOrder} (hget : (fresh.reloaded decisions t now).openOrders.get? id = some p) :
    ∃ o ∈ OrderTable.pendingRecords decisions t, o.orderId = id ∧ p = trackedAgain o now := by
  rcases (reloads_loadPendingOrders _ now (fresh.loadFills _)).orders id p hget with hold | hnew
  · have hempty : fresh.openOrders.get? id = some p := hold
    rw [h] at hempty
    cases hempty
  · exact hnew

end CcxtExecutor

/-! ## Restoring the protective orders -/

namespace ProtectiveOrders

variable {W : Type} (c : ExchangeClient W)

theorem listed_later {fetch : AlgoKind → W → Except PyError (List RawAlgo) × W}
    (h : ∀ k w, VenueCall c w (fetch k w).2) (w : W) : Later c w (listed fetch w).2 :=
  (h .oco w).later.trans (h .conditional _).later

/-- The closed orders listed of a symbol name children. -/
theorem isChild_of_listed {s : Symbol} {w : W} {raw : RawAlgo}
    (h : raw ∈ (listed (c.fetchClosedAlgos s 100) w).1) : IsChild c raw.childId := by
  have key : ∀ k w₀, raw ∈ ((c.fetchClosedAlgos s 100 k w₀).1.toOption.getD []) →
      IsChild c raw.childId := by
    intro k w₀ hmem
    cases hr : (c.fetchClosedAlgos s 100 k w₀).1 with
    | error err =>
        rw [hr] at hmem
        cases hmem
    | ok l =>
        rw [hr] at hmem
        exact Or.inr ⟨s, 100, k, w₀, l, hr, raw, hmem, rfl⟩
  rcases List.mem_append.mp h with hmem | hmem
  · exact key _ _ hmem
  · exact key _ _ hmem

theorem adoptClosed_children (s : Symbol) (known : List OrderId) (raws : List RawAlgo) (w : W)
    (hraws : ∀ raw ∈ raws, IsChild c raw.childId) :
    Later c w (adoptClosed c s known raws w).2 ∧
      ∀ t ∈ (adoptClosed c s known raws w).1, IsChild c t.childId := by
  induction raws generalizing w with
  | nil => exact ⟨Relation.ReflTransGen.refl, fun t ht => by cases ht⟩
  | cons raw rest ih =>
      have hrest : ∀ raw ∈ rest, IsChild c raw.childId :=
        fun r hr => hraws r (List.mem_cons_of_mem _ hr)
      unfold adoptClosed
      split_ifs
      · exact ih w hrest
      · obtain ⟨h₁, h₂⟩ := checkChild_spec c ⟨orText raw.id "", s, 0, none, none⟩ raw w
        obtain ⟨h₃, h₄⟩ := ih (checkChild c ⟨orText raw.id "", s, 0, none, none⟩ raw w).2 hrest
        refine ⟨h₁.trans h₃, fun t ht => ?_⟩
        rcases List.mem_append.mp ht with ht | ht
        · rw [(h₂ t (Option.mem_toList.mp ht)).1]
          exact hraws raw List.mem_cons_self
        · exact h₄ t ht

theorem withdrawOpen_later (s : Symbol) (raws : List RawAlgo) (w : W) :
    Later c w (withdrawOpen c s raws w) := by
  induction raws generalizing w with
  | nil => exact Relation.ReflTransGen.refl
  | cons raw rest ih =>
      unfold withdrawOpen
      split_ifs
      · exact (VenueCall.cancelAlgo (c := c) _ s w).later.trans (ih _)
      · exact ih w

theorem adopt_children (known : List OrderId) (symbols : List Symbol) (w : W) :
    Later c w (adopt c known symbols w).2 ∧
      ∀ t ∈ (adopt c known symbols w).1, IsChild c t.childId := by
  induction symbols generalizing w with
  | nil => exact ⟨Relation.ReflTransGen.refl, fun t ht => by cases ht⟩
  | cons s rest ih =>
      unfold adopt
      dsimp only
      have h₁ := listed_later c (fun k w => VenueCall.fetchClosedAlgos (c := c) s 100 k w) w
      obtain ⟨h₂, hfired⟩ := adoptClosed_children c s known
        (listed (c.fetchClosedAlgos s 100) w).1 (listed (c.fetchClosedAlgos s 100) w).2
        (fun raw hraw => isChild_of_listed c hraw)
      generalize adoptClosed c s known (listed (c.fetchClosedAlgos s 100) w).1
        (listed (c.fetchClosedAlgos s 100) w).2 = fired at h₂ hfired ⊢
      have h₃ := listed_later c (fun k w => VenueCall.fetchOpenAlgos (c := c) s k w) fired.2
      have h₄ := withdrawOpen_later c s (listed (c.fetchOpenAlgos s) fired.2).1
        (listed (c.fetchOpenAlgos s) fired.2).2
      obtain ⟨h₅, hrest⟩ := ih (withdrawOpen c s (listed (c.fetchOpenAlgos s) fired.2).1
        (listed (c.fetchOpenAlgos s) fired.2).2)
      refine ⟨h₁.trans (h₂.trans (h₃.trans (h₄.trans h₅))), fun t ht => ?_⟩
      rcases List.mem_append.mp ht with ht | ht
      · exact hfired t ht
      · exact hrest t ht

end ProtectiveOrders

namespace CcxtExecutor

variable {W : Type}

/-- Restoring the protective orders is a sequence of moves aside. -/
theorem asides_restoreProtection (c : ExchangeClient W) (now : Time) (e : CcxtExecutor W) :
    Asides c e (restoreProtection c now e) := by
  unfold restoreProtection
  split
  · exact Relation.ReflTransGen.refl
  · rename_i p hp
    have hm := quietly_ensureMarkets c e
    have hsome : (e.ensureMarkets c).protection.isSome := by rw [hm.protection, hp]; rfl
    obtain ⟨hl, hfired⟩ := ProtectiveOrders.adopt_children c (e.ensureMarkets c).knownOrderIds
      (e.ensureMarkets c).tracker.symbols (e.ensureMarkets c).world
    have hbook := asides_bookFired c now _ { e.ensureMarkets c with
      world := (ProtectiveOrders.adopt c (e.ensureMarkets c).knownOrderIds
        (e.ensureMarkets c).tracker.symbols (e.ensureMarkets c).world).2 } hsome hfired
    exact hm.asides.trans ((asides_world c _ hl).trans
      (hbook.trans (asides_syncEach c now _ _)))

end CcxtExecutor

end SmartyTrader
