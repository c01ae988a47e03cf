import SmartyTrader.Execution.CcxtRestart
import SmartyTrader.Execution.CcxtPipeline

set_option autoImplicit false

/-! # Entries

An entry of a symbol is an open lot or a BUY order that still works at the venue, under the decision
behind it (`HasEntry`). Nothing but the placement of a BUY makes one: a fill turns the entry of its
order into that of its lot, and sales, write-offs and confirmations only take entries away. A
restart brings back entries of stored BUYs.
-/

namespace SmartyTrader

open Lib

variable {W : Type}

/-! ## Entries of a ledger -/

/-- The lots after a fill have the decisions of lots that were there, or the fill is a BUY. -/
theorem tags_bookLots {f : FillRecord} {ls : List Lot} {d : Option DecisionId}
    (h : d ∈ (f.bookLots ls).map Fifo.Lot.tag) :
    d ∈ ls.map Fifo.Lot.tag ∨ f.side = some .buy ∧ f.decisionId = d := by
  rcases hside : f.side with _ | _ | _
  · left
    unfold FillRecord.bookLots at h
    rw [hside] at h
    exact h
  · rw [bookLots_buy hside, List.map_append, List.mem_append] at h
    rcases h with hold | hnew
    · exact Or.inl hold
    · unfold FillRecord.lot? at hnew
      by_cases hq : f.booked ≤ 0
      · rw [if_pos hq] at hnew
        cases hnew
      · rw [if_neg hq] at hnew
        exact Or.inr ⟨rfl, (List.mem_singleton.mp hnew).symm⟩
  · left
    unfold FillRecord.bookLots at h
    rw [hside] at h
    dsimp only at h
    split_ifs at h
    · exact h
    · exact (tags_consume _ _ _ _ _ _).subset h

/-- The lots after some fills, from none on, have the decisions of BUYs. -/
theorem tags_lotsAfter {fills : List FillRecord} {d : Option DecisionId}
    (h : d ∈ (lotsAfter fills []).map Fifo.Lot.tag) :
    ∃ f ∈ fills, f.side = some .buy ∧ f.decisionId = d := by
  induction fills using List.reverseRecOn with
  | nil => cases h
  | append_singleton fills f ih =>
      unfold lotsAfter at h ih
      rw [List.foldl_append, List.foldl_cons, List.foldl_nil] at h
      rcases tags_bookLots h with hold | hnew
      · obtain ⟨g, hg, hbuy⟩ := ih hold
        exact ⟨g, List.mem_append_left _ hg, hbuy⟩
      · exact ⟨f, List.mem_append_right _ List.mem_cons_self, hnew⟩

theorem decisionId_replayed {levels : Dict DecisionId ExitLevels} {row : OrderRow}
    {f : FillRecord} (h : row.replayed levels = some f) : f.decisionId = row.decisionId := by
  unfold OrderRow.replayed venueFill at h
  split_ifs at h
  all_goals
    obtain ⟨price, -, rfl⟩ := Option.map_eq_some_iff.mp h
    rfl

/-- The entry that an order on this side makes. -/
def Enters (side : OrderSide) (symbol : Symbol) (decisionId : Option DecisionId) (s : Symbol)
    (d : Option DecisionId) : Prop :=
  side = .buy ∧ symbol = s ∧ decisionId = d

theorem not_enters_sell {symbol s : Symbol} {decisionId d : Option DecisionId} :
    ¬ Enters .sell symbol decisionId s d := by
  rintro ⟨hside, -⟩
  cases hside

theorem entryDecisionIds_bookFill (t : PositionTracker) (symbol : Symbol) (side : OrderSide)
    (q price feeBase feeQuote : ℚ) (decisionId : Option DecisionId) {s : Symbol}
    {d : Option DecisionId}
    (h : d ∈ (bookFill t symbol side q price feeBase feeQuote decisionId).2.entryDecisionIds s) :
    d ∈ t.entryDecisionIds s ∨ Enters side symbol decisionId s d := by
  have hlots : (bookFill t symbol side q price feeBase feeQuote decisionId).2.lotsOf s = _ :=
    lotsOf_replayStep ⟨t, Dict.empty, 0⟩
      ⟨symbol, some side, q, price, decisionId, none, none, feeBase, feeQuote, none⟩ s
  unfold PositionTracker.entryDecisionIds at h ⊢
  rw [hlots] at h
  split_ifs at h with hs
  · rcases tags_bookLots h with hold | ⟨hside, hd⟩
    · exact Or.inl hold
    · exact Or.inr ⟨Option.some.inj hside, hs, hd⟩
  · exact Or.inl h

namespace CcxtExecutor

/-- An open lot or a working BUY order of the symbol, under its decision. -/
def HasEntry (e : CcxtExecutor W) (s : Symbol) (d : Option DecisionId) : Prop :=
  d ∈ e.tracker.entryDecisionIds s ∨ d ∈ e.pendingEntryDecisionIds s

theorem mem_pendingEntryDecisionIds_iff (e : CcxtExecutor W) (s : Symbol) (d : Option DecisionId) :
    d ∈ e.pendingEntryDecisionIds s ↔ ∃ id p, e.openOrders.get? id = some p ∧ p.symbol = s ∧
      p.side = .buy ∧ p.resolved = none ∧ p.decisionId = d := by
  unfold pendingEntryDecisionIds
  simp only [List.mem_map, List.mem_filter, Dict.mem_values_iff, decide_eq_true_eq]
  constructor
  · rintro ⟨p, ⟨⟨id, hget⟩, hs, hside, hp⟩, hd⟩
    exact ⟨id, p, hget, hs, hside, hp, hd⟩
  · rintro ⟨id, p, hget, hs, hside, hp, hd⟩
    exact ⟨p, ⟨⟨id, hget⟩, hs, hside, hp⟩, hd⟩

/-- Entries after a change of ledger and orders. -/
theorem HasEntry.of_change {e e' : CcxtExecutor W} {P : Symbol → Option DecisionId → Prop}
    (ht : ∀ s d, d ∈ e'.tracker.entryDecisionIds s → e.HasEntry s d ∨ P s d)
    (ho : ∀ id p, e'.openOrders.get? id = some p → p.side = .buy → p.resolved = none →
      e.HasEntry p.symbol p.decisionId ∨ P p.symbol p.decisionId) {s : Symbol}
    {d : Option DecisionId} (h : e'.HasEntry s d) : e.HasEntry s d ∨ P s d := by
  rcases h with hlot | hworks
  · exact ht s d hlot
  · obtain ⟨id, p, hget, rfl, hside, hp, rfl⟩ := (e'.mem_pendingEntryDecisionIds_iff s d).mp hworks
    exact ho id p hget hside hp

theorem HasEntry.of_working {e : CcxtExecutor W} {id : OrderId} {p : PendingOrder}
    (hget : e.openOrders.get? id = some p) (hside : p.side = .buy) (hp : p.resolved = none) :
    e.HasEntry p.symbol p.decisionId :=
  Or.inr ((e.mem_pendingEntryDecisionIds_iff _ _).mpr ⟨id, p, hget, rfl, hside, hp, rfl⟩)

/-- Entries after some orders are no longer tracked. -/
theorem HasEntry.of_orders {e e' : CcxtExecutor W} {s : Symbol} {d : Option DecisionId}
    (h : e'.HasEntry s d) (ht : e'.tracker = e.tracker)
    (ho : ∀ id p, e'.openOrders.get? id = some p → e.openOrders.get? id = some p) :
    e.HasEntry s d := by
  rcases h with hlot | hworks
  · exact Or.inl (ht ▸ hlot)
  · obtain ⟨id, p, hget, hp⟩ := (e'.mem_pendingEntryDecisionIds_iff s d).mp hworks
    exact Or.inr ((e.mem_pendingEntryDecisionIds_iff s d).mpr ⟨id, p, ho id p hget, hp⟩)

/-! ## Lots

Only a booked BUY makes a lot. -/

theorem lots_writeOffDust (e : CcxtExecutor W) (symbol : Symbol) {s : Symbol}
    {d : Option DecisionId} (h : d ∈ (e.writeOffDust symbol).tracker.entryDecisionIds s) :
    d ∈ e.tracker.entryDecisionIds s := by
  unfold writeOffDust at h
  dsimp only at h
  split_ifs at h
  · unfold PositionTracker.entryDecisionIds at h ⊢
    rw [PositionTracker.lotsOf_discard] at h
    split_ifs at h
    · cases h
    · exact h
  · exact h

theorem lots_recordFill (e : CcxtExecutor W) (f : BookedFill) {s : Symbol} {d : Option DecisionId}
    (h : d ∈ (e.recordFill f).2.tracker.entryDecisionIds s) :
    d ∈ e.tracker.entryDecisionIds s ∨ Enters f.side f.symbol f.decisionId s d := by
  rcases e.recordFill_cases f with hr | ⟨-, hr⟩
  · rw [hr] at h
    exact entryDecisionIds_bookFill _ _ _ _ _ _ _ _ h
  · rw [hr] at h
    exact entryDecisionIds_bookFill _ _ _ _ _ _ _ _ (lots_writeOffDust _ _ h)

theorem tracker_bookTriggered (e : CcxtExecutor W) (t : Triggered) (now : Time) :
    (e.bookTriggered t now).tracker = e.tracker ∨
      (e.bookTriggered t now).tracker = ((e.know t.childId).bookChild t now).2.tracker := by
  unfold bookTriggered
  split_ifs
  · exact Or.inl rfl
  · exact Or.inr (ledger_dropFlatLevels _ t.symbol).1

theorem lots_bookTriggered (e : CcxtExecutor W) (t : Triggered) (now : Time) {s : Symbol}
    {d : Option DecisionId} (h : d ∈ (e.bookTriggered t now).tracker.entryDecisionIds s) :
    d ∈ e.tracker.entryDecisionIds s := by
  rcases e.tracker_bookTriggered t now with ht | ht
  · rwa [ht] at h
  · rw [ht] at h
    unfold bookChild at h
    dsimp only at h
    split at h
    · exact h
    · exact (lots_recordFill _ _ h).resolve_right not_enters_sell

theorem Aside.lots {c : ExchangeClient W} {e e' : CcxtExecutor W} (ha : Aside c e e')
    {s : Symbol} {d : Option DecisionId} (h : d ∈ e'.tracker.entryDecisionIds s) :
    d ∈ e.tracker.entryDecisionIds s := by
  cases ha with
  | quiet hq => rwa [hq.tracker] at h
  | dust symbol => exact lots_writeOffDust e symbol h
  | fired t now hp hc hk => exact lots_bookTriggered e t now h

/-- What is done beside an order makes no lot. -/
theorem Asides.lots {c : ExchangeClient W} {e e' : CcxtExecutor W} (ha : Asides c e e')
    {s : Symbol} {d : Option DecisionId} (h : d ∈ e'.tracker.entryDecisionIds s) :
    d ∈ e.tracker.entryDecisionIds s := by
  induction ha with
  | refl => exact h
  | tail _ hstep ih => exact ih (hstep.lots h)

/-! ## Moves make no entry -/

theorem entries_recordFill (e : CcxtExecutor W) (f : BookedFill) {s : Symbol}
    {d : Option DecisionId} (h : (e.recordFill f).2.HasEntry s d) :
    e.HasEntry s d ∨ Enters f.side f.symbol f.decisionId s d := by
  rcases h with hlot | hworks
  · exact (lots_recordFill e f hlot).imp_left Or.inl
  · unfold pendingEntryDecisionIds at hworks
    rw [(frame_recordFill e f).openOrders] at hworks
    exact Or.inl (Or.inr hworks)

/-- A ledger that saw at most one fill, under the same orders but one that is resolved. -/
theorem HasEntry.of_fill {e e₁ e' : CcxtExecutor W} {P : Symbol → Option DecisionId → Prop}
    {id : OrderId} {p : PendingOrder} (h : ∀ s d, e₁.HasEntry s d → e.HasEntry s d ∨ P s d)
    (ht : e'.tracker = e₁.tracker) (ho : e'.openOrders = e₁.openOrders.set id p)
    (hp : p.resolved.isSome) {s : Symbol} {d : Option DecisionId} (hentry : e'.HasEntry s d) :
    e.HasEntry s d ∨ P s d := by
  refine hentry.of_change (fun s d hlot => h s d (Or.inl (ht ▸ hlot))) ?_
  intro j q hget hside hq
  rw [ho, Dict.get?_set] at hget
  split_ifs at hget
  · obtain rfl := Option.some.inj hget
    rw [hq] at hp
    cases hp
  · exact h _ _ (HasEntry.of_working hget hside hq)

/-- An order that works after a move aside worked before it. -/
theorem Aside.working_of {c : ExchangeClient W} {e e' : CcxtExecutor W} (ha : Aside c e e')
    {id : OrderId} {p : PendingOrder} (hget : e'.openOrders.get? id = some p)
    (hp : p.resolved = none) : e.openOrders.get? id = some p := by
  cases ha with
  | quiet hq => rwa [hq.openOrders] at hget
  | dust symbol => rwa [(frame_writeOffDust e symbol).openOrders] at hget
  | fired t now hsome hchild hk =>
      obtain ⟨r, -, ho⟩ := e.openOrders_bookTriggered t now hk
      rw [ho, Dict.get?_set] at hget
      split_ifs at hget
      · obtain rfl := Option.some.inj hget
        cases hp
      · exact hget

theorem Aside.entries {c : ExchangeClient W} {e e' : CcxtExecutor W} (ha : Aside c e e')
    {s : Symbol} {d : Option DecisionId} (h : e'.HasEntry s d) : e.HasEntry s d := by
  refine (h.of_change (P := fun _ _ => False) (fun s d hlot => Or.inl (Or.inl (ha.lots hlot)))
    (fun id p hget hside hp => Or.inl ?_)).resolve_right id
  exact HasEntry.of_working (ha.working_of hget hp) hside hp

theorem Asides.entries {c : ExchangeClient W} {e e' : CcxtExecutor W} (ha : Asides c e e')
    {s : Symbol} {d : Option DecisionId} (h : e'.HasEntry s d) : e.HasEntry s d := by
  induction ha with
  | refl => exact h
  | tail _ hstep ih => exact ih (hstep.entries h)

/-- The fill of a working order makes its lot an entry that the order was before. -/
theorem entries_settled (e : CcxtExecutor W) (id : OrderId) (p : PendingOrder) (raw : RawOrder)
    (reason : Option OrderReason) (now : Time) {s : Symbol} {d : Option DecisionId}
    (h : (e.settled id p raw reason now).2.HasEntry s d) :
    e.HasEntry s d ∨ Enters p.side p.symbol p.decisionId s d := by
  have ho := (frame_settle e id p raw (resolveStatus raw p.quantity).1
    (resolveStatus raw p.quantity).2.1 reason now).openOrders
  by_cases hun : (resolveStatus raw p.quantity).1 = .filled → raw.fillPrice = none
  · have hsame : ∀ s d, e.HasEntry s d →
        e.HasEntry s d ∨ Enters p.side p.symbol p.decisionId s d := fun _ _ => Or.inl
    refine HasEntry.of_fill hsame ?_
      (congrArg (fun o => Dict.set o _ _) ho) rfl h
    show (e.settle id p raw _ _ reason now).2.tracker = e.tracker
    rw [settle_unbooked e id p _ reason now hun]
  · rw [Classical.not_imp] at hun
    obtain ⟨price, hp⟩ := Option.ne_none_iff_exists'.mp hun.2
    have ht : (e.settled id p raw reason now).2.tracker = _ :=
      (settle_booked e id p (resolveStatus raw p.quantity).2.1 reason now hun.1 hp).1
    have hfill := fun s d => entries_recordFill (s := s) (d := d) e (reportedFill id p.symbol p.side
      (resolveStatus raw p.quantity).2.1 price p.decisionId raw)
    have hset : (e.settled id p raw reason now).2.openOrders = (e.recordFill (reportedFill id
        p.symbol p.side (resolveStatus raw p.quantity).2.1 price p.decisionId raw)).2.openOrders.set
          id { p with resolved := some (e.settled id p raw reason now).1 } := by
      rw [(frame_recordFill e _).openOrders, ← ho]
      rfl
    exact HasEntry.of_fill hfill ht hset rfl h

/-! ## The calls -/

section Calls

variable (c : ExchangeClient W)

/-- **The loop of a reconciliation** makes no entry but those of the orders it polls. -/
theorem entries_reconcileEach {f : OrderId → Symbol → W → Except PyError (Option RawOrder) × W}
    (hf : c.fetchOrder = some f) (now : Time) {P : Symbol → Option DecisionId → Prop}
    (entries : List (OrderId × PendingOrder)) (e : CcxtExecutor W)
    (he : ∀ s d, e.HasEntry s d → P s d)
    (hentries : ∀ id p, (id, p) ∈ entries → p.resolved = none → p.side = .buy →
      P p.symbol p.decisionId) {s : Symbol} {d : Option DecisionId}
    (h : (reconcileEach c f now entries e).2.HasEntry s d) : P s d := by
  induction entries generalizing e with
  | nil => exact he s d h
  | cons entry rest ih =>
      obtain ⟨id, p⟩ := entry
      have hrest := fun id' p' hm => hentries id' p' (List.mem_cons_of_mem _ hm)
      unfold reconcileEach at h
      by_cases hres : p.resolved.isSome = true
      · rw [if_pos hres] at h
        exact ih e he hrest h
      · rw [if_neg hres] at h
        refine ih _ ?_ hrest h
        intro s d hone
        rcases reconcileOne_cases c hf id p now e with ⟨-, ha⟩ | ⟨e₁, raw, reason, hq, -, -, -, ha⟩
        · exact he s d (ha.entries hone)
        · rcases entries_settled e₁ id p raw reason now (ha.entries hone) with hold | ⟨hside, rfl, rfl⟩
          · exact he s d (hq.asides.entries hold)
          · exact hentries id p List.mem_cons_self (by simpa using hres) hside

theorem entries_reconcileOpenOrders (now : Time) (e : CcxtExecutor W) {s : Symbol}
    {d : Option DecisionId} (h : (reconcileOpenOrders c now e).2.HasEntry s d) :
    e.HasEntry s d := by
  have hw := asides_watchProtection c now e
  unfold reconcileOpenOrders at h
  dsimp only at h
  split_ifs at h
  · exact hw.entries h
  · split at h
    · exact hw.entries h
    · rename_i f hf
      refine hw.entries (entries_reconcileEach c hf now _ _ (fun _ _ => id) ?_ h)
      intro id p hm hp hside
      exact HasEntry.of_working ((Dict.mem_entries_iff _ _ _).mp hm) hside hp

theorem entries_confirmReconciled (e : CcxtExecutor W) (id : OrderId) {s : Symbol}
    {d : Option DecisionId} (h : (e.confirmReconciled id).HasEntry s d) : e.HasEntry s d := by
  rcases e.confirmReconciled_cases id with ⟨-, he⟩ | ⟨-, he⟩
  · rw [he] at h
    refine h.of_orders rfl fun j p hget => ?_
    rw [Dict.get?_erase] at hget
    split_ifs at hget
    exact hget
  · rw [he] at h
    exact h

theorem entries_bookPlaced (e : CcxtExecutor W) (req : OrderRequest) (id : OrderId)
    (q price : ℚ) (raw : RawOrder) {s : Symbol} {d : Option DecisionId}
    (h : (e.bookPlaced req id q price raw).2.HasEntry s d) :
    e.HasEntry s d ∨ Enters req.side req.symbol req.decisionId s d := by
  apply entries_recordFill e (reportedFill id req.symbol req.side q price req.decisionId raw)
  unfold HasEntry pendingEntryDecisionIds at h ⊢
  rw [(e.bookPlaced_booked req id q price raw).1,
    (frame_bookPlaced e req id q price raw).openOrders] at h
  rw [(frame_recordFill e _).openOrders]
  exact h

/-- **A placement** makes the entry of its request, and only a BUY does. -/
theorem entries_placeOrder (e : CcxtExecutor W) (req : OrderRequest) (stamp : Stamp) {s : Symbol}
    {d : Option DecisionId} (h : (e.placeOrder c req stamp).2.HasEntry s d) :
    e.HasEntry s d ∨ Enters req.side req.symbol req.decisionId s d := by
  have hsent : ∀ {e₁ e₂ : CcxtExecutor W} {amount : ℚ} {id : OrderId} {raw : RawOrder} {s d},
      Accepted c req e e₁ e₂ amount id raw → e₂.HasEntry s d → e.HasEntry s d := by
    intro e₁ e₂ amount id raw s d ha hentry
    obtain ⟨a, w, w₂, -, -, -, -, rfl⟩ := ha.answer
    exact ha.before.entries hentry
  have hplaced := placeOrder_placed c e req stamp
  generalize (e.placeOrder c req stamp).1 = r, (e.placeOrder c req stamp).2 = e' at hplaced h
  cases hplaced with
  | refused e₁ reason ha => exact Or.inl (ha.entries h)
  | failed e₁ amount err w ha => exact Or.inl (ha.entries h)
  | tracked e₁ e₂ amount id raw limit ha hs hne =>
      rcases h with hlot | hworks
      · exact Or.inl (hsent ha (Or.inl hlot))
      · obtain ⟨j, p, hget, hs', hside, hp, hd⟩ :=
          (mem_pendingEntryDecisionIds_iff _ _ _).mp hworks
        rw [Dict.get?_set] at hget
        split_ifs at hget
        · obtain rfl := Option.some.inj hget
          exact Or.inr ⟨hside, hs', hd⟩
        · exact Or.inl (hsent ha (hs' ▸ hd ▸ HasEntry.of_working hget hside hp))
  | filled e₁ e₂ e' amount id raw limit price ha hs hp htail =>
      exact (entries_bookPlaced e₂ req id _ price raw (htail.entries h)).imp_left (hsent ha)
  | ended e₁ e₂ amount id raw limit ha => exact Or.inl (hsent ha h)

theorem entries_placeOrder_sell (e : CcxtExecutor W) {req : OrderRequest} (stamp : Stamp)
    (hsell : req.side = .sell) {s : Symbol} {d : Option DecisionId}
    (h : (e.placeOrder c req stamp).2.HasEntry s d) : e.HasEntry s d := by
  have hplaced := entries_placeOrder c e req stamp h
  rw [hsell] at hplaced
  exact hplaced.resolve_right not_enters_sell

theorem entries_cancelOrder (e : CcxtExecutor W) (id : OrderId) {s : Symbol}
    {d : Option DecisionId} (h : (e.cancelOrder c id).2.HasEntry s d) : e.HasEntry s d := by
  unfold cancelOrder at h
  split at h
  · exact h
  · split at h
    · exact h
    · refine h.of_orders rfl fun j p hget => ?_
      rw [Dict.get?_erase] at hget
      split_ifs at hget
      exact hget

end Calls

/-! ## A restart -/

/-- The stored BUYs behind the entries of a loaded executor. -/
theorem entries_reloaded {levels : Dict DecisionId ExitLevels} {t : OrderTable}
    {fresh : CcxtExecutor W} (hfresh : fresh.openOrders = Dict.empty) {now : Time} {s : Symbol}
    {d : Option DecisionId} (h : (fresh.reloaded levels t now).HasEntry s d) :
    ∃ row ∈ t, row.symbol = s ∧ row.side = .buy ∧ row.decisionId = d := by
  have hload := reloads_loadPendingOrders (OrderTable.pendingRecords levels t) now
    (fresh.loadFills (OrderTable.venueFills levels t))
  rcases h with hlot | hworks
  · unfold PositionTracker.entryDecisionIds at hlot
    rw [show (fresh.reloaded levels t now).tracker = _ from hload.tracker,
      lotsOf_loadFills] at hlot
    obtain ⟨f, hf, hside, rfl⟩ := tags_lotsAfter hlot
    obtain ⟨hf, hs⟩ := List.mem_filter.mp hf
    obtain ⟨row, hrow, hreplay⟩ := List.mem_filterMap.mp hf
    have hfill := fillIs_of_replayed hreplay
    refine ⟨row, hrow, ?_, ?_, (decisionId_replayed hreplay).symm⟩
    · rw [← hfill.symbol]
      exact of_decide_eq_true hs
    · rw [hfill.side] at hside
      exact Option.some.inj hside
  · obtain ⟨id, p, hget, hs, hside, -, hd⟩ := (mem_pendingEntryDecisionIds_iff _ _ _).mp hworks
    obtain ⟨o, ho, -, rfl⟩ := tracked_reloaded hfresh hget
    obtain ⟨row, hrow, -, -, -, hsymbol, hrowside, hdecision, -⟩ := of_mem_pendingRecords ho
    exact ⟨row, hrow, hsymbol.symm.trans hs, hrowside.symm.trans hside, hdecision.symm.trans hd⟩

theorem entries_rehydrateVenueExecutor (c : ExchangeClient W)
    {levels : Dict DecisionId ExitLevels} {t : OrderTable} {fresh : CcxtExecutor W} {now : Time}
    {s : Symbol} {d : Option DecisionId}
    (h : (fresh.rehydrateVenueExecutor c levels t now).HasEntry s d) :
    (fresh.reloaded levels t now).HasEntry s d :=
  (asides_restoreProtection c now _).entries h

end CcxtExecutor

end SmartyTrader
