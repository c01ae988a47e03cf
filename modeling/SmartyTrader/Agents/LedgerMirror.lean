import SmartyTrader.Agents.BaseAgent
import SmartyTrader.Execution.BookingPaths
import SmartyTrader.Execution.CcxtRestart
import SmartyTrader.Execution.ScriptedVenue

set_option autoImplicit false

/-! # The ledger after a restart

The ledger of the ccxt executor is fed in several ways: by a placement, by a reconciliation, by a
protective order that fired. A restart has one way, the stored rows. Two invariants of a run meet
here. `KeptBooks` says that the books are those of the fills in the order they were booked, and
`Mirrored` that the rows and the results that wait for their row are these fills, each once. What
is left to the condition of a symbol (`Rebuildable`) is the order of the two.
-/

namespace SmartyTrader

open Lib

variable {W : Type}

/-! ## Booked fills as records -/

/-- The record of a booked fill, with the levels of its decision. -/
def BookedFill.record (decisions : Dict DecisionId ExitLevels) (f : BookedFill) : FillRecord :=
  let exits := if f.side = .buy then levelsOfDecision decisions f.decisionId else (none, none)
  { symbol := f.symbol
    side := some f.side
    quantity := f.quantity
    price := f.price
    decisionId := f.decisionId
    stopLoss := exits.1
    takeProfit := exits.2
    feeBase := f.feeBase
    feeQuote := f.feeQuote
    orderId := some f.orderId }

/-- The fills among the changes of a ledger, in the order they were booked. -/
def recorded (decisions : Dict DecisionId ExitLevels) (journal : List LedgerEntry) :
    List FillRecord :=
  journal.filterMap (fun entry =>
    match entry with
    | .fill f => some (f.record decisions)
    | .writeOff _ => none)

section Records

variable (decisions : Dict DecisionId ExitLevels)

theorem recorded_fill (journal : List LedgerEntry) (f : BookedFill) :
    recorded decisions (journal ++ [.fill f])
      = recorded decisions journal ++ [f.record decisions] := List.filterMap_append

theorem recorded_writeOff (journal : List LedgerEntry) (s : Symbol) :
    recorded decisions (journal ++ [.writeOff s]) = recorded decisions journal := by
  unfold recorded
  rw [List.filterMap_append]
  exact List.append_nil _

theorem record_levels (f : BookedFill) :
    ((f.record decisions).stopLoss, (f.record decisions).takeProfit)
      = if f.side = .buy then levelsOfDecision decisions f.decisionId else (none, none) := rfl

/-- Booking a fill changes the lots of its symbol as its record does. -/
theorem lotsOf_bookFill (t : PositionTracker) (f : BookedFill) (s : Symbol) :
    (bookFill t f.symbol f.side f.quantity f.price f.feeBase f.feeQuote f.decisionId).2.lotsOf s
      = if f.symbol = s then (f.record decisions).bookLots (t.lotsOf s) else t.lotsOf s :=
  lotsOf_replayStep ⟨t, Dict.empty, 0⟩ (f.record decisions) s

end Records

/-! ## The books of the fills -/

/-- The books are those of the stored fills and the ones booked since, symbol by symbol, as long as
nothing of the symbol was written off. -/
structure KeptBooks (decisions : Dict DecisionId ExitLevels) (stored : List FillRecord)
    (b : Books) : Prop where
  positive : ∀ s, Fifo.Positive (b.tracker.lotsOf s)
  lots : ∀ s, .writeOff s ∉ b.journal → b.tracker.lotsOf s
    = lotsAfter (ofSymbol s (stored ++ recorded decisions b.journal)) []
  levels : ∀ s, .writeOff s ∉ b.journal → lotEpsilon < b.tracker.quantity s →
    b.exitLevels.get? s = levelsAfter (ofSymbol s (stored ++ recorded decisions b.journal))

namespace KeptBooks

variable {decisions : Dict DecisionId ExitLevels} {stored : List FillRecord} {b b' : Books}

theorem lotEpsilon_pos : 0 < lotEpsilon := by norm_num [lotEpsilon]

/-- Levels of symbols that are not open do not count. -/
theorem relevel (h : KeptBooks decisions stored b) (hjournal : b'.journal = b.journal)
    (htracker : b'.tracker = b.tracker)
    (hlevels : ∀ s, lotEpsilon < b.tracker.quantity s →
      b'.exitLevels.get? s = b.exitLevels.get? s) : KeptBooks decisions stored b' where
  positive s := by
    rw [htracker]
    exact h.positive s
  lots s := by
    rw [hjournal, htracker]
    exact h.lots s
  levels s := by
    rw [hjournal, htracker]
    intro hkept hopen
    rw [hlevels s hopen]
    exact h.levels s hkept hopen

/-- A write-off. -/
theorem writeOff (h : KeptBooks decisions stored b) (s : Symbol) :
    KeptBooks decisions stored
      ⟨b.journal ++ [.writeOff s], b.tracker.discard s, b.exitLevels.erase s⟩ := by
  have hother : ∀ s', .writeOff s' ∉ b.journal ++ [LedgerEntry.writeOff s] →
      .writeOff s' ∉ b.journal ∧ s ≠ s' := by
    intro s' hnot
    rw [List.mem_append, not_or, List.mem_singleton] at hnot
    refine ⟨hnot.1, ?_⟩
    rintro rfl
    exact hnot.2 rfl
  refine ⟨fun s' => ?_, fun s' hnot => ?_, fun s' hnot hopen => ?_⟩
  · rw [PositionTracker.lotsOf_discard]
    split_ifs
    · exact Fifo.Positive.nil
    · exact h.positive s'
  · obtain ⟨hkept, hne⟩ := hother s' hnot
    rw [PositionTracker.lotsOf_discard, if_neg hne, recorded_writeOff]
    exact h.lots s' hkept
  · obtain ⟨hkept, hne⟩ := hother s' hnot
    unfold PositionTracker.quantity at hopen
    rw [PositionTracker.lotsOf_discard, if_neg hne] at hopen
    rw [Dict.get?_erase_ne _ hne, recorded_writeOff]
    exact h.levels s' hkept hopen

/-- A fill is booked; a BUY brings the levels of its decision. -/
theorem fill (h : KeptBooks decisions stored b) (f : BookedFill)
    {levels : Dict Symbol ExitLevels}
    (hlevels : ∀ s, levels.get? s = if f.symbol = s ∧ f.side = .buy
      then some (levelsOfDecision decisions f.decisionId) else b.exitLevels.get? s) :
    KeptBooks decisions stored ⟨b.journal ++ [.fill f],
      (bookFill b.tracker f.symbol f.side f.quantity f.price f.feeBase f.feeQuote
        f.decisionId).2, levels⟩ := by
  have hlots := lotsOf_bookFill decisions b.tracker f
  have hkept : ∀ s, .writeOff s ∉ b.journal ++ [LedgerEntry.fill f] → .writeOff s ∉ b.journal :=
    fun s hnot hmem => hnot (List.mem_append_left _ hmem)
  refine ⟨fun s => ?_, fun s hnot => ?_, fun s hnot hopen => ?_⟩
  · rw [hlots]
    split_ifs
    · exact positive_bookLots _ (h.positive s)
    · exact h.positive s
  · rw [hlots, recorded_fill, ← List.append_assoc]
    by_cases hs : f.symbol = s
    · subst hs
      have hconcat := ofSymbol_concat_self (stored ++ recorded decisions b.journal)
        (f.record decisions)
      change ofSymbol f.symbol _ = ofSymbol f.symbol _ ++ _ at hconcat
      rw [if_pos rfl, hconcat, lotsAfter_append, ← h.lots _ (hkept _ hnot)]
      rfl
    · rw [if_neg hs, ofSymbol_concat_ne _ (show (f.record decisions).symbol ≠ s from hs)]
      exact h.lots s (hkept s hnot)
  · dsimp only at hopen ⊢
    unfold PositionTracker.quantity at hopen
    rw [hlots] at hopen
    rw [hlevels, recorded_fill, ← List.append_assoc]
    by_cases hs : f.symbol = s
    · subst hs
      have hconcat := ofSymbol_concat_self (stored ++ recorded decisions b.journal)
        (f.record decisions)
      change ofSymbol f.symbol _ = ofSymbol f.symbol _ ++ _ at hconcat
      rw [hconcat]
      rw [if_pos rfl] at hopen
      by_cases hbuy : f.side = .buy
      · have hside : (f.record decisions).side = some .buy := congrArg some hbuy
        rw [if_pos ⟨rfl, hbuy⟩, levelsAfter_buy _ hside, record_levels, if_pos hbuy]
      · -- What is open after a sale was open before it.
        have hside : (f.record decisions).side ≠ some .buy := fun hc => hbuy (Option.some.inj hc)
        rw [if_neg (fun hc => hbuy hc.2), levelsAfter_other _ hside]
        apply h.levels _ (hkept _ hnot)
        exact hopen.trans_le (total_bookLots_le_total hside (h.positive _))
    · have hne : (f.record decisions).symbol ≠ s := hs
      rw [if_neg (fun hc => hs hc.1), ofSymbol_concat_ne _ hne]
      rw [if_neg hs] at hopen
      exact h.levels s (hkept s hnot) hopen

end KeptBooks

/-! ### The ways to book -/

namespace CcxtExecutor

variable {decisions : Dict DecisionId ExitLevels} {stored : List FillRecord} {e : CcxtExecutor W}

theorem keptBooks_writeOffDust (h : KeptBooks decisions stored e.books) (s : Symbol) :
    KeptBooks decisions stored (e.writeOffDust s).books := by
  unfold writeOffDust
  dsimp only
  split_ifs
  · exact h.writeOff s
  · exact h

theorem keptBooks_dropFlatLevels (h : KeptBooks decisions stored e.books) (s : Symbol) :
    KeptBooks decisions stored (e.dropFlatLevels s).books := by
  unfold dropFlatLevels
  split_ifs with hflat
  · have hlevels : ∀ s', lotEpsilon < e.tracker.quantity s' →
        (e.exitLevels.erase s).get? s' = e.exitLevels.get? s' := by
      intro s' hopen
      have hne : s ≠ s' := by
        rintro rfl
        exact absurd (KeptBooks.lotEpsilon_pos.trans hopen) (not_lt.mpr hflat)
      exact Dict.get?_erase_ne _ hne
    exact h.relevel rfl rfl hlevels
  · exact h

/-- Recording a SELL. -/
theorem keptBooks_sell (h : KeptBooks decisions stored e.books) {f : BookedFill}
    (hside : f.side = .sell) : KeptBooks decisions stored (e.recordFill f).2.books := by
  have hbook : KeptBooks decisions stored (e.book f).2.books := by
    apply h.fill f
    intro s
    rw [if_neg (fun hc => by rw [hside] at hc; cases hc.2)]
    rfl
  rcases e.recordFill_cases f with hr | ⟨-, hr⟩
  · rw [hr]
    exact hbook
  · rw [hr]
    exact keptBooks_writeOffDust hbook f.symbol

/-- Recording a BUY and the levels of its decision. -/
theorem keptBooks_buy (h : KeptBooks decisions stored e.books) {f : BookedFill}
    (hside : f.side = .buy) : KeptBooks decisions stored
      ⟨(e.recordFill f).2.journal, (e.recordFill f).2.tracker,
        (e.recordFill f).2.exitLevels.set f.symbol (levelsOfDecision decisions f.decisionId)⟩ := by
  have hr : (e.recordFill f).2 = (e.book f).2 := by
    rcases e.recordFill_cases f with hr | ⟨hsell, -⟩
    · exact hr
    · rw [hside] at hsell
      cases hsell
  rw [hr]
  apply h.fill f
  intro s
  rw [Dict.get?_set]
  simp [hside, book]
  rfl

theorem keptBooks_bookPlaced (h : KeptBooks decisions stored e.books) {req : OrderRequest}
    (hreq : req.side = .buy →
      (req.stopLoss, req.takeProfit) = levelsOfDecision decisions req.decisionId)
    (id : OrderId) (q price : ℚ) (raw : RawOrder) :
    KeptBooks decisions stored (e.bookPlaced req id q price raw).2.books := by
  unfold bookPlaced
  dsimp only
  apply keptBooks_dropFlatLevels
  by_cases hside : req.side = .buy
  · rw [if_pos hside, hreq hside]
    exact keptBooks_buy h
      (f := reportedFill id req.symbol req.side q price req.decisionId raw) hside
  · have hsell : req.side = .sell := by
      cases hs : req.side with
      | buy => exact absurd hs hside
      | sell => rfl
    rw [if_neg hside]
    exact keptBooks_sell h hsell

theorem keptBooks_settle (h : KeptBooks decisions stored e.books) {p : PendingOrder}
    (hp : p.side = .buy → (p.stopLoss, p.takeProfit) = levelsOfDecision decisions p.decisionId)
    (id : OrderId) (raw : RawOrder) (status : OrderStatus) (q : ℚ) (reason : Option OrderReason)
    (now : Time) : KeptBooks decisions stored (e.settle id p raw status q reason now).2.books := by
  by_cases hbooked : status = .filled ∧ raw.fillPrice ≠ none
  · obtain ⟨hstatus, hprice⟩ := hbooked
    obtain ⟨price, hprice⟩ := Option.ne_none_iff_exists'.mp hprice
    obtain ⟨htracker, hjournal, hlevels⟩ := settle_booked e id p q reason now hstatus hprice
    unfold books
    rw [htracker, hjournal, hlevels]
    by_cases hside : p.side = .buy
    · rw [if_pos hside, hp hside]
      exact keptBooks_buy h (f := reportedFill id p.symbol p.side q price p.decisionId raw) hside
    · have hsell : p.side = .sell := by
        cases hs : p.side with
        | buy => exact absurd hs hside
        | sell => rfl
      rw [if_neg hside]
      exact keptBooks_sell h (f := reportedFill id p.symbol p.side q price p.decisionId raw) hsell
  · have hnone : status = .filled → raw.fillPrice = none := by
      intro hstatus
      by_contra hprice
      exact hbooked ⟨hstatus, hprice⟩
    rw [settle_unbooked e id p q reason now hnone]
    exact h

theorem keptBooks_bookTriggered (h : KeptBooks decisions stored e.books) (t : Triggered)
    (now : Time) : KeptBooks decisions stored (e.bookTriggered t now).books := by
  unfold bookTriggered
  split_ifs
  · exact h
  · show KeptBooks decisions stored
      (((e.know t.childId).bookChild t now).2.dropFlatLevels t.symbol).books
    apply keptBooks_dropFlatLevels
    unfold bookChild
    dsimp only
    split
    · exact h
    · exact keptBooks_sell (e := e.know t.childId) h rfl

theorem Aside.keptBooks {c : ExchangeClient W} {e' : CcxtExecutor W} (ha : Aside c e e')
    (h : KeptBooks decisions stored e.books) : KeptBooks decisions stored e'.books := by
  cases ha with
  | quiet hq =>
      exact h.relevel hq.journal hq.tracker
        (fun s hopen => hq.levels s (KeptBooks.lotEpsilon_pos.trans hopen))
  | dust s => exact keptBooks_writeOffDust h s
  | fired t now hp hc hk => exact keptBooks_bookTriggered h t now

end CcxtExecutor

/-! ## The rows of the fills -/

/-- The fill that a resolved order reports, if it was booked. -/
def PendingOrder.awaiting (decisions : Dict DecisionId ExitLevels) (id : OrderId)
    (p : PendingOrder) : Option FillRecord :=
  p.resolved.bind (fun r =>
    if r.status = .filled then
      r.price.map (fun price => BookedFill.record decisions
        { orderId := id
          symbol := p.symbol
          side := p.side
          quantity := r.quantity
          price := price
          feeBase := r.feeBase.getD 0
          feeQuote := r.feeQuote.getD 0
          decisionId := p.decisionId })
    else none)

/-- The row of a tracked order, as long as its result is not stored. -/
structure OrderRow.Open (row : OrderRow) (decisions : Dict DecisionId ExitLevels)
    (p : PendingOrder) : Prop where
  unfilled : row.replayed decisions = none
  symbol : row.symbol = p.symbol
  side : row.side = p.side
  decisionId : row.decisionId = p.decisionId
  feeBase : row.feeBase = none
  feeQuote : row.feeQuote = none

/-- The rows and the results that wait for their row are the fills, each once. -/
structure Mirrored (c : ExchangeClient W) (decisions : Dict DecisionId ExitLevels)
    (t : OrderTable) (fills : List FillRecord) (e : CcxtExecutor W) : Prop where
  tidy : e.Tidy c
  rows : (t.map OrderRow.orderId).Nodup
  once : (fills.map FillRecord.orderId).Nodup
  mem : ∀ f, f ∈ fills ↔ (∃ row ∈ t, row.replayed decisions = some f) ∨
    ∃ id p, e.openOrders.get? id = some p ∧ p.awaiting decisions id = some f
  /-- A tracked order has its open row, or it is the child of a protective order. -/
  tracked : ∀ id p, e.openOrders.get? id = some p →
    isPaperOrder id = false ∧ (id ∈ t.map OrderRow.orderId ∨ e.MayFire c id) ∧
    ∀ row ∈ t, row.orderId = id → row.Open decisions p
  results : ∀ id p r, e.openOrders.get? id = some p → p.resolved = some r →
    r.symbol = p.symbol ∧ r.side = p.side
  /-- A stored order that may fire is known. -/
  known : ∀ row ∈ t, e.MayFire c row.orderId → row.orderId ∈ e.knownOrderIds
  genuine : ∀ id, e.MayFire c id → isPaperOrder id = false

namespace Mirrored

variable {c : ExchangeClient W} {decisions : Dict DecisionId ExitLevels} {t : OrderTable}
  {fills : List FillRecord} {e e' : CcxtExecutor W}

theorem orderId_replayed {row : OrderRow} {f : FillRecord} (h : row.replayed decisions = some f) :
    f.orderId = some row.orderId := (fillIs_of_replayed h).orderId

theorem orderId_awaiting {id : OrderId} {p : PendingOrder} {f : FillRecord}
    (h : p.awaiting decisions id = some f) : f.orderId = some id := by
  unfold PendingOrder.awaiting at h
  obtain ⟨r, -, h⟩ := Option.bind_eq_some_iff.mp h
  split_ifs at h
  obtain ⟨price, -, rfl⟩ := Option.map_eq_some_iff.mp h
  rfl

theorem awaiting_of_working {id : OrderId} {p : PendingOrder} (h : p.resolved = none) :
    p.awaiting decisions id = none := by
  unfold PendingOrder.awaiting
  rw [h]
  rfl

/-- An order without a filled row and without a result that waits was not booked. -/
theorem not_booked (h : Mirrored c decisions t fills e) {id : OrderId}
    (hrows : ∀ row ∈ t, row.orderId = id → row.replayed decisions = none)
    (hopen : ∀ p, e.openOrders.get? id = some p → p.awaiting decisions id = none) :
    some id ∉ fills.map FillRecord.orderId := by
  intro hmem
  obtain ⟨f, hf, hid⟩ := List.mem_map.mp hmem
  rcases (h.mem f).mp hf with ⟨row, hrow, hreplay⟩ | ⟨id', p, hget, hwait⟩
  · rw [orderId_replayed hreplay] at hid
    rw [hrows row hrow (Option.some.inj hid)] at hreplay
    cases hreplay
  · rw [orderId_awaiting hwait] at hid
    obtain rfl := Option.some.inj hid
    rw [hopen p hget] at hwait
    cases hwait

/-- The orders are the same. -/
theorem carry (h : Mirrored c decisions t fills e) (ht : e'.Tidy c)
    (ho : e'.openOrders = e.openOrders) (hk : e'.knownOrderIds = e.knownOrderIds)
    (hp : e'.protection.isSome = e.protection.isSome) : Mirrored c decisions t fills e' where
  tidy := ht
  rows := h.rows
  once := h.once
  mem f := by
    rw [ho]
    exact h.mem f
  tracked := by
    unfold CcxtExecutor.MayFire
    rw [ho, hp]
    exact h.tracked
  results := by
    rw [ho]
    exact h.results
  known := by
    unfold CcxtExecutor.MayFire
    rw [hk, hp]
    exact h.known
  genuine := by
    unfold CcxtExecutor.MayFire
    rw [hp]
    exact h.genuine

/-- A result that waits: a working order resolved, or a protective order fired. -/
theorem resolves (h : Mirrored c decisions t fills e) (ht : e'.Tidy c) {id : OrderId}
    {p : PendingOrder} (ho : e'.openOrders = e.openOrders.set id p)
    (hp : e'.protection.isSome = e.protection.isSome)
    (hk : ∀ i ∈ e.knownOrderIds, i ∈ e'.knownOrderIds)
    (hold : ∀ p', e.openOrders.get? id = some p' → p'.awaiting decisions id = none)
    (hopen : isPaperOrder id = false ∧ (id ∈ t.map OrderRow.orderId ∨ e.MayFire c id) ∧
      ∀ row ∈ t, row.orderId = id → row.Open decisions p)
    (hresult : ∀ r, p.resolved = some r → r.symbol = p.symbol ∧ r.side = p.side) :
    Mirrored c decisions t (fills ++ (p.awaiting decisions id).toList) e' where
  tidy := ht
  rows := h.rows
  once := by
    have hnew := h.not_booked (fun row hrow hid => (hopen.2.2 row hrow hid).unfilled) hold
    cases hf : p.awaiting decisions id with
    | none =>
        rw [Option.toList_none, List.append_nil]
        exact h.once
    | some f =>
        rw [Option.toList_some, List.map_append, List.map_singleton, orderId_awaiting hf]
        refine List.nodup_append.mpr ⟨h.once, List.nodup_singleton _, ?_⟩
        rintro i hi j hj rfl
        rw [List.mem_singleton] at hj
        exact hnew (hj ▸ hi)
  mem f := by
    rw [List.mem_append, h.mem f, Option.mem_toList, ho]
    constructor
    · rintro ((hrow | ⟨i, p', hget, hwait⟩) | hnew)
      · exact Or.inl hrow
      · have hne : id ≠ i := by
          rintro rfl
          rw [hold p' hget] at hwait
          cases hwait
        exact Or.inr ⟨i, p', by rw [Dict.get?_set_ne _ _ hne]; exact hget, hwait⟩
      · exact Or.inr ⟨id, p, Dict.get?_set_self .., hnew⟩
    · rintro (hrow | ⟨i, p', hget, hwait⟩)
      · exact Or.inl (Or.inl hrow)
      · rw [Dict.get?_set] at hget
        split_ifs at hget with hsame
        · obtain rfl := Option.some.inj hget
          rw [← hsame] at hwait
          exact Or.inr hwait
        · exact Or.inl (Or.inr ⟨i, p', hget, hwait⟩)
  tracked i p' hget := by
    have hfire : e'.MayFire c i ↔ e.MayFire c i := by
      unfold CcxtExecutor.MayFire
      rw [hp]
    rw [hfire]
    rw [ho, Dict.get?_set] at hget
    split_ifs at hget with hsame
    · obtain rfl := Option.some.inj hget
      rw [← hsame]
      exact hopen
    · exact h.tracked i p' hget
  results i p' r hget := by
    rw [ho, Dict.get?_set] at hget
    split_ifs at hget with hsame
    · obtain rfl := Option.some.inj hget
      exact hresult r
    · exact h.results i p' r hget
  known row hrow hfire := by
    unfold CcxtExecutor.MayFire at hfire
    rw [hp] at hfire
    exact hk _ (h.known row hrow hfire)
  genuine := by
    unfold CcxtExecutor.MayFire
    rw [hp]
    exact h.genuine

end Mirrored

/-! ### Results and what was booked -/

theorem getD_reportedFees (raw : RawOrder) (s : Symbol) :
    (reportedFees raw s).1.getD 0 = (feeComponents raw s).1 ∧
      (reportedFees raw s).2.getD 0 = (feeComponents raw s).2 := by
  unfold reportedFees
  dsimp only
  constructor
  · by_cases h : (feeComponents raw s).1 = 0
    · rw [if_pos h, Option.getD_none, h]
    · rw [if_neg h, Option.getD_some]
  · by_cases h : (feeComponents raw s).2 = 0
    · rw [if_pos h, Option.getD_none, h]
    · rw [if_neg h, Option.getD_some]

namespace CcxtExecutor

variable {c : ExchangeClient W} {decisions : Dict DecisionId ExitLevels}

theorem recorded_recordFill (e : CcxtExecutor W) (f : BookedFill) :
    recorded decisions (e.recordFill f).2.journal
      = recorded decisions e.journal ++ [f.record decisions] := by
  have hbook : recorded decisions (e.book f).2.journal
      = recorded decisions e.journal ++ [f.record decisions] := recorded_fill decisions _ f
  rcases e.recordFill_cases f with hr | ⟨-, hr⟩
  · rw [hr, hbook]
  · rw [hr]
    rcases (e.book f).2.journal_writeOffDust f.symbol with hj | hj
    · rw [hj, hbook]
    · rw [hj, recorded_writeOff, hbook]

/-- What an order reports as filled at a price is the record of its fill. -/
theorem awaiting_withFill (id : OrderId) (p : PendingOrder) (raw : RawOrder) (q price : ℚ)
    (result : OrderResult) (realized : Option ℚ × List ClosedEntry)
    (hstatus : result.status = .filled) (hq : result.quantity = q)
    (hprice : result.price = some price) :
    ({ p with resolved := some (withFill result (reportedFees raw p.symbol) realized) } :
      PendingOrder).awaiting decisions id
      = some ((reportedFill id p.symbol p.side q price p.decisionId raw).record decisions) := by
  obtain ⟨hbase, hquote⟩ := getD_reportedFees raw p.symbol
  unfold PendingOrder.awaiting withFill
  rw [Option.bind_some]
  dsimp only
  rw [if_pos hstatus, hprice, hq, hbase, hquote]
  rfl

theorem recorded_bookChild (e : CcxtExecutor W) (t : Triggered) (now : Time) :
    recorded decisions (e.bookChild t now).2.journal = recorded decisions e.journal
      ++ ((triggeredOrder t (e.bookChild t now).1).awaiting decisions t.childId).toList := by
  unfold bookChild
  dsimp only
  cases hprice : t.child.fillPrice with
  | none =>
      have hnone : (triggeredOrder t (triggeredResult t now)).awaiting decisions t.childId
          = none := by
        unfold PendingOrder.awaiting triggeredOrder triggeredResult OrderResult.basic
        simp [hprice]
      dsimp only
      rw [hnone, Option.toList_none, List.append_nil]
  | some price =>
      dsimp only
      have hsome : ∀ realized, (triggeredOrder t (withFill (triggeredResult t now)
          (reportedFees t.child t.symbol) realized)).awaiting decisions t.childId
          = some ((reportedFill t.childId t.symbol .sell (orNumber t.child.filled 0) price none
            t.child).record decisions) := by
        intro realized
        exact awaiting_withFill t.childId (triggeredOrder t (triggeredResult t now)) t.child
          (orNumber t.child.filled 0) price (triggeredResult t now) realized rfl rfl hprice
      rw [recorded_recordFill, hsome, Option.toList_some]

theorem result_bookChild (e : CcxtExecutor W) (t : Triggered) (now : Time) :
    (e.bookChild t now).1.symbol = t.symbol ∧ (e.bookChild t now).1.side = .sell := by
  unfold bookChild
  dsimp only
  split
  · exact ⟨rfl, rfl⟩
  · exact ⟨rfl, rfl⟩

theorem recorded_settle (e : CcxtExecutor W) (id : OrderId) (p : PendingOrder) (raw : RawOrder)
    (status : OrderStatus) (q : ℚ) (reason : Option OrderReason) (now : Time) :
    recorded decisions (e.settle id p raw status q reason now).2.journal
      = recorded decisions e.journal
        ++ (({ p with resolved := some (e.settle id p raw status q reason now).1 } :
          PendingOrder).awaiting decisions id).toList := by
  by_cases hbooked : status = .filled ∧ raw.fillPrice ≠ none
  · obtain ⟨hstatus, hprice⟩ := hbooked
    obtain ⟨price, hprice⟩ := Option.ne_none_iff_exists'.mp hprice
    obtain ⟨-, hjournal, -⟩ := settle_booked e id p q reason now hstatus hprice
    have hresult : (e.settle id p raw status q reason now).1
        = withFill { OrderResult.basic id p.symbol p.side q raw.fillPrice status reason with
            filledAt := some (fillTime raw now) } (reportedFees raw p.symbol)
          (e.recordFill (reportedFill id p.symbol p.side q price p.decisionId raw)).1 := by
      unfold settle
      dsimp only
      rw [if_pos hstatus, hprice]
    rw [hjournal, recorded_recordFill, hresult,
      awaiting_withFill id p raw q price _ _ hstatus rfl hprice, Option.toList_some]
  · have hnone : status = .filled → raw.fillPrice = none := by
      intro hstatus
      by_contra hprice
      exact hbooked ⟨hstatus, hprice⟩
    have hwait : ({ p with resolved := some (e.settle id p raw status q reason now).1 } :
        PendingOrder).awaiting decisions id = none := by
      unfold settle PendingOrder.awaiting
      dsimp only
      rw [Option.bind_some]
      by_cases hstatus : status = .filled
      · rw [if_pos hstatus, hnone hstatus]
        simp [OrderResult.basic, hstatus]
      · rw [if_neg hstatus]
        simp [OrderResult.basic, hstatus]
    rw [settle_unbooked e id p q reason now hnone, hwait, Option.toList_none, List.append_nil]

theorem result_settle (e : CcxtExecutor W) (id : OrderId) (p : PendingOrder) (raw : RawOrder)
    (status : OrderStatus) (q : ℚ) (reason : Option OrderReason) (now : Time) :
    (e.settle id p raw status q reason now).1.symbol = p.symbol ∧
      (e.settle id p raw status q reason now).1.side = p.side := by
  unfold settle
  dsimp only
  split_ifs
  · split <;> exact ⟨rfl, rfl⟩
  · split <;> exact ⟨rfl, rfl⟩
  · exact ⟨rfl, rfl⟩

/-! ### Moves keep the mirror -/

/-- The rows mirror the stored fills and what was booked since. -/
abbrev Mirrors (c : ExchangeClient W) (decisions : Dict DecisionId ExitLevels) (t : OrderTable)
    (stored : List FillRecord) (e : CcxtExecutor W) : Prop :=
  Mirrored c decisions t (stored ++ recorded decisions e.journal) e

variable {t : OrderTable} {stored : List FillRecord} {e e' : CcxtExecutor W}

theorem bookTriggered_spec (e : CcxtExecutor W) (tr : Triggered) (now : Time)
    (hk : tr.childId ∉ e.knownOrderIds) :
    (e.bookTriggered tr now).openOrders = e.openOrders.set tr.childId
        (triggeredOrder tr ((e.know tr.childId).bookChild tr now).1) ∧
      (e.bookTriggered tr now).journal = ((e.know tr.childId).bookChild tr now).2.journal := by
  unfold bookTriggered
  rw [if_neg hk]
  refine ⟨?_, (ledger_dropFlatLevels _ _).2⟩
  show ((_ : CcxtExecutor W).openOrders).set tr.childId _ = _
  rw [((frame_bookChild _ tr now).trans (frame_dropFlatLevels _ tr.symbol)).openOrders]
  rfl

theorem Aside.mirrors (ha : Aside c e e') (h : Mirrors c decisions t stored e) :
    Mirrors c decisions t stored e' := by
  have htidy := (ha.advance h.tidy).tidy
  unfold Mirrors at h ⊢
  cases ha with
  | quiet hq =>
      rw [hq.journal]
      exact h.carry htidy hq.openOrders hq.knownOrderIds hq.protection
  | dust s =>
      have hf := frame_writeOffDust e s
      have hrecorded : recorded decisions (e.writeOffDust s).journal
          = recorded decisions e.journal := by
        rcases e.journal_writeOffDust s with hj | hj
        · rw [hj]
        · rw [hj, recorded_writeOff]
      rw [hrecorded]
      exact h.carry htidy hf.openOrders hf.knownOrderIds (by rw [hf.protection])
  | fired tr now hp hc hk =>
      obtain ⟨ho, hj⟩ := e.bookTriggered_spec tr now hk
      have hfire : e.MayFire c tr.childId := ⟨hp, hc⟩
      rw [hj, recorded_bookChild, ← List.append_assoc]
      refine h.resolves htidy ho (by rw [protection_bookTriggered]) ?_ ?_ ?_ ?_
      · intro i hi
        rw [e.knownOrderIds_bookTriggered tr now hk]
        exact List.mem_cons_of_mem _ hi
      · intro p hget
        exact absurd ((h.tidy _ p hget).2 hfire).2 hk
      · refine ⟨h.genuine _ hfire, Or.inr hfire, fun row hrow hid => ?_⟩
        -- A row of the child would be known.
        rw [← hid] at hfire hk
        exact absurd (h.known row hrow hfire) hk
      · intro r hr
        obtain rfl := Option.some.inj hr
        exact result_bookChild _ tr now

theorem Asides.mirrors (ha : Asides c e e') (h : Mirrors c decisions t stored e) :
    Mirrors c decisions t stored e' := by
  induction ha with
  | refl => exact h
  | tail _ hstep ih => exact hstep.mirrors ih

theorem Settles.mirrors {id : OrderId} {p : PendingOrder} {r : OrderResult}
    (hs : Settles c id p r e e') (h : Mirrors c decisions t stored e) :
    Mirrors c decisions t stored e' := by
  have htidy := (advance_settles h.tidy hs).1.tidy
  have ho := hs.openOrders
  obtain ⟨hprot, hknown⟩ := hs.frame
  unfold Mirrors at h ⊢
  cases hs with
  | intro raw reason now hget hworking hstatus hheard hr =>
      have hrecorded : recorded decisions (e.settled id p raw reason now).2.journal
          = recorded decisions e.journal
            ++ (({ p with resolved := some r } : PendingOrder).awaiting decisions id).toList := by
        rw [hr]
        exact recorded_settle e id p raw _ _ reason now
      rw [hrecorded, ← List.append_assoc]
      obtain ⟨hpaper, hstored, hrows⟩ := h.tracked id p hget
      refine h.resolves htidy ho (by rw [hprot]) ?_ ?_ ⟨hpaper, hstored, ?_⟩ ?_
      · intro i hi
        rw [hknown]
        exact hi
      · intro p' hget'
        rw [hget] at hget'
        obtain rfl := Option.some.inj hget'
        exact Mirrored.awaiting_of_working hworking
      · intro row hrow hid
        obtain ⟨h₁, h₂, h₃, h₄, h₅, h₆⟩ := hrows row hrow hid
        exact ⟨h₁, h₂, h₃, h₄, h₅, h₆⟩
      · intro r' hr'
        obtain rfl := Option.some.inj hr'
        rw [hr]
        exact result_settle e id p raw _ _ reason now

theorem Moves.mirrors (hm : Moves c e e') (h : Mirrors c decisions t stored e) :
    Mirrors c decisions t stored e' := by
  induction hm with
  | refl => exact h
  | tail _ hstep ih =>
      cases hstep with
      | aside ha => exact ha.mirrors ih
      | settles id p r hs => exact hs.mirrors ih

/-! ### Moves keep the books -/

/-- The books are those of the fills, and a working BUY has the levels of its decision. -/
structure Kept (decisions : Dict DecisionId ExitLevels) (stored : List FillRecord)
    (e : CcxtExecutor W) : Prop where
  books : KeptBooks decisions stored e.books
  planned : ∀ id p, e.openOrders.get? id = some p → p.resolved = none → p.side = .buy →
    (p.stopLoss, p.takeProfit) = levelsOfDecision decisions p.decisionId

/-- No order starts to work. -/
theorem Kept.of_books (h : Kept decisions stored e) (hb : KeptBooks decisions stored e'.books)
    (ho : ∀ id p, e'.openOrders.get? id = some p → p.resolved = none →
      e.openOrders.get? id = some p) : Kept decisions stored e' :=
  ⟨hb, fun id p hget hp => h.planned id p (ho id p hget hp) hp⟩

theorem Aside.kept (ha : Aside c e e') (h : Kept decisions stored e) :
    Kept decisions stored e' := by
  refine h.of_books (ha.keptBooks h.books) ?_
  intro id p hget hp
  cases ha with
  | quiet hq =>
      rw [hq.openOrders] at hget
      exact hget
  | dust s =>
      rw [(frame_writeOffDust e s).openOrders] at hget
      exact hget
  | fired tr now hprot hc hk =>
      rw [(e.bookTriggered_spec tr now hk).1, Dict.get?_set] at hget
      split_ifs at hget with hsame
      · obtain rfl := Option.some.inj hget
        cases hp
      · exact hget

theorem Asides.kept (ha : Asides c e e') (h : Kept decisions stored e) :
    Kept decisions stored e' := by
  induction ha with
  | refl => exact h
  | tail _ hstep ih => exact hstep.kept ih

theorem Settles.kept {id : OrderId} {p : PendingOrder} {r : OrderResult}
    (hs : Settles c id p r e e') (h : Kept decisions stored e) : Kept decisions stored e' := by
  have ho := hs.openOrders
  refine h.of_books ?_ ?_
  · cases hs with
    | intro raw reason now hget hworking hstatus hheard hr =>
        exact keptBooks_settle h.books (h.planned id p hget hworking) id raw _ _ reason now
  · intro id' p' hget hp
    rw [ho, Dict.get?_set] at hget
    split_ifs at hget with hsame
    · obtain rfl := Option.some.inj hget
      cases hp
    · exact hget

theorem Moves.kept (hm : Moves c e e') (h : Kept decisions stored e) :
    Kept decisions stored e' := by
  induction hm with
  | refl => exact h
  | tail _ hstep ih =>
      cases hstep with
      | aside ha => exact ha.kept ih
      | settles id p r hs => exact hs.kept ih

end CcxtExecutor

/-! ## Storing results -/

namespace Mirrored

variable {c : ExchangeClient W} {decisions : Dict DecisionId ExitLevels} {t t' : OrderTable}
  {fills : List FillRecord} {e e' : CcxtExecutor W}

/-- An order that is neither stored nor a child is not tracked. -/
theorem untracked (h : Mirrored c decisions t fills e) {id : OrderId}
    (hid : id ∉ t.map OrderRow.orderId) (hfire : ¬ e.MayFire c id) :
    e.openOrders.get? id = none := by
  cases hget : e.openOrders.get? id with
  | none => rfl
  | some p =>
      rcases (h.tracked id p hget).2.1 with hmem | hchild
      · exact absurd hmem hid
      · exact absurd hchild hfire

theorem nodup_concat {row : OrderRow} (h : (t.map OrderRow.orderId).Nodup)
    (hid : row.orderId ∉ t.map OrderRow.orderId) :
    ((t ++ [row]).map OrderRow.orderId).Nodup := by
  rw [List.map_append, List.map_singleton]
  refine List.nodup_append.mpr ⟨h, List.nodup_singleton _, ?_⟩
  rintro i hi j hj rfl
  rw [List.mem_singleton] at hj
  exact hid (hj ▸ hi)

/-- A new row, for an order that is not tracked: it is the fill, if there is one. -/
theorem append (h : Mirrored c decisions t fills e) {row : OrderRow} (ht : e'.Tidy c)
    (ho : e'.openOrders = e.openOrders) (hk : e'.knownOrderIds = e.knownOrderIds)
    (hp : e'.protection.isSome = e.protection.isSome)
    (hid : row.orderId ∉ t.map OrderRow.orderId) (hfire : ¬ e.MayFire c row.orderId) :
    Mirrored c decisions (t ++ [row]) (fills ++ (row.replayed decisions).toList) e' := by
  have hcarry := h.carry ht ho hk hp
  have hfire' : ¬ e'.MayFire c row.orderId := by
    unfold CcxtExecutor.MayFire at hfire ⊢
    rw [hp]
    exact hfire
  have hnone := hcarry.untracked hid hfire'
  have hold : ∀ row' ∈ t, row'.orderId ≠ row.orderId := by
    intro row' hrow' hsame
    exact hid (hsame ▸ List.mem_map_of_mem hrow')
  refine ⟨ht, nodup_concat h.rows hid, ?_, ?_, ?_, hcarry.results, ?_, hcarry.genuine⟩
  · have hnew : some row.orderId ∉ fills.map FillRecord.orderId := by
      refine h.not_booked (fun row' hrow' hsame => absurd hsame (hold row' hrow')) ?_
      intro p hget
      rw [← ho, hnone] at hget
      cases hget
    cases hf : row.replayed decisions with
    | none =>
        rw [Option.toList_none, List.append_nil]
        exact h.once
    | some f =>
        rw [Option.toList_some, List.map_append, List.map_singleton, orderId_replayed hf]
        refine List.nodup_append.mpr ⟨h.once, List.nodup_singleton _, ?_⟩
        rintro i hi j hj rfl
        rw [List.mem_singleton] at hj
        exact hnew (hj ▸ hi)
  · intro f
    rw [List.mem_append, hcarry.mem f, Option.mem_toList]
    constructor
    · rintro ((⟨row', hrow', hf⟩ | hwait) | hf)
      · exact Or.inl ⟨row', List.mem_append_left _ hrow', hf⟩
      · exact Or.inr hwait
      · exact Or.inl ⟨row, List.mem_append_right _ (List.mem_singleton_self row), hf⟩
    · rintro (⟨row', hrow', hf⟩ | hwait)
      · rcases List.mem_append.mp hrow' with hrow' | hrow'
        · exact Or.inl (Or.inl ⟨row', hrow', hf⟩)
        · rw [List.mem_singleton.mp hrow'] at hf
          exact Or.inr hf
      · exact Or.inl (Or.inr hwait)
  · intro id p hget
    obtain ⟨hpaper, hstored, hrows⟩ := hcarry.tracked id p hget
    refine ⟨hpaper, ?_, fun row' hrow' hsame => ?_⟩
    · rw [List.map_append]
      exact hstored.imp_left (List.mem_append_left _)
    · rcases List.mem_append.mp hrow' with hrow' | hrow'
      · exact hrows row' hrow' hsame
      · rw [List.mem_singleton.mp hrow'] at hsame
        rw [hsame, hget] at hnone
        cases hnone
  · intro row' hrow' hmay
    rcases List.mem_append.mp hrow' with hrow' | hrow'
    · exact hcarry.known row' hrow' hmay
    · rw [List.mem_singleton.mp hrow'] at hmay
      exact absurd hmay hfire'

/-- A new working order and its row. -/
theorem tracks (h : Mirrored c decisions t fills e) {row : OrderRow} {p : PendingOrder}
    (ho : e'.openOrders = e.openOrders.set row.orderId p) (hk : e'.knownOrderIds = e.knownOrderIds)
    (hp : e'.protection.isSome = e.protection.isSome) (hworking : p.resolved = none)
    (hid : row.orderId ∉ t.map OrderRow.orderId) (hfire : ¬ e.MayFire c row.orderId)
    (hpaper : isPaperOrder row.orderId = false) (hopen : row.Open decisions p) :
    Mirrored c decisions (t ++ [row]) fills e' := by
  have hstored := h.append h.tidy rfl rfl rfl hid hfire
  rw [hopen.unfilled, Option.toList_none, List.append_nil] at hstored
  have hnone := h.untracked hid hfire
  have hmay : ∀ id, e'.MayFire c id ↔ e.MayFire c id := by
    intro id
    unfold CcxtExecutor.MayFire
    rw [hp]
  have hcases : ∀ id p', e'.openOrders.get? id = some p' →
      id = row.orderId ∧ p' = p ∨ e.openOrders.get? id = some p' := by
    intro id p' hget
    rw [ho, Dict.get?_set] at hget
    split_ifs at hget with hsame
    · exact Or.inl ⟨hsame.symm, (Option.some.inj hget).symm⟩
    · exact Or.inr hget
  refine ⟨?_, hstored.rows, hstored.once, ?_, ?_, ?_, ?_, ?_⟩
  · intro id p' hget
    rw [hmay, hk]
    rcases hcases id p' hget with ⟨rfl, rfl⟩ | hold
    · refine ⟨fun r hr => ?_, fun hf => absurd hf hfire⟩
      rw [hworking] at hr
      cases hr
    · exact h.tidy id p' hold
  · intro f
    rw [hstored.mem f]
    refine or_congr_right ⟨?_, ?_⟩
    · rintro ⟨id, p', hget, hwait⟩
      have hne : row.orderId ≠ id := by
        rintro rfl
        rw [hnone] at hget
        cases hget
      exact ⟨id, p', by rw [ho, Dict.get?_set_ne _ _ hne]; exact hget, hwait⟩
    · rintro ⟨id, p', hget, hwait⟩
      rcases hcases id p' hget with ⟨rfl, rfl⟩ | hold
      · rw [awaiting_of_working hworking] at hwait
        cases hwait
      · exact ⟨id, p', hold, hwait⟩
  · intro id p' hget
    rw [hmay]
    rcases hcases id p' hget with ⟨rfl, rfl⟩ | hold
    · refine ⟨hpaper, Or.inl ?_, fun row' hrow' hsame => ?_⟩
      · exact List.mem_map_of_mem (List.mem_append_right _ (List.mem_singleton_self row))
      · rcases List.mem_append.mp hrow' with hrow' | hrow'
        · exact absurd (hsame ▸ List.mem_map_of_mem hrow') hid
        · rw [List.mem_singleton.mp hrow']
          exact hopen
    · exact hstored.tracked id p' hold
  · intro id p' r hget hr
    rcases hcases id p' hget with ⟨rfl, rfl⟩ | hold
    · rw [hworking] at hr
      cases hr
    · exact h.results id p' r hold hr
  · intro row' hrow' hf
    rw [hk]
    exact hstored.known row' hrow' ((hmay _).mp hf)
  · intro id hf
    exact h.genuine id ((hmay id).mp hf)

/-- A result whose row is written waits no more. -/
theorem stores (h : Mirrored c decisions t fills e) {id : OrderId} {p : PendingOrder}
    (hget : e.openOrders.get? id = some p) (ht : e'.Tidy c)
    (ho : e'.openOrders = e.openOrders.erase id) (hk : e'.knownOrderIds = e.knownOrderIds)
    (hp : e'.protection.isSome = e.protection.isSome)
    (hids : (t'.map OrderRow.orderId).Nodup)
    (hrows : ∀ row ∈ t', row ∈ t ∧ row.orderId ≠ id ∨
      row.orderId = id ∧ row.replayed decisions = p.awaiting decisions id)
    (hkeep : ∀ row ∈ t, row.orderId ≠ id → row ∈ t') (hnew : ∃ row ∈ t', row.orderId = id) :
    Mirrored c decisions t' fills e' := by
  have hmay : ∀ i, e'.MayFire c i ↔ e.MayFire c i := by
    intro i
    unfold CcxtExecutor.MayFire
    rw [hp]
  have hcases : ∀ i p', e'.openOrders.get? i = some p' →
      id ≠ i ∧ e.openOrders.get? i = some p' := by
    intro i p' hget'
    rw [ho, Dict.get?_erase] at hget'
    split_ifs at hget' with hsame
    exact ⟨hsame, hget'⟩
  refine ⟨ht, hids, h.once, ?_, ?_, ?_, ?_, ?_⟩
  · intro f
    rw [h.mem f]
    constructor
    · rintro (⟨row, hrow, hf⟩ | ⟨i, p', hget', hwait⟩)
      · refine Or.inl ⟨row, hkeep row hrow ?_, hf⟩
        intro hsame
        rw [((h.tracked id p hget).2.2 row hrow hsame).unfilled] at hf
        cases hf
      · by_cases hsame : id = i
        · subst hsame
          rw [hget] at hget'
          obtain rfl := Option.some.inj hget'
          obtain ⟨row, hrow, hid⟩ := hnew
          rcases hrows row hrow with ⟨-, hne⟩ | ⟨-, hreplay⟩
          · exact absurd hid hne
          · exact Or.inl ⟨row, hrow, hreplay.trans hwait⟩
        · exact Or.inr ⟨i, p', by rw [ho, Dict.get?_erase_ne _ hsame]; exact hget', hwait⟩
    · rintro (⟨row, hrow, hf⟩ | ⟨i, p', hget', hwait⟩)
      · rcases hrows row hrow with ⟨hold, -⟩ | ⟨-, hreplay⟩
        · exact Or.inl ⟨row, hold, hf⟩
        · exact Or.inr ⟨id, p, hget, hreplay.symm.trans hf⟩
      · exact Or.inr ⟨i, p', (hcases i p' hget').2, hwait⟩
  · intro i p' hget'
    obtain ⟨hne, hold⟩ := hcases i p' hget'
    obtain ⟨hpaper, hstored, hopen⟩ := h.tracked i p' hold
    refine ⟨hpaper, ?_, fun row hrow hsame => ?_⟩
    · rw [hmay]
      refine hstored.imp_left fun hmem => ?_
      obtain ⟨row, hrow, hsame⟩ := List.mem_map.mp hmem
      subst hsame
      exact List.mem_map_of_mem (hkeep row hrow hne.symm)
    · rcases hrows row hrow with ⟨hin, -⟩ | ⟨hid, -⟩
      · exact hopen row hin hsame
      · exact absurd (hid.symm.trans hsame) hne
  · intro i p' r hget' hr
    exact h.results i p' r (hcases i p' hget').2 hr
  · intro row hrow hf
    rw [hk]
    rcases hrows row hrow with ⟨hin, -⟩ | ⟨hid, -⟩
    · exact h.known row hin ((hmay _).mp hf)
    · rw [hid] at hf ⊢
      exact ((h.tidy id p hget).2 ((hmay id).mp hf)).2
  · intro i hf
    exact h.genuine i ((hmay i).mp hf)

/-- An order without a result is given up. -/
theorem drops (h : Mirrored c decisions t fills e) {id : OrderId}
    (hnone : ∀ p, e.openOrders.get? id = some p → p.awaiting decisions id = none)
    (ho : e'.openOrders = e.openOrders.erase id) (hk : e'.knownOrderIds = e.knownOrderIds)
    (hp : e'.protection.isSome = e.protection.isSome) : Mirrored c decisions t fills e' := by
  have hmay : ∀ i, e'.MayFire c i ↔ e.MayFire c i := by
    intro i
    unfold CcxtExecutor.MayFire
    rw [hp]
  have hcases : ∀ i p', e'.openOrders.get? i = some p' → e.openOrders.get? i = some p' := by
    intro i p' hget'
    rw [ho, Dict.get?_erase] at hget'
    split_ifs at hget'
    exact hget'
  refine ⟨?_, h.rows, h.once, ?_, ?_, ?_, ?_, ?_⟩
  · intro i p' hget'
    rw [hmay, hk]
    exact h.tidy i p' (hcases i p' hget')
  · intro f
    rw [h.mem f]
    refine or_congr_right ⟨?_, ?_⟩
    · rintro ⟨i, p', hget', hwait⟩
      have hne : id ≠ i := by
        rintro rfl
        rw [hnone p' hget'] at hwait
        cases hwait
      exact ⟨i, p', by rw [ho, Dict.get?_erase_ne _ hne]; exact hget', hwait⟩
    · rintro ⟨i, p', hget', hwait⟩
      exact ⟨i, p', hcases i p' hget', hwait⟩
  · intro i p' hget'
    rw [hmay]
    exact h.tracked i p' (hcases i p' hget')
  · intro i p' r hget' hr
    exact h.results i p' r (hcases i p' hget') hr
  · intro row hrow hf
    rw [hk]
    exact h.known row hrow ((hmay _).mp hf)
  · intro i hf
    exact h.genuine i ((hmay i).mp hf)

end Mirrored

end SmartyTrader
