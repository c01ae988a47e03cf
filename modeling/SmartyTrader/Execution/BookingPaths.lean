import SmartyTrader.Execution.CcxtMoves
import SmartyTrader.Execution.SaxoExecutor

set_option autoImplicit false

/-! # Two ways to book a fill

Both executors book a fill in `place_order` when the venue reports it at once, and in
`reconcile_open_orders` when it reports it later. The two paths are written apart from each other.
`booking_paths_iff` says on which payloads they book the same: the price has to be one that the
placement keeps as it is, and for the ccxt executor the sell must leave a position or no levels.
-/

namespace SmartyTrader

open Lib

/-- The books of an executor: what it booked, the ledger and the exit levels. -/
structure Books where
  journal : List LedgerEntry
  tracker : PositionTracker
  exitLevels : Dict Symbol ExitLevels

/-- What a resolved order leaves and reports. -/
structure Booking where
  books : Books
  status : OrderStatus
  quantity : ℚ
  realizedPnl : Option ℚ
  closedEntries : List ClosedEntry
  feeBase : Option ℚ
  feeQuote : Option ℚ

def Booking.of (r : OrderResult) (books : Books) : Booking where
  books := books
  status := r.status
  quantity := r.quantity
  realizedPnl := r.realizedPnl
  closedEntries := r.closedEntries
  feeBase := r.feeBase
  feeQuote := r.feeQuote

variable {W : Type}

/-! ## The ccxt executor -/

namespace CcxtExecutor

def books (e : CcxtExecutor W) : Books := ⟨e.journal, e.tracker, e.exitLevels⟩

/-- An executor with other books: between a placement and the next reconcile everything else may
change. -/
def withBooks (e : CcxtExecutor W) (b : Books) : CcxtExecutor W :=
  { e with
    journal := b.journal
    tracker := b.tracker
    exitLevels := b.exitLevels }

/-- What `place_order` books and reports, before the protective order follows. -/
def bookedAtPlacement (e : CcxtExecutor W) (req : OrderRequest) (orderId : OrderId) (amount : ℚ)
    (limit : Option ℚ) (raw : RawOrder) (now : Time) : OrderResult × CcxtExecutor W :=
  let result := placedResult req orderId amount limit raw now
  match result.status, result.price with
  | .filled, some price =>
      let r := e.bookPlaced req orderId result.quantity price raw
      (withFill result (reportedFees raw req.symbol) r.1, r.2)
  | _, _ => (result, e)

/-- What `reconcile_open_orders` books and reports for the same order, from the executor as it is
by then. -/
def bookedAtReconcile (later : CcxtExecutor W) (req : OrderRequest) (orderId : OrderId)
    (amount : ℚ) (limit : Option ℚ) (raw : RawOrder) (placed now : Time) :
    OrderResult × CcxtExecutor W :=
  let s := resolveStatus raw amount
  later.settle orderId (pendingOf req amount limit placed) raw s.1 s.2.1 s.2.2 now

section Paths

variable (c : ExchangeClient W)

/-- A placement with a final payload books, and then syncs the protective order. -/
theorem closePlacement_final (e : CcxtExecutor W) (req : OrderRequest) (orderId : OrderId)
    (amount : ℚ) (limit : Option ℚ) (raw : RawOrder) (now : Time)
    (h : (resolveStatus raw amount).1 ≠ .pending) :
    (closePlacement c e req orderId amount limit raw now).1
        = (e.bookedAtPlacement req orderId amount limit raw now).1 ∧
      ((closePlacement c e req orderId amount limit raw now).2
          = syncProtection c req.symbol now (e.bookedAtPlacement req orderId amount limit raw now).2 ∨
        (closePlacement c e req orderId amount limit raw now).2
          = (e.bookedAtPlacement req orderId amount limit raw now).2) := by
  unfold closePlacement bookedAtPlacement
  have hstatus : (placedResult req orderId amount limit raw now).status ≠ .pending := h
  generalize placedResult req orderId amount limit raw now = result at hstatus ⊢
  dsimp only
  cases hs : result.status with
  | filled =>
      cases hp : result.price with
      | none => exact ⟨rfl, Or.inr rfl⟩
      | some price => exact ⟨rfl, Or.inl rfl⟩
  | pending => exact absurd hs hstatus
  | cancelled => exact ⟨rfl, Or.inr rfl⟩
  | rejected => exact ⟨rfl, Or.inr rfl⟩

/-- A placement that the venue leaves open tracks the order. -/
theorem closePlacement_pending (e : CcxtExecutor W) (req : OrderRequest) (orderId : OrderId)
    (amount : ℚ) (limit : Option ℚ) (raw : RawOrder) (now : Time) (hid : orderId ≠ "")
    (h : (resolveStatus raw amount).1 = .pending) :
    (closePlacement c e req orderId amount limit raw now).2
      = { e with openOrders := e.openOrders.set orderId (pendingOf req amount limit now) } := by
  unfold closePlacement
  dsimp only
  rw [show (placedResult req orderId amount limit raw now).status = .pending from h]
  dsimp only
  rw [if_pos hid]

/-- The markets aside, loading them changes the world only. -/
theorem ensureMarkets_eq (e : CcxtExecutor W) :
    ∃ w m, e.ensureMarkets c = { e with world := w, markets := m } := by
  unfold ensureMarkets
  split
  · exact ⟨e.world, e.markets, rfl⟩
  · split
    · exact ⟨e.world, _, rfl⟩
    · split
      · exact ⟨e.world, e.markets, rfl⟩
      · split
        · exact ⟨_, e.markets, rfl⟩
        · split
          · exact ⟨_, _, rfl⟩
          · exact ⟨_, e.markets, rfl⟩

/-- A reconcile that hears the final payload books it on the executor that tracked the order, and
then syncs the protective order. -/
theorem reconcileOne_final (f : OrderId → Symbol → W → Except PyError (Option RawOrder) × W)
    (e : CcxtExecutor W) (req : OrderRequest) (orderId : OrderId) (amount : ℚ)
    (limit : Option ℚ) (raw : RawOrder) (placed now : Time) (w : W)
    (hf : f orderId req.symbol e.world = (.ok (some raw), w))
    (h : (resolveStatus raw amount).1 ≠ .pending) :
    ∃ w' m b, b = bookedAtReconcile { e with world := w', markets := m } req orderId amount limit
        raw placed now ∧
      reconcileOne c f orderId (pendingOf req amount limit placed) now e
        = (some b.1, syncProtection c req.symbol now
            (b.2.resolve orderId (pendingOf req amount limit placed) b.1)) := by
  obtain ⟨w', m, hmarkets⟩ := ensureMarkets_eq c { e with world := w }
  refine ⟨w', m, _, rfl, ?_⟩
  unfold reconcileOne pollOrder
  simp only [pendingOf, hf, Option.getD_some, h, false_and, if_false]
  rw [hmarkets]
  rfl

end Paths

/-! ### Recording the same fill -/

/-- What the ledger has left of the symbol once a fill is booked, dust included. -/
def leftBy (e : CcxtExecutor W) (f : BookedFill) : ℚ := (e.book f).2.tracker.quantity f.symbol

/-- A sell leaves something that can never be traded. -/
def LeavesDust (e : CcxtExecutor W) (f : BookedFill) : Prop :=
  f.side = .sell ∧ 0 < e.leftBy f ∧ e.isDust f.symbol (e.leftBy f) = true

instance (e : CcxtExecutor W) (f : BookedFill) : Decidable (e.LeavesDust f) :=
  inferInstanceAs (Decidable (_ ∧ _))

/-- A sell that closes nothing leaves no position. -/
theorem leftBy_of_unmatched (e : CcxtExecutor W) (f : BookedFill) (hside : f.side = .sell)
    (hnone : (e.book f).1 = none) : e.leftBy f ≤ 0 := by
  unfold leftBy book bookFill at *
  rw [hside] at hnone ⊢
  dsimp only at hnone ⊢
  split_ifs at hnone ⊢ with hflat
  exact hflat

/-- The books after a fill: the fill is booked, and dust is written off with the levels. -/
theorem books_recordFill (e : CcxtExecutor W) (f : BookedFill) :
    (e.recordFill f).2.books =
      if e.LeavesDust f then
        ⟨e.journal ++ [.fill f, .writeOff f.symbol], (e.book f).2.tracker.discard f.symbol,
          e.exitLevels.erase f.symbol⟩
      else ⟨e.journal ++ [.fill f], (e.book f).2.tracker, e.exitLevels⟩ := by
  have hbooks : (e.book f).2.books
      = ⟨e.journal ++ [.fill f], (e.book f).2.tracker, e.exitLevels⟩ := rfl
  unfold recordFill
  dsimp only
  split
  · rename_i outcome hside houtcome
    unfold writeOffDust
    dsimp only
    have hdust : e.LeavesDust f ↔ 0 < (e.book f).2.tracker.quantity f.symbol ∧
        (e.book f).2.isDust f.symbol ((e.book f).2.tracker.quantity f.symbol) = true :=
      ⟨fun h => h.2, fun h => ⟨hside, h⟩⟩
    by_cases h : e.LeavesDust f
    · rw [if_pos h, if_pos (hdust.mp h)]
      show Books.mk ((e.journal ++ [.fill f]) ++ [.writeOff f.symbol]) _ _ = _
      rw [List.append_assoc]
      rfl
    · rw [if_neg h, if_neg (fun hd => h (hdust.mpr hd)), hbooks]
  · rename_i hnone
    have hnot : ¬ e.LeavesDust f := by
      rintro ⟨hside, hleft, -⟩
      have hunmatched : (e.book f).1 = none :=
        Option.eq_none_iff_forall_ne_some.mpr fun outcome h => hnone outcome hside h
      exact absurd hleft (not_lt.mpr (e.leftBy_of_unmatched f hside hunmatched))
    rw [if_neg hnot, hbooks]

/-- Levels after a fill of a side: a buy plans its own. -/
def plannedLevels (levels : Dict Symbol ExitLevels) (req : OrderRequest) : Dict Symbol ExitLevels :=
  if req.side = .buy then levels.set req.symbol (req.stopLoss, req.takeProfit) else levels

/-- The books after a fill that was booked when it was placed. -/
theorem books_bookPlaced (e : CcxtExecutor W) (req : OrderRequest) (orderId : OrderId)
    (quantity price : ℚ) (raw : RawOrder) (b : Books)
    (hb : b = (e.recordFill
      (reportedFill orderId req.symbol req.side quantity price req.decisionId raw)).2.books) :
    (e.bookPlaced req orderId quantity price raw).2.books =
      ⟨b.journal, b.tracker,
        if b.tracker.quantity req.symbol ≤ 0 then (plannedLevels b.exitLevels req).erase req.symbol
        else plannedLevels b.exitLevels req⟩ := by
  subst hb
  unfold bookPlaced dropFlatLevels plannedLevels
  by_cases hside : req.side = .buy
  · simp only [if_pos hside, books]
    split_ifs <;> rfl
  · simp only [if_neg hside, books]
    split_ifs <;> rfl

/-- The books after a fill that was booked when its order was reconciled. -/
theorem books_settle (e : CcxtExecutor W) (req : OrderRequest) (orderId : OrderId)
    (amount : ℚ) (limit : Option ℚ) (raw : RawOrder) (placed now : Time) (price : ℚ) (b : Books)
    (hs : (resolveStatus raw amount).1 = .filled) (hprice : raw.fillPrice = some price)
    (hb : b = (e.recordFill (reportedFill orderId req.symbol req.side (resolveStatus raw amount).2.1
      price req.decisionId raw)).2.books) :
    (e.bookedAtReconcile req orderId amount limit raw placed now).2.books =
      ⟨b.journal, b.tracker, plannedLevels b.exitLevels req⟩ := by
  subst hb
  unfold bookedAtReconcile settle plannedLevels pendingOf
  dsimp only
  rw [if_pos hs, hprice]
  dsimp only
  split_ifs <;> rfl

/-! ### When the paths agree -/

/-- The fill of a final payload at a price. -/
def fillOf (req : OrderRequest) (orderId : OrderId) (amount : ℚ) (raw : RawOrder) (price : ℚ) :
    BookedFill :=
  reportedFill orderId req.symbol req.side (resolveStatus raw amount).2.1 price req.decisionId raw

/-- What makes the paths book a filled order the same. -/
structure SamePath (e later : CcxtExecutor W) (req : OrderRequest) (orderId : OrderId)
    (amount : ℚ) (limit : Option ℚ) (raw : RawOrder) : Prop where
  /-- The placement has no use for the limit or the reference price. -/
  price : pyOr raw.fillPrice (pyOr limit req.price) = raw.fillPrice
  /-- The fill leaves a position, or it is a sell of a symbol without levels. -/
  levels : ∀ price ∈ raw.fillPrice, 0 < e.leftBy (fillOf req orderId amount raw price) ∨
    (req.side = .sell ∧ e.exitLevels.get? req.symbol = none)
  /-- What is left is dust for both, or for none: the venue's markets may become known between. -/
  dust : ∀ price ∈ raw.fillPrice, e.LeavesDust (fillOf req orderId amount raw price) ↔
    later.LeavesDust (fillOf req orderId amount raw price)

/-- The same fill, booked on the executor as it was placed and as it is later. -/
theorem books_eq_iff {e later : CcxtExecutor W} (hbooks : later.books = e.books)
    (req : OrderRequest) (f : BookedFill) (hsymbol : f.symbol = req.symbol)
    (hside : f.side = req.side) (b b' : Books) (hb : b = (e.recordFill f).2.books)
    (hb' : b' = (later.recordFill f).2.books) :
    (Books.mk b.journal b.tracker
        (if b.tracker.quantity req.symbol ≤ 0 then (plannedLevels b.exitLevels req).erase req.symbol
        else plannedLevels b.exitLevels req)
      = Books.mk b'.journal b'.tracker (plannedLevels b'.exitLevels req)) ↔
      ((0 < e.leftBy f ∨ (req.side = .sell ∧ e.exitLevels.get? req.symbol = none)) ∧
        (e.LeavesDust f ↔ later.LeavesDust f)) := by
  obtain ⟨hjournal, htracker, hlevels⟩ := Books.mk.inj hbooks
  have hbook : (later.book f).2.tracker = (e.book f).2.tracker := by
    unfold book
    rw [htracker]
  rw [books_recordFill, hbook, hjournal, hlevels] at hb'
  rw [books_recordFill] at hb
  have hleft : e.leftBy f = (e.book f).2.tracker.quantity req.symbol := by
    unfold leftBy
    rw [hsymbol]
  by_cases hdust : e.LeavesDust f
  · by_cases hdust' : later.LeavesDust f
    · -- Both write the rest off, and the levels with it.
      rw [if_pos hdust] at hb
      rw [if_pos hdust'] at hb'
      subst hb hb'
      have hsell : req.side ≠ .buy := by
        rw [← hside, hdust.1]
        decide
      have hflat : ((e.book f).2.tracker.discard f.symbol).quantity req.symbol ≤ 0 := by
        unfold PositionTracker.quantity
        rw [PositionTracker.lotsOf_discard, if_pos hsymbol]
        exact le_refl 0
      have herased : ((e.exitLevels.erase f.symbol).erase req.symbol)
          = e.exitLevels.erase f.symbol := by
        rw [hsymbol, Dict.erase_eq_self_iff, Dict.get?_erase_self]
      unfold plannedLevels
      rw [if_neg hsell, if_pos hflat, herased]
      exact ⟨fun _ => ⟨Or.inl hdust.2.1, iff_of_true hdust hdust'⟩, fun _ => rfl⟩
    · rw [if_pos hdust] at hb
      rw [if_neg hdust'] at hb'
      subst hb hb'
      exact ⟨fun h => by simp at h, fun h => absurd (h.2.mp hdust) hdust'⟩
  · by_cases hdust' : later.LeavesDust f
    · rw [if_neg hdust] at hb
      rw [if_pos hdust'] at hb'
      subst hb hb'
      exact ⟨fun h => by simp at h, fun h => absurd (h.2.mpr hdust') hdust⟩
    · -- Nothing is written off: only the levels may differ.
      rw [if_neg hdust] at hb
      rw [if_neg hdust'] at hb'
      subst hb hb'
      have hsame : (e.LeavesDust f ↔ later.LeavesDust f) := iff_of_false hdust hdust'
      rw [hleft]
      dsimp only
      by_cases hflat : (e.book f).2.tracker.quantity req.symbol ≤ 0
      · have hlevels' : (plannedLevels e.exitLevels req).get? req.symbol = none ↔
            req.side = .sell ∧ e.exitLevels.get? req.symbol = none := by
          unfold plannedLevels
          cases req.side with
          | buy => simp
          | sell => simp
        rw [if_pos hflat]
        simp only [Books.mk.injEq, true_and, Dict.erase_eq_self_iff, hlevels', hsame, and_true,
          not_lt.mpr hflat, false_or]
      · rw [if_neg hflat]
        exact ⟨fun _ => ⟨Or.inl (not_le.mp hflat), hsame⟩, fun _ => rfl⟩

/-- A fill stands at the end of what was booked before it. -/
theorem journal_recordFill (e : CcxtExecutor W) (f : BookedFill) :
    ∃ rest, (e.recordFill f).2.books.journal = e.journal ++ .fill f :: rest := by
  rw [books_recordFill]
  split_ifs
  · exact ⟨_, rfl⟩
  · exact ⟨[], rfl⟩

/-- What a fill realizes is a matter of the ledger. -/
theorem realized_recordFill {e later : CcxtExecutor W} (f : BookedFill)
    (h : (later.book f).1 = (e.book f).1) : (later.recordFill f).1 = (e.recordFill f).1 := by
  unfold recordFill
  dsimp only
  rw [h]
  cases f.side with
  | buy => rfl
  | sell => cases (e.book f).1 <;> rfl

section Final

variable (e : CcxtExecutor W) (req : OrderRequest) (orderId : OrderId) (amount : ℚ)
  (limit : Option ℚ) (raw : RawOrder) (placed now : Time)

/-- A filled order with a usable price, booked when it was placed. -/
theorem bookedAtPlacement_filled {price : ℚ} (hs : (resolveStatus raw amount).1 = .filled)
    (hprice : pyOr raw.fillPrice (pyOr limit req.price) = some price) :
    e.bookedAtPlacement req orderId amount limit raw now
      = (withFill (placedResult req orderId amount limit raw now) (reportedFees raw req.symbol)
          (e.bookPlaced req orderId (resolveStatus raw amount).2.1 price raw).1,
        (e.bookPlaced req orderId (resolveStatus raw amount).2.1 price raw).2) := by
  have hstatus : (placedResult req orderId amount limit raw now).status = .filled := hs
  have hp : (placedResult req orderId amount limit raw now).price = some price := hprice
  unfold bookedAtPlacement
  dsimp only
  rw [hstatus, hp]
  rfl

/-- Anything else is only reported. -/
theorem bookedAtPlacement_unbooked (h : (resolveStatus raw amount).1 = .filled →
      pyOr raw.fillPrice (pyOr limit req.price) = none) :
    e.bookedAtPlacement req orderId amount limit raw now
      = (placedResult req orderId amount limit raw now, e) := by
  unfold bookedAtPlacement
  dsimp only
  split
  · rename_i price hs hp
    have hnone := h hs
    rw [show pyOr raw.fillPrice (pyOr limit req.price) = some price from hp] at hnone
    cases hnone
  · rfl

theorem bookedAtReconcile_unbooked (h : (resolveStatus raw amount).1 = .filled →
      raw.fillPrice = none) :
    (e.bookedAtReconcile req orderId amount limit raw placed now).2 = e :=
  settle_unbooked e orderId _ _ _ now h

/-- A fill that the placement books stands behind what was booked before it. -/
theorem journal_bookedAtPlacement {price : ℚ} (hs : (resolveStatus raw amount).1 = .filled)
    (hprice : pyOr raw.fillPrice (pyOr limit req.price) = some price) :
    ∃ rest, (e.bookedAtPlacement req orderId amount limit raw now).2.books.journal
      = e.journal ++ .fill (fillOf req orderId amount raw price) :: rest := by
  rw [bookedAtPlacement_filled e req orderId amount limit raw now hs hprice,
    books_bookPlaced e req orderId _ price raw _ rfl]
  exact e.journal_recordFill _

/-- So does one that the reconcile books. -/
theorem journal_bookedAtReconcile {price : ℚ} (hs : (resolveStatus raw amount).1 = .filled)
    (hprice : raw.fillPrice = some price) :
    ∃ rest, (e.bookedAtReconcile req orderId amount limit raw placed now).2.books.journal
      = e.journal ++ .fill (fillOf req orderId amount raw price) :: rest := by
  rw [books_settle e req orderId amount limit raw placed now price _ hs hprice rfl]
  exact e.journal_recordFill _

end Final

section Compare

variable {e later : CcxtExecutor W} {req : OrderRequest} {orderId : OrderId} {amount : ℚ}
  {limit : Option ℚ} {raw : RawOrder} {placed now now' : Time}

/-- Bookings that agree are at one price. -/
theorem price_of_booking_eq (hjournal : later.journal = e.journal)
    (hs : (resolveStatus raw amount).1 = .filled)
    (h : (e.bookedAtPlacement req orderId amount limit raw now).2.books
      = (later.bookedAtReconcile req orderId amount limit raw placed now').2.books) :
    pyOr raw.fillPrice (pyOr limit req.price) = raw.fillPrice := by
  have hsame := congrArg Books.journal h
  cases hplace : pyOr raw.fillPrice (pyOr limit req.price) with
  | none =>
      rw [bookedAtPlacement_unbooked e req orderId amount limit raw now fun _ => hplace] at hsame
      cases hfill : raw.fillPrice with
      | none => rfl
      | some price =>
          obtain ⟨rest, hrest⟩ :=
            journal_bookedAtReconcile later req orderId amount limit raw placed now' hs hfill
          rw [hrest, hjournal] at hsame
          exact absurd hsame (by simp [books])
  | some price =>
      obtain ⟨rest, hrest⟩ := journal_bookedAtPlacement e req orderId amount limit raw now hs hplace
      rw [hrest] at hsame
      cases hfill : raw.fillPrice with
      | none =>
          rw [bookedAtReconcile_unbooked later req orderId amount limit raw placed now'
            fun _ => hfill] at hsame
          exact absurd (hsame.trans hjournal) (by simp)
      | some price' =>
          obtain ⟨rest', hrest'⟩ :=
            journal_bookedAtReconcile later req orderId amount limit raw placed now' hs hfill
          rw [hrest', hjournal] at hsame
          have hfills := (List.cons.inj (List.append_cancel_left hsame)).1
          exact congrArg some (congrArg BookedFill.price (LedgerEntry.fill.inj hfills))

/-- What a filled order reports. -/
def filledReport (req : OrderRequest) (amount : ℚ) (raw : RawOrder)
    (realized : Option ℚ × List ClosedEntry) (b : Books) : Booking where
  books := b
  status := .filled
  quantity := (resolveStatus raw amount).2.1
  realizedPnl := realized.1
  closedEntries := realized.2
  feeBase := (reportedFees raw req.symbol).1
  feeQuote := (reportedFees raw req.symbol).2

theorem report_bookedAtPlacement {price : ℚ} (hs : (resolveStatus raw amount).1 = .filled)
    (hprice : pyOr raw.fillPrice (pyOr limit req.price) = some price) (b : Books) :
    Booking.of (e.bookedAtPlacement req orderId amount limit raw now).1 b
      = filledReport req amount raw (e.recordFill (fillOf req orderId amount raw price)).1 b := by
  rw [bookedAtPlacement_filled e req orderId amount limit raw now hs hprice, filledReport, ← hs]
  rfl

theorem report_bookedAtReconcile {price : ℚ} (hs : (resolveStatus raw amount).1 = .filled)
    (hprice : raw.fillPrice = some price) (b : Books) :
    Booking.of (later.bookedAtReconcile req orderId amount limit raw placed now').1 b
      = filledReport req amount raw (later.recordFill (fillOf req orderId amount raw price)).1
        b := by
  unfold bookedAtReconcile settle
  dsimp only
  rw [if_pos hs, hprice, filledReport, ← hs]
  rfl

/-- At one price both paths report the same. -/
theorem report_eq {price : ℚ} (hs : (resolveStatus raw amount).1 = .filled)
    (hplace : pyOr raw.fillPrice (pyOr limit req.price) = some price)
    (hfill : raw.fillPrice = some price)
    (hbook : ∀ f, (later.book f).1 = (e.book f).1) (b : Books) :
    Booking.of (e.bookedAtPlacement req orderId amount limit raw now).1 b
      = Booking.of (later.bookedAtReconcile req orderId amount limit raw placed now').1 b := by
  have hrealized : (later.recordFill (fillOf req orderId amount raw price)).1
      = (e.recordFill (fillOf req orderId amount raw price)).1 := realized_recordFill _ (hbook _)
  rw [report_bookedAtPlacement hs hplace b, report_bookedAtReconcile hs hfill b, hrealized]

end Compare

theorem Booking.of_eq_iff (r : OrderResult) (b b' : Books) :
    Booking.of r b = Booking.of r b' ↔ b = b' := by
  simp [Booking.of]

/-- What the placement books and what the reconcile books of a final payload is the same exactly
when the payload takes the same path through both. -/
theorem booking_iff {e later : CcxtExecutor W} (hbooks : later.books = e.books)
    (req : OrderRequest) (orderId : OrderId) (amount : ℚ) (limit : Option ℚ) (raw : RawOrder)
    (placed now now' : Time) :
    Booking.of (e.bookedAtPlacement req orderId amount limit raw now).1
        (e.bookedAtPlacement req orderId amount limit raw now).2.books
      = Booking.of (later.bookedAtReconcile req orderId amount limit raw placed now').1
        (later.bookedAtReconcile req orderId amount limit raw placed now').2.books ↔
      ((resolveStatus raw amount).1 = .filled → SamePath e later req orderId amount limit raw) := by
  have hbook : ∀ f, (later.book f).1 = (e.book f).1 := fun f => by
    unfold book
    rw [show later.tracker = e.tracker from congrArg Books.tracker hbooks]
  by_cases hs : (resolveStatus raw amount).1 = .filled
  · simp only [hs, true_imp_iff]
    by_cases hprice : pyOr raw.fillPrice (pyOr limit req.price) = raw.fillPrice
    · cases hfill : raw.fillPrice with
      | none =>
          -- Neither path has a price to book.
          rw [hfill] at hprice
          rw [bookedAtPlacement_unbooked e req orderId amount limit raw now (fun _ => by
            rw [hfill]; exact hprice), bookedAtReconcile_unbooked later req orderId amount limit raw
            placed now' (fun _ => hfill), hbooks]
          refine iff_of_true ?_ ⟨by rw [hfill]; exact hprice, by simp [hfill], by simp [hfill]⟩
          unfold bookedAtReconcile settle
          dsimp only
          rw [if_pos hs, hfill]
          rfl
      | some price =>
          have hplace := hprice.trans hfill
          rw [report_eq hs hplace hfill hbook, Booking.of_eq_iff,
            bookedAtPlacement_filled e req orderId amount limit raw now hs hplace,
            books_bookPlaced e req orderId _ price raw _ rfl,
            books_settle later req orderId amount limit raw placed now' price _ hs hfill rfl]
          refine (books_eq_iff hbooks req (fillOf req orderId amount raw price) rfl rfl _ _ rfl
            rfl).trans ?_
          constructor
          · rintro ⟨hlevels, hdust⟩
            refine ⟨hprice, fun p hp => ?_, fun p hp => ?_⟩
            · obtain rfl := Option.some.inj (hfill.symm.trans hp)
              exact hlevels
            · obtain rfl := Option.some.inj (hfill.symm.trans hp)
              exact hdust
          · intro h
            exact ⟨h.levels price hfill, h.dust price hfill⟩
    · refine iff_of_false (fun h => hprice ?_) fun h => hprice h.price
      exact price_of_booking_eq (congrArg Books.journal hbooks) hs (congrArg Booking.books h)
  · -- An order without a fill is reported alike and books nothing.
    rw [bookedAtPlacement_unbooked e req orderId amount limit raw now (fun h => absurd h hs),
      bookedAtReconcile_unbooked later req orderId amount limit raw placed now'
        (fun h => absurd h hs), hbooks]
    unfold bookedAtReconcile settle
    dsimp only
    rw [if_neg hs]
    exact ⟨fun _ h => absurd h hs, fun _ => rfl⟩

end CcxtExecutor

/-! ## The Saxo executor -/

namespace SaxoExecutor

def books (e : SaxoExecutor W) : Books := ⟨e.journal, e.tracker, e.exitLevels⟩

/-- An executor with other books. -/
def withBooks (e : SaxoExecutor W) (b : Books) : SaxoExecutor W :=
  { e with
    journal := b.journal
    tracker := b.tracker
    exitLevels := b.exitLevels }

/-- What `place_order` books and reports once the polls ended. -/
def bookedAtPlacement (e : SaxoExecutor W) (req : OrderRequest) (orderId : OrderId) (amount : ℚ)
    (entry : Option SaxoActivity) (now : Time) : OrderResult × SaxoExecutor W :=
  let (status, quantity, fillPrice, reason) := resolveActivity entry amount
  let result := OrderResult.basic orderId req.symbol req.side quantity req.price status reason
  match status with
  | .filled =>
      let fill := e.checkedFillPrice fillPrice req.price
      let result := { result with
        price := fill
        filledAt := some now }
      match fill with
      | none => (result, e)
      | some price =>
          let r := e.recordFill orderId req.symbol req.side quantity price req.decisionId
            (req.stopLoss, req.takeProfit)
          ({ result with
            realizedPnl := r.1.1
            closedEntries := r.1.2 }, r.2)
  | _ => (result, e)

/-- The order that waits for the next reconcile. -/
def pendingOf (req : OrderRequest) (amount : ℚ) (now : Time) : PendingOrder :=
  ⟨req.symbol, req.side, amount, req.decisionId, req.stopLoss, req.takeProfit, none, some now,
    req.price⟩

/-- What `reconcile_open_orders` books and reports for the same order. -/
def bookedAtReconcile (later : SaxoExecutor W) (req : OrderRequest) (orderId : OrderId)
    (amount : ℚ) (entry : Option SaxoActivity) (placed now : Time) : OrderResult × SaxoExecutor W :=
  let s := resolveActivity entry amount
  later.settle orderId (pendingOf req amount placed) s.1 s.2.1 s.2.2.1 s.2.2.2 now

section Paths

variable (c : SaxoClient W)

/-- A placement whose polls end with a final entry books it. -/
theorem acceptOrder_final (e : SaxoExecutor W) (req : OrderRequest) (amount : ℚ)
    (orderId : OrderId) (entry : Option SaxoActivity) (now : Time) (w : W)
    (hpoll : pollFill c orderId amount e.config.fillPolls (.pending, amount, none, none) e.world
      = (resolveActivity entry amount, w))
    (h : (resolveActivity entry amount).1 ≠ .pending) :
    acceptOrder c e req amount orderId now
      = bookedAtPlacement { e with world := w } req orderId amount entry now := by
  unfold acceptOrder bookedAtPlacement
  rw [hpoll]
  generalize resolveActivity entry amount = s at h ⊢
  obtain ⟨status, quantity, fillPrice, reason⟩ := s
  cases status with
  | filled => rfl
  | pending => exact absurd rfl h
  | cancelled => rfl
  | rejected => rfl

/-- A placement whose polls leave the order open tracks it. -/
theorem acceptOrder_pending (e : SaxoExecutor W) (req : OrderRequest) (amount : ℚ)
    (orderId : OrderId) (now : Time) (w : W) (q : ℚ) (price : Option ℚ)
    (reason : Option OrderReason)
    (hpoll : pollFill c orderId amount e.config.fillPolls (.pending, amount, none, none) e.world
      = ((.pending, q, price, reason), w)) :
    (acceptOrder c e req amount orderId now).2
      = { e with
          world := w
          openOrders := e.openOrders.set orderId (pendingOf req amount now) } := by
  unfold acceptOrder
  rw [hpoll]
  rfl

/-- A reconcile that hears the final entry books it on the executor that tracked the order. -/
theorem reconcileOne_final (e : SaxoExecutor W) (req : OrderRequest) (orderId : OrderId)
    (amount : ℚ) (entry : Option SaxoActivity) (placed now : Time) (w : W)
    (hpoll : c.getOrderActivity orderId e.world = (.ok entry, w))
    (h : (resolveActivity entry amount).1 ≠ .pending) :
    let b := bookedAtReconcile { e with world := w } req orderId amount entry placed now
    reconcileOne c orderId (pendingOf req amount placed) now e
      = (some b.1, b.2.resolve orderId (pendingOf req amount placed) b.1) := by
  unfold reconcileOne
  simp only [pendingOf, hpoll, h, if_false]
  rfl

end Paths

/-- What makes the paths book a filled order the same: the placement keeps the venue's price. -/
def SamePath (e : SaxoExecutor W) (req : OrderRequest) (amount : ℚ)
    (entry : Option SaxoActivity) : Prop :=
  e.checkedFillPrice (resolveActivity entry amount).2.2.1 req.price
    = (resolveActivity entry amount).2.2.1

/-- The books after a fill at a price. -/
theorem journal_recordFill (e : SaxoExecutor W) (orderId : OrderId) (symbol : Symbol)
    (side : OrderSide) (quantity price : ℚ) (decisionId : Option DecisionId)
    (levels : ExitLevels) :
    (e.recordFill orderId symbol side quantity price decisionId levels).2.journal
      = e.journal ++ [.fill ⟨orderId, symbol, side, quantity, price, 0, 0, decisionId⟩] := by
  unfold recordFill
  cases side with
  | buy => rfl
  | sell =>
      dsimp only
      split_ifs <;> rfl

/-- What a fill realizes and leaves is a matter of the books. -/
theorem recordFill_congr {e later : SaxoExecutor W} (h : later.books = e.books) (orderId : OrderId)
    (symbol : Symbol) (side : OrderSide) (quantity price : ℚ) (decisionId : Option DecisionId)
    (levels : ExitLevels) :
    (later.recordFill orderId symbol side quantity price decisionId levels).1
        = (e.recordFill orderId symbol side quantity price decisionId levels).1 ∧
      (later.recordFill orderId symbol side quantity price decisionId levels).2.books
        = (e.recordFill orderId symbol side quantity price decisionId levels).2.books := by
  obtain ⟨hjournal, htracker, hlevels⟩ := Books.mk.inj h
  unfold recordFill books
  cases side with
  | buy =>
      dsimp only
      rw [hjournal, htracker, hlevels]
      exact ⟨rfl, rfl⟩
  | sell =>
      dsimp only
      rw [htracker, hjournal]
      split_ifs
      · exact ⟨rfl, by rw [hlevels]⟩
      · exact ⟨rfl, by rw [hlevels]⟩
      · exact ⟨rfl, by rw [hlevels]⟩

/-- What the placement books and what the reconcile books of a final entry is the same exactly
when the placement keeps the venue's price. -/
theorem booking_iff {e later : SaxoExecutor W} (hbooks : later.books = e.books)
    (req : OrderRequest) (orderId : OrderId) (amount : ℚ) (entry : Option SaxoActivity)
    (placed now now' : Time) :
    Booking.of (e.bookedAtPlacement req orderId amount entry now).1
        (e.bookedAtPlacement req orderId amount entry now).2.books
      = Booking.of (later.bookedAtReconcile req orderId amount entry placed now').1
        (later.bookedAtReconcile req orderId amount entry placed now').2.books ↔
      ((resolveActivity entry amount).1 = .filled → SamePath e req amount entry) := by
  have hjournal : later.journal = e.journal := congrArg Books.journal hbooks
  unfold bookedAtPlacement bookedAtReconcile settle pendingOf SamePath
  generalize resolveActivity entry amount = s
  obtain ⟨status, quantity, fillPrice, reason⟩ := s
  dsimp only
  by_cases hs : status = .filled
  · subst hs
    simp only [if_true, true_imp_iff]
    generalize e.checkedFillPrice fillPrice req.price = checked
    cases checked with
    | none =>
        cases fillPrice with
        | none =>
            refine iff_of_true ?_ rfl
            show Booking.of _ e.books = Booking.of _ later.books
            rw [hbooks]
            rfl
        | some price =>
            refine iff_of_false (fun h => ?_) (by simp)
            have hsame := congrArg (fun b => b.books.journal) h
            exact absurd hsame (by simp [Booking.of, books, journal_recordFill, hjournal])
    | some price =>
        cases fillPrice with
        | none =>
            refine iff_of_false (fun h => ?_) (by simp)
            have hsame := congrArg (fun b => b.books.journal) h
            exact absurd hsame (by simp [Booking.of, books, journal_recordFill, hjournal])
        | some price' =>
            by_cases heq : price = price'
            · subst heq
              refine iff_of_true ?_ rfl
              obtain ⟨hrealized, hleft⟩ := recordFill_congr hbooks orderId req.symbol req.side
                quantity price req.decisionId (req.stopLoss, req.takeProfit)
              dsimp only
              rw [hleft, hrealized]
              rfl
            · refine iff_of_false (fun h => ?_) (fun h => heq (Option.some.inj h))
              have hsame := congrArg (fun b => b.books.journal) h
              simp only [Booking.of, books, journal_recordFill, hjournal] at hsame
              have hfills := (List.cons.inj (List.append_cancel_left hsame)).1
              exact heq (congrArg BookedFill.price (LedgerEntry.fill.inj hfills))
  · -- An order without a fill is reported alike and books nothing.
    simp only [hs, false_imp_iff, iff_true]
    cases status with
    | filled => exact absurd rfl hs
    | pending | cancelled | rejected =>
        show Booking.of _ e.books = Booking.of _ later.books
        rw [hbooks]
        rfl

end SaxoExecutor

/-! ## Both executors -/

/-- **Placement and reconcile book the same.** For either executor, resolving a final payload when
the order is placed, or on any executor with the same books later, comes to the same exactly when
the order is not filled or takes the same path through both. -/
theorem booking_paths_iff :
    (∀ (e other : SaxoExecutor W) (req : OrderRequest) (orderId : OrderId) (amount : ℚ)
        (entry : Option SaxoActivity) (placed now now' : Time),
      Booking.of (e.bookedAtPlacement req orderId amount entry now).1
          (e.bookedAtPlacement req orderId amount entry now).2.books
        = Booking.of
          ((other.withBooks e.books).bookedAtReconcile req orderId amount entry placed now').1
          ((other.withBooks e.books).bookedAtReconcile req orderId amount entry placed now').2.books ↔
        ((resolveActivity entry amount).1 = .filled →
          SaxoExecutor.SamePath e req amount entry)) ∧
    (∀ (e other : CcxtExecutor W) (req : OrderRequest) (orderId : OrderId) (amount : ℚ)
        (limit : Option ℚ) (raw : RawOrder) (placed now now' : Time),
      Booking.of (e.bookedAtPlacement req orderId amount limit raw now).1
          (e.bookedAtPlacement req orderId amount limit raw now).2.books
        = Booking.of
          ((other.withBooks e.books).bookedAtReconcile req orderId amount limit raw placed now').1
          ((other.withBooks e.books).bookedAtReconcile req orderId amount limit raw placed
            now').2.books ↔
        ((resolveStatus raw amount).1 = .filled →
          CcxtExecutor.SamePath e (other.withBooks e.books) req orderId amount limit raw)) := by
  constructor
  · intro e other req orderId amount entry placed now now'
    have hbooks : (other.withBooks e.books).books = e.books := rfl
    exact SaxoExecutor.booking_iff hbooks req orderId amount entry placed now now'
  · intro e other req orderId amount limit raw placed now now'
    have hbooks : (other.withBooks e.books).books = e.books := rfl
    exact CcxtExecutor.booking_iff hbooks req orderId amount limit raw placed now now'

/-- A stock account that accepts fills within a fifth of the request. -/
def sharesAccount : SaxoExecutor Unit :=
  SaxoExecutor.create () ⟨none, none, Dict.empty, "Stock", 0, 1, 1 / 5⟩

def sharesBuy : OrderRequest := ⟨"AAPL", .buy, 10, some 100, some 1, some 90, none⟩

/-- The audit entry of a fill half above the request. -/
def farFill : SaxoActivity := ⟨some "FinalFill", some 10, some (some 150), none, none⟩

/-- A coin that is held with a stop. -/
def coinAccount : CcxtExecutor Unit :=
  { CcxtExecutor.create () "EUR" VenueOrderSettings.default with
    tracker := PositionTracker.empty.onBuy "BTC/EUR" 1 100 0 (some 1)
    exitLevels := Dict.empty.set "BTC/EUR" (some 90, none) }

def coinSell : OrderRequest := ⟨"BTC/EUR", .sell, 1, some 110, none, none, none⟩

/-- The payload of the whole position sold. -/
def soldOut : RawOrder :=
  { RawOrder.empty with
    status := some "closed"
    filled := some 1
    average := some 110 }

/-- A far fill is booked at the request when it is placed and as it is when it is reconciled; and a
reconciled exit leaves the levels of the coin it sold. -/
theorem booking_paths_differ :
    Booking.of (sharesAccount.bookedAtPlacement sharesBuy "7" 10 (some farFill) 0).1
        (sharesAccount.bookedAtPlacement sharesBuy "7" 10 (some farFill) 0).2.books
      ≠ Booking.of (sharesAccount.bookedAtReconcile sharesBuy "7" 10 (some farFill) 0 1).1
        (sharesAccount.bookedAtReconcile sharesBuy "7" 10 (some farFill) 0 1).2.books ∧
    Booking.of (coinAccount.bookedAtPlacement coinSell "8" 1 none soldOut 0).1
        (coinAccount.bookedAtPlacement coinSell "8" 1 none soldOut 0).2.books
      ≠ Booking.of (coinAccount.bookedAtReconcile coinSell "8" 1 none soldOut 0 1).1
        (coinAccount.bookedAtReconcile coinSell "8" 1 none soldOut 0 1).2.books := by
  constructor
  · intro h
    have hsame := (SaxoExecutor.booking_iff rfl sharesBuy "7" 10 (some farFill) 0 0 1).mp h (by decide)
    unfold SaxoExecutor.SamePath at hsame
    revert hsame
    decide +kernel
  · intro h
    have hsame := (CcxtExecutor.booking_iff rfl coinSell "8" 1 none soldOut 0 0 1).mp h (by decide)
    have hlevels := hsame.levels 110 rfl
    revert hlevels
    decide +kernel

end SmartyTrader
