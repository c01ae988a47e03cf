import SmartyTrader.Core.Models
import SmartyTrader.Lib.Dict
import SmartyTrader.Lib.Fifo
import SmartyTrader.Lib.Grid

set_option autoImplicit false

/-! # FIFO cost-basis position tracker

The ledger every executor feeds with its own fills: per symbol a queue of lots, each with its
price, the fee paid for it and the decision that opened it. A closing fill consumes lots from
the front and attributes its profit or loss to the decisions of the lots it consumed. The
second half of the file relates the loop of the source, which drops a lot once at most
`1e-12` of it is left, to the exact queue of `Lib.Fifo`.
-/

namespace SmartyTrader

open Lib

/-- One open lot. The tag is the entry decision that created it. -/
abbrev Lot := Fifo.Lot ℚ (Option DecisionId)

/-- What is left of a lot counts as nothing up to this size. -/
def lotEpsilon : ℚ := 1 / 1000000000000

/-- Result of consuming lots for a closing fill. -/
structure SellOutcome where
  grossPnl : ℚ
  netPnl : ℚ
  closedEntries : List ClosedEntry
  deriving DecidableEq

/-- The accumulators of the consuming loop. -/
structure Consumed where
  gross : ℚ
  net : ℚ
  perEntry : Dict (Option DecisionId) ℚ

namespace Consumed

def start : Consumed := ⟨0, 0, Dict.empty⟩

/-- Book one lot's share: `per_entry[id] = per_entry.get(id, 0.0) + net`. -/
def add (acc : Consumed) (entry : Option DecisionId) (gross net : ℚ) : Consumed where
  gross := acc.gross + gross
  net := acc.net + net
  perEntry := acc.perEntry.set entry ((acc.perEntry.get? entry).getD 0 + net)

def outcome (acc : Consumed) : SellOutcome where
  grossPnl := acc.gross
  netPnl := acc.net
  closedEntries := acc.perEntry.entries.map (fun e => ⟨e.1, e.2⟩)

end Consumed

/-- The loop of `on_sell` and `cover`. `gain` is the profit per unit of a lot bought at a given
price, `quantity` and `fee` belong to the whole fill, and the recursion is on `remaining` and
the queue. -/
def consume (gain : ℚ → ℚ) (quantity fee : ℚ) : ℚ → List Lot → Consumed → Consumed × List Lot
  | _, [], acc => (acc, [])
  | remaining, lot :: lots, acc =>
      if remaining > 0 then
        let take := min lot.quantity remaining
        let gross := gain lot.price * take
        let openFeeShare := if lot.quantity > 0 then lot.fee * (take / lot.quantity) else 0
        let closeFeeShare := if quantity > 0 then fee * (take / quantity) else 0
        let net := gross - openFeeShare - closeFeeShare
        let acc := acc.add lot.tag gross net
        let lot' : Lot :=
          { lot with fee := lot.fee - openFeeShare, quantity := lot.quantity - take }
        if lot'.quantity ≤ lotEpsilon then
          consume gain quantity fee (remaining - take) lots acc
        else
          -- The lot outlasted the sale, so nothing remains to be sold and the loop ends.
          (acc, lot' :: lots)
      else (acc, lot :: lots)

/-- Per-symbol ledger with a long and a short book. -/
structure PositionTracker where
  lots : Dict Symbol (List Lot)
  shortLots : Dict Symbol (List Lot)

namespace PositionTracker

def empty : PositionTracker := ⟨Dict.empty, Dict.empty⟩

/-- The lots of one book under a symbol, none when it is absent. -/
def lotsIn (book : Dict Symbol (List Lot)) (symbol : Symbol) : List Lot :=
  (book.get? symbol).getD []

/-- `lots = book.setdefault(symbol, []); lots.append(lot)`. -/
def append (book : Dict Symbol (List Lot)) (symbol : Symbol) (lot : Lot) :
    Dict Symbol (List Lot) :=
  book.set symbol (lotsIn book symbol ++ [lot])

/-- Write back the lots a closing fill left, or drop the symbol when none is left. -/
def writeBack (book : Dict Symbol (List Lot)) (symbol : Symbol) (lots : List Lot) :
    Dict Symbol (List Lot) :=
  if lots = [] then book.erase symbol else book.set symbol lots

def lotsOf (t : PositionTracker) (symbol : Symbol) : List Lot := lotsIn t.lots symbol

def quantity (t : PositionTracker) (symbol : Symbol) : ℚ := Fifo.total (t.lotsOf symbol)

/-- Symbols with an open long ledger. -/
def symbols (t : PositionTracker) : List Symbol :=
  (t.lots.entries.filter (fun e => !e.2.isEmpty)).map Prod.fst

/-- Entry decision of each open long lot, oldest first. -/
def entryDecisionIds (t : PositionTracker) (symbol : Symbol) : List (Option DecisionId) :=
  (t.lotsOf symbol).map Fifo.Lot.tag

/-- Quantity-weighted cost of the open long lots, `none` when flat. -/
def averagePrice (t : PositionTracker) (symbol : Symbol) : Option ℚ :=
  let qty := t.quantity symbol
  if qty ≤ 0 then none
  else some (((t.lotsOf symbol).map (fun lot => lot.quantity * lot.price)).sum / qty)

def onBuy (t : PositionTracker) (symbol : Symbol) (quantity price fee : ℚ)
    (decisionId : Option DecisionId) : PositionTracker :=
  if quantity ≤ 0 then t
  else { t with lots := append t.lots symbol ⟨quantity, price, fee, decisionId⟩ }

def onSell (t : PositionTracker) (symbol : Symbol) (quantity price fee : ℚ) :
    SellOutcome × PositionTracker :=
  let r := consume (fun entry => price - entry) quantity fee quantity (t.lotsOf symbol)
    Consumed.start
  (r.1.outcome, { t with lots := writeBack t.lots symbol r.2 })

/-- Forget a symbol's long lots without a fill. -/
def discard (t : PositionTracker) (symbol : Symbol) : PositionTracker :=
  { t with lots := t.lots.erase symbol }

def shortQuantity (t : PositionTracker) (symbol : Symbol) : ℚ :=
  Fifo.total (lotsIn t.shortLots symbol)

def openShort (t : PositionTracker) (symbol : Symbol) (quantity price fee : ℚ)
    (decisionId : Option DecisionId) : PositionTracker :=
  if quantity ≤ 0 then t
  else { t with shortLots := append t.shortLots symbol ⟨quantity, price, fee, decisionId⟩ }

def cover (t : PositionTracker) (symbol : Symbol) (quantity price fee : ℚ) :
    SellOutcome × PositionTracker :=
  let r := consume (fun entry => entry - price) quantity fee quantity
    (lotsIn t.shortLots symbol) Consumed.start
  (r.1.outcome, { t with shortLots := writeBack t.shortLots symbol r.2 })

end PositionTracker

/-! ## Booking and replaying fills -/

/-- A historical fill replayed at startup. `side` is `none` for a text that names no side. -/
structure FillRecord where
  symbol : Symbol
  side : Option OrderSide
  quantity : ℚ
  price : ℚ
  decisionId : Option DecisionId
  stopLoss : Option ℚ
  takeProfit : Option ℚ
  feeBase : ℚ
  feeQuote : ℚ
  orderId : Option OrderId
  deriving DecidableEq

abbrev ExitLevels := Option ℚ × Option ℚ

/-- Book one venue fill with its reported fees. A base-currency fee of a BUY shrinks the lot
and joins its cost basis; a fee that exceeds the fill is not believed and booked gross. A SELL
with nothing tracked is no fill of ours. -/
def bookFill (t : PositionTracker) (symbol : Symbol) (side : OrderSide)
    (quantity price feeBase feeQuote : ℚ) (decisionId : Option DecisionId) :
    Option SellOutcome × PositionTracker :=
  match side with
  | .buy =>
      let booked := if 0 < feeBase ∧ feeBase < quantity then quantity - feeBase else quantity
      let feeBase := if feeBase ≥ quantity ∧ quantity > 0 then 0 else feeBase
      (none, t.onBuy symbol booked price (feeBase * price + feeQuote) decisionId)
  | .sell =>
      if t.quantity symbol ≤ 0 then (none, t)
      else
        let r := t.onSell symbol quantity price (feeQuote + feeBase * price)
        (some r.1, r.2)

/-- State of the replay: the ledger, the exit levels and the number of rows replayed. -/
structure Replay where
  tracker : PositionTracker
  levels : Dict Symbol ExitLevels
  replayed : ℕ

/-- One row of the replay. -/
def Replay.step (r : Replay) (f : FillRecord) : Replay :=
  match f.side with
  | none => r
  | some side =>
      let tracker := (bookFill r.tracker f.symbol side f.quantity f.price f.feeBase f.feeQuote
        f.decisionId).2
      let levels := if side = .buy then r.levels.set f.symbol (f.stopLoss, f.takeProfit)
        else r.levels
      { tracker := tracker
        levels := if tracker.quantity f.symbol ≤ lotEpsilon then levels.erase f.symbol else levels
        replayed := r.replayed + 1 }

/-- Replay chronological fills: the ledger, and the latest BUY's levels per symbol, dropped once
the symbol is flat. -/
def replayFills (t : PositionTracker) (fills : List FillRecord) : Replay :=
  fills.foldl Replay.step ⟨t, Dict.empty, 0⟩

/-! ## One book under its operations -/

namespace PositionTracker

theorem lotsIn_append (book : Dict Symbol (List Lot)) (s s' : Symbol) (lot : Lot) :
    lotsIn (append book s lot) s' = if s = s' then lotsIn book s ++ [lot] else lotsIn book s' := by
  unfold append
  rw [lotsIn, Dict.get?_set]
  by_cases h : s = s'
  · rw [if_pos h, if_pos h, Option.getD_some]
  · rw [if_neg h, if_neg h, lotsIn]

theorem lotsIn_writeBack (book : Dict Symbol (List Lot)) (s s' : Symbol) (ls : List Lot) :
    lotsIn (writeBack book s ls) s' = if s = s' then ls else lotsIn book s' := by
  unfold writeBack
  by_cases hl : ls = []
  · rw [if_pos hl, lotsIn, Dict.get?_erase]
    by_cases h : s = s'
    · rw [if_pos h, if_pos h, hl, Option.getD_none]
    · rw [if_neg h, if_neg h, lotsIn]
  · rw [if_neg hl, lotsIn, Dict.get?_set]
    by_cases h : s = s'
    · rw [if_pos h, if_pos h, Option.getD_some]
    · rw [if_neg h, if_neg h, lotsIn]

theorem lotsOf_onBuy (t : PositionTracker) (s s' : Symbol) (q p f : ℚ) (d : Option DecisionId)
    (hq : 0 < q) :
    (t.onBuy s q p f d).lotsOf s' = if s = s' then t.lotsOf s ++ [⟨q, p, f, d⟩] else t.lotsOf s' := by
  rw [onBuy, if_neg (not_le.mpr hq)]
  exact lotsIn_append t.lots s s' _

theorem lotsOf_onSell (t : PositionTracker) (s s' : Symbol) (q p f : ℚ) :
    (t.onSell s q p f).2.lotsOf s'
      = if s = s' then (consume (fun e => p - e) q f q (t.lotsOf s) Consumed.start).2
        else t.lotsOf s' :=
  lotsIn_writeBack t.lots s s' _

theorem lotsOf_discard (t : PositionTracker) (s s' : Symbol) :
    (t.discard s).lotsOf s' = if s = s' then [] else t.lotsOf s' := by
  show ((t.lots.erase s).get? s').getD [] = _
  rw [Dict.get?_erase]
  by_cases h : s = s'
  · rw [if_pos h, if_pos h, Option.getD_none]
  · rw [if_neg h, if_neg h]
    rfl

theorem mem_symbols_iff (t : PositionTracker) (s : Symbol) : s ∈ t.symbols ↔ t.lotsOf s ≠ [] := by
  simp only [symbols, List.mem_map, List.mem_filter, Prod.exists, exists_and_right,
    exists_eq_right, Dict.mem_entries_iff, lotsOf, lotsIn]
  cases h : t.lots.get? s with
  | none => simp
  | some ls => cases ls <;> simp

theorem nodup_symbols (t : PositionTracker) : t.symbols.Nodup := by
  have h : (t.symbols).Sublist t.lots.keys :=
    List.Sublist.map _ List.filter_sublist
  exact h.nodup t.lots.nodup_keys

end PositionTracker

/-! ## The consuming loop and the exact queue -/

/-- A lot that keeps something has satisfied the sale: the loop of the source ends with it. -/
theorem sub_min_eq_zero_of_kept {a r : ℚ} (h : ¬ a - min a r ≤ lotEpsilon) : r - min a r = 0 := by
  have h0 : (0 : ℚ) < lotEpsilon := by norm_num [lotEpsilon]
  rcases le_total a r with h1 | h1
  · rw [min_eq_left h1, sub_self] at h
    exact absurd h0.le h
  · rw [min_eq_right h1, sub_self]

/-- Book a lot that left the queue whole. -/
def Consumed.addLot (gain : ℚ → ℚ) (quantity fee : ℚ) (acc : Consumed) (l : Lot) : Consumed :=
  acc.add l.tag (gain l.price * l.quantity)
    (gain l.price * l.quantity - l.fee - fee * (l.quantity / quantity))

/-- A sale of nothing takes nothing. -/
theorem consume_of_nonpos (gain : ℚ → ℚ) (quantity fee : ℚ) {r : ℚ} (hr : r ≤ 0)
    (lots : List Lot) (acc : Consumed) : consume gain quantity fee r lots acc = (acc, lots) := by
  cases lots with
  | nil => rfl
  | cons l ls => rw [consume, if_neg (not_lt.mpr hr)]

/-- **The loop is the exact sale.** On positive lots whose sizes lie on a grid wider than the
tolerance, a sale on the same grid leaves `Fifo.drop` and books `Fifo.take`. -/
theorem consume_eq {u : ℚ} (hu : lotEpsilon < u) (gain : ℚ → ℚ) (quantity fee : ℚ)
    (hq : 0 < quantity) {lots : List Lot} (hp : Fifo.Positive lots)
    (hg : ∀ l ∈ lots, l.quantity ∈ grid u) {r : ℚ} (hr : r ∈ grid u) (acc : Consumed) :
    consume gain quantity fee r lots acc
      = ((Fifo.take r lots).foldl (Consumed.addLot gain quantity fee) acc, Fifo.drop r lots) := by
  have hε : (0 : ℚ) ≤ lotEpsilon := by norm_num [lotEpsilon]
  induction lots generalizing r acc with
  | nil => rfl
  | cons l ls ih =>
      have hl := hp.head
      have hlg : l.quantity ∈ grid u := hg l List.mem_cons_self
      by_cases h0 : r ≤ 0
      · rw [consume_of_nonpos _ _ _ h0, Fifo.take_of_nonpos _ h0, Fifo.drop_of_nonpos _ h0,
          List.foldl_nil]
      · have hr0 : r > 0 := not_le.mp h0
        simp only [consume, if_pos hr0, gt_iff_lt, if_pos hl, if_pos hq, Fifo.take, Fifo.drop,
          if_neg h0]
        by_cases h1 : l.quantity ≤ r
        · -- The whole lot goes.
          have h2 : l.quantity - l.quantity ≤ lotEpsilon := by rw [sub_self]; exact hε
          rw [min_eq_left h1, if_pos h2, if_pos h1, if_pos h1, div_self hl.ne', mul_one,
            List.foldl_cons]
          exact ih hp.tail (fun m hm => hg m (List.mem_cons_of_mem _ hm))
            (AddSubgroup.sub_mem _ hr hlg) _
        · -- Part of the lot stays, and on the grid it is more than the tolerance.
          have h2 : r ≤ l.quantity := (not_le.mp h1).le
          have h3 : ¬ l.quantity - r ≤ lotEpsilon := by
            rw [le_iff_nonpos_of_mem_grid hε hu (AddSubgroup.sub_mem _ hlg hr)]
            intro h4
            exact h1 (by linarith)
          rw [min_eq_right h2, if_neg h3, if_neg h1, if_neg h1]
          have h5 : l.fee - l.fee * (r / l.quantity) = l.fee * ((l.quantity - r) / l.quantity) := by
            field_simp
          simp only [List.foldl_cons, List.foldl_nil, Consumed.addLot, Fifo.part, h5]

/-- Whatever the sizes, the lots stay positive. -/
theorem positive_consume (gain : ℚ → ℚ) (quantity fee : ℚ) {lots : List Lot}
    (hp : Fifo.Positive lots) (r : ℚ) (acc : Consumed) :
    Fifo.Positive (consume gain quantity fee r lots acc).2 := by
  have hε : (0 : ℚ) < lotEpsilon := by norm_num [lotEpsilon]
  induction lots generalizing r acc with
  | nil => exact hp
  | cons l ls ih =>
      by_cases h1 : r > 0
      · by_cases h2 : l.quantity - min l.quantity r ≤ lotEpsilon
        · simp only [consume, if_pos h1, if_pos h2]
          exact ih hp.tail _ _
        · simp only [consume, if_pos h1, if_neg h2]
          exact Fifo.Positive.cons (lt_trans hε (not_le.mp h2)) hp.tail
      · simp only [consume, if_neg h1]
        exact hp

/-- What a sale leaves are lots it found. -/
theorem tags_consume (gain : ℚ → ℚ) (quantity fee : ℚ) (lots : List Lot) (r : ℚ) (acc : Consumed) :
    ((consume gain quantity fee r lots acc).2.map Fifo.Lot.tag).Sublist
      (lots.map Fifo.Lot.tag) := by
  induction lots generalizing r acc with
  | nil => exact List.Sublist.refl _
  | cons l ls ih =>
      by_cases hr : r > 0
      · by_cases hleft : l.quantity - min l.quantity r ≤ lotEpsilon
        · simp only [consume, if_pos hr, if_pos hleft, List.map_cons]
          exact (ih _ _).cons _
        · simp only [consume, if_pos hr, if_neg hleft, List.map_cons]
          exact List.Sublist.refl _
      · simp only [consume, if_neg hr]
        exact List.Sublist.refl _

/-- Whatever the sizes, a sale takes at least what it asks for, if the queue holds it. -/
theorem total_consume_le (gain : ℚ → ℚ) (quantity fee : ℚ) {lots : List Lot}
    (hp : Fifo.Positive lots) {r : ℚ} (hr : 0 ≤ r) (acc : Consumed) :
    Fifo.total (consume gain quantity fee r lots acc).2 ≤ max (Fifo.total lots - r) 0 := by
  induction lots generalizing r acc with
  | nil => simp [consume]
  | cons l ls ih =>
      have hl := hp.head
      have hls := Fifo.total_nonneg hp.tail
      have hmin := min_le_left l.quantity r
      by_cases h1 : r > 0
      · by_cases h2 : l.quantity - min l.quantity r ≤ lotEpsilon
        · simp only [consume, if_pos h1, if_pos h2]
          have h3 : 0 ≤ r - min l.quantity r := sub_nonneg.mpr (min_le_right _ _)
          refine (ih hp.tail h3 _).trans (max_le_max ?_ le_rfl)
          rw [Fifo.total_cons]
          linarith
        · simp only [consume, if_pos h1, if_neg h2, Fifo.total_cons]
          have := sub_min_eq_zero_of_kept h2
          refine le_trans ?_ (le_max_left _ _)
          linarith
      · simp only [consume, if_neg h1]
        have : r = 0 := le_antisymm (not_lt.mp h1) hr
        rw [this, sub_zero]
        exact le_max_left _ _

/-- No sale adds to the queue. -/
theorem total_consume_le_total (gain : ℚ → ℚ) (quantity fee : ℚ) {lots : List Lot}
    (hp : Fifo.Positive lots) (r : ℚ) (acc : Consumed) :
    Fifo.total (consume gain quantity fee r lots acc).2 ≤ Fifo.total lots := by
  induction lots generalizing r acc with
  | nil => simp [consume]
  | cons l ls ih =>
      have hl := hp.head
      by_cases h1 : r > 0
      · by_cases h2 : l.quantity - min l.quantity r ≤ lotEpsilon
        · simp only [consume, if_pos h1, if_pos h2]
          refine (ih hp.tail _ _).trans ?_
          rw [Fifo.total_cons]
          linarith
        · simp only [consume, if_pos h1, if_neg h2, Fifo.total_cons]
          have : 0 ≤ min l.quantity r := le_min hl.le h1.le
          linarith
      · simp only [consume, if_neg h1, le_refl]

/-! ## The ledger on a grid

Order sizes are multiples of a unit far above the tolerance, and then the ledger is exact. -/

/-- Every lot is positive and a whole number of units. -/
def PositionTracker.OnGrid (u : ℚ) (t : PositionTracker) : Prop :=
  ∀ s, Fifo.Positive (t.lotsOf s) ∧ ∀ l ∈ t.lotsOf s, l.quantity ∈ grid u

/-- What the open lots cost: price times quantity plus the fee still on them. -/
def lotCost (l : Lot) : ℚ := l.quantity * l.price + l.fee

theorem proportional_lotCost : Fifo.Proportional lotCost :=
  Fifo.proportional_cost.add Fifo.proportional_fee

/-- The cost of all open long lots of the ledger. -/
def PositionTracker.openCost (t : PositionTracker) : ℚ :=
  Dict.sumBy (fun _ ls => Fifo.measure lotCost ls) t.lots

theorem share_lots (m : Lot → ℚ) (book : Dict Symbol (List Lot)) (s : Symbol) :
    Dict.share (fun _ ls => Fifo.measure m ls) book s
      = Fifo.measure m (PositionTracker.lotsIn book s) := by
  unfold Dict.share PositionTracker.lotsIn
  cases book.get? s <;> rfl

theorem total_mem_grid {u : ℚ} {ls : List Lot} (h : ∀ l ∈ ls, l.quantity ∈ grid u) :
    Fifo.total ls ∈ grid u := by
  induction ls with
  | nil => exact AddSubgroup.zero_mem _
  | cons l ls ih =>
      rw [Fifo.total_cons]
      exact AddSubgroup.add_mem _ (h l List.mem_cons_self)
        (ih (fun m hm => h m (List.mem_cons_of_mem _ hm)))

theorem drop_mem_grid {u : ℚ} {ls : List Lot} (h : ∀ l ∈ ls, l.quantity ∈ grid u) {q : ℚ}
    (hq : q ∈ grid u) : ∀ l ∈ Fifo.drop q ls, l.quantity ∈ grid u := by
  induction ls generalizing q with
  | nil => intro l hl; cases hl
  | cons m ls ih =>
      have hm := h m List.mem_cons_self
      have hls : ∀ l ∈ ls, l.quantity ∈ grid u := fun l hl => h l (List.mem_cons_of_mem _ hl)
      simp only [Fifo.drop]
      split_ifs with h1 h2
      · exact h
      · exact ih hls (AddSubgroup.sub_mem _ hq hm)
      · intro l hl
        rcases List.mem_cons.mp hl with rfl | hl
        · exact AddSubgroup.sub_mem _ hm hq
        · exact hls l hl

namespace PositionTracker

variable {u : ℚ} {t : PositionTracker}

/-- A buy of nothing books nothing. -/
theorem onBuy_zero (t : PositionTracker) (s : Symbol) (p f : ℚ) (d : Option DecisionId) :
    t.onBuy s 0 p f d = t := if_pos le_rfl

theorem OnGrid.onBuy (h : t.OnGrid u) (s : Symbol) {q : ℚ} (hq : 0 ≤ q) (hg : q ∈ grid u)
    (p f : ℚ) (d : Option DecisionId) : (t.onBuy s q p f d).OnGrid u := by
  rcases hq.eq_or_lt with rfl | hq
  · rw [onBuy_zero]
    exact h
  intro s'
  rw [lotsOf_onBuy t s s' q p f d hq]
  by_cases hs : s = s'
  · rw [if_pos hs]
    refine ⟨(h s).1.append (Fifo.Positive.cons hq Fifo.Positive.nil), fun l hl => ?_⟩
    rcases List.mem_append.mp hl with hl | hl
    · exact (h s).2 l hl
    · rw [List.mem_singleton.mp hl]
      exact hg
  · rw [if_neg hs]
    exact h s'

theorem quantity_onBuy (t : PositionTracker) (s s' : Symbol) {q : ℚ} (hq : 0 ≤ q) (p f : ℚ)
    (d : Option DecisionId) :
    (t.onBuy s q p f d).quantity s' = if s = s' then t.quantity s + q else t.quantity s' := by
  rcases hq.eq_or_lt with rfl | hq
  · rw [onBuy_zero, add_zero]
    by_cases hs : s = s'
    · rw [if_pos hs, hs]
    · rw [if_neg hs]
  unfold quantity
  rw [lotsOf_onBuy t s s' q p f d hq]
  by_cases hs : s = s'
  · rw [if_pos hs, if_pos hs, Fifo.total_append, Fifo.total_cons, Fifo.total_nil, add_zero]
  · rw [if_neg hs, if_neg hs]

theorem openCost_onBuy (t : PositionTracker) (s : Symbol) {q : ℚ} (hq : 0 < q) (p f : ℚ)
    (d : Option DecisionId) : (t.onBuy s q p f d).openCost = t.openCost + (q * p + f) := by
  rw [PositionTracker.onBuy, if_neg (not_le.mpr hq)]
  show Dict.sumBy _ (append t.lots s _) = _
  unfold append
  rw [Dict.sumBy_set, share_lots, Fifo.measure_append, Fifo.measure_cons, Fifo.measure_nil,
    openCost, lotCost]
  ring

/-- On the grid a sale leaves the exact queue. -/
theorem lotsOf_onSell_grid (hu : lotEpsilon < u) (h : t.OnGrid u) (s s' : Symbol) {q : ℚ}
    (hq : 0 ≤ q) (hg : q ∈ grid u) (p f : ℚ) :
    (t.onSell s q p f).2.lotsOf s'
      = if s = s' then Fifo.drop q (t.lotsOf s) else t.lotsOf s' := by
  rw [lotsOf_onSell]
  rcases hq.eq_or_lt with rfl | hq
  · rw [consume_of_nonpos _ _ _ le_rfl, Fifo.drop_zero]
  · rw [consume_eq hu _ q f hq (h s).1 (h s).2 hg]

theorem OnGrid.onSell (hu : lotEpsilon < u) (h : t.OnGrid u) (s : Symbol) {q : ℚ} (hq : 0 ≤ q)
    (hg : q ∈ grid u) (p f : ℚ) : (t.onSell s q p f).2.OnGrid u := by
  intro s'
  rw [lotsOf_onSell_grid hu h s s' hq hg]
  by_cases hs : s = s'
  · rw [if_pos hs]
    exact ⟨Fifo.positive_drop q (h s).1, drop_mem_grid (h s).2 hg⟩
  · rw [if_neg hs]
    exact h s'

theorem quantity_onSell_grid (hu : lotEpsilon < u) (h : t.OnGrid u) (s s' : Symbol) {q : ℚ}
    (hq : 0 ≤ q) (hg : q ∈ grid u) (hle : q ≤ t.quantity s) (p f : ℚ) :
    (t.onSell s q p f).2.quantity s' = if s = s' then t.quantity s - q else t.quantity s' := by
  unfold quantity
  rw [lotsOf_onSell_grid hu h s s' hq hg]
  by_cases hs : s = s'
  · rw [if_pos hs, if_pos hs, Fifo.total_drop hq hle]
  · rw [if_neg hs, if_neg hs]

/-- The net result of booking lots that left whole. -/
theorem net_foldl_addLot (gain : ℚ → ℚ) (quantity fee : ℚ) (ls : List Lot) (acc : Consumed) :
    (ls.foldl (Consumed.addLot gain quantity fee) acc).net
      = acc.net + Fifo.measure
          (fun l => gain l.price * l.quantity - l.fee - fee * (l.quantity / quantity)) ls := by
  induction ls generalizing acc with
  | nil => simp
  | cons l ls ih =>
      rw [List.foldl_cons, ih, Fifo.measure_cons, Consumed.addLot, Consumed.add]
      ring

/-- A sale realizes its proceeds less the cost of the lots that left. -/
theorem measure_net (p q f : ℚ) (ls : List Lot) (hq : q ≠ 0) :
    Fifo.measure (fun l : Lot => (p - l.price) * l.quantity - l.fee - f * (l.quantity / q)) ls
      = (p - f / q) * Fifo.total ls - Fifo.measure lotCost ls := by
  induction ls with
  | nil => simp
  | cons l ls ih =>
      rw [Fifo.measure_cons, ih, Fifo.measure_cons, Fifo.total_cons, lotCost]
      field_simp
      ring

/-- **Value conservation of a sale.** What the open lots lose in cost and what is realized add
up to the proceeds net of the fee. -/
theorem openCost_onSell (hu : lotEpsilon < u) (h : t.OnGrid u) (s : Symbol) {q : ℚ} (hq : 0 < q)
    (hg : q ∈ grid u) (hle : q ≤ t.quantity s) (p f : ℚ) :
    (t.onSell s q p f).2.openCost + (p * q - f)
      = t.openCost + (t.onSell s q p f).1.netPnl := by
  have hc := consume_eq hu (fun e => p - e) q f hq (h s).1 (h s).2 hg Consumed.start
  have hbook : (t.onSell s q p f).2.openCost
      = t.openCost - Fifo.measure lotCost (t.lotsOf s)
        + Fifo.measure lotCost (Fifo.drop q (t.lotsOf s)) := by
    show Dict.sumBy _ (writeBack t.lots s _) = _
    rw [hc]
    unfold writeBack
    by_cases hd : Fifo.drop q (t.lotsOf s) = []
    · rw [if_pos hd, Dict.sumBy_erase, share_lots, hd, Fifo.measure_nil, add_zero, openCost,
        lotsOf]
    · rw [if_neg hd, Dict.sumBy_set, share_lots, openCost, lotsOf]
  have hnet : (t.onSell s q p f).1.netPnl
      = (p * q - f) - Fifo.measure lotCost (Fifo.take q (t.lotsOf s)) := by
    show (consume _ q f q (t.lotsOf s) Consumed.start).1.net = _
    rw [hc, net_foldl_addLot, measure_net p q f _ hq.ne', Fifo.total_take (h s).1 hq.le hle]
    have : f / q * q = f := div_mul_cancel₀ f hq.ne'
    simp only [Consumed.start, zero_add]
    linarith
  have hsplit := Fifo.measure_take_add_drop proportional_lotCost (h s).1 q
  rw [hbook, hnet]
  linarith

end PositionTracker

end SmartyTrader
