import SmartyTrader.Core.Sizing
import SmartyTrader.Execution.PositionTracker
import SmartyTrader.Lib.Runs

set_option autoImplicit false

/-! # Conservation in the FIFO ledger

Units, fees and results over any sequence of opening and closing fills of both books of a ledger.
Units on the grid of order sizes make the loop of a closing fill the exact sale of `Lib.Fifo`
(`consume_eq`), and everything here is read off that sale.
-/

namespace SmartyTrader

open Lib

/-! ## Fills of both books -/

/-- The long and the short book. -/
inductive BookSide where
  | long
  | short
  deriving DecidableEq

/-- What a unit opened at a price gains when it is closed at another. -/
def BookSide.gain (b : BookSide) (price entry : ℚ) : ℚ :=
  match b with
  | .long => price - entry
  | .short => entry - price

/-- A fill that opens a lot, or one that closes lots. -/
inductive LedgerFill where
  | opening (b : BookSide) (symbol : Symbol) (quantity price fee : ℚ)
      (decisionId : Option DecisionId)
  | closing (b : BookSide) (symbol : Symbol) (quantity price fee : ℚ)

namespace PositionTracker

def bookOf (t : PositionTracker) : BookSide → Dict Symbol (List Lot)
  | .long => t.lots
  | .short => t.shortLots

/-- The open lots of a symbol in one book. -/
def openLots (t : PositionTracker) (b : BookSide) (symbol : Symbol) : List Lot :=
  lotsIn (t.bookOf b) symbol

/-- `on_sell` or `cover`. -/
def close (t : PositionTracker) (b : BookSide) (symbol : Symbol) (quantity price fee : ℚ) :
    SellOutcome × PositionTracker :=
  match b with
  | .long => t.onSell symbol quantity price fee
  | .short => t.cover symbol quantity price fee

/-- The ledger after a fill. -/
def fill : LedgerFill → PositionTracker → PositionTracker
  | .opening .long symbol quantity price fee decisionId, t =>
      t.onBuy symbol quantity price fee decisionId
  | .opening .short symbol quantity price fee decisionId, t =>
      t.openShort symbol quantity price fee decisionId
  | .closing b symbol quantity price fee, t => (t.close b symbol quantity price fee).2

end PositionTracker

/-- A positive quantity on the grid, and no close of more than is open. -/
def LedgerFill.Fits : LedgerFill → PositionTracker → Prop
  | .opening _ _ quantity _ _ _, _ => 0 < quantity ∧ quantity ∈ grid sizeUnit
  | .closing b symbol quantity _ _, t =>
      0 < quantity ∧ quantity ∈ grid sizeUnit ∧ quantity ≤ Fifo.total (t.openLots b symbol)

/-- The book and the symbol of a fill. -/
def LedgerFill.key : LedgerFill → BookSide × Symbol
  | .opening b symbol _ _ _ _ => (b, symbol)
  | .closing b symbol _ _ _ => (b, symbol)

/-! ## One closing fill -/

/-- The net result of a lot that left whole in a closing fill. -/
def lotNet (gain : ℚ → ℚ) (quantity fee : ℚ) (l : Lot) : ℚ :=
  gain l.price * l.quantity - l.fee - fee * (l.quantity / quantity)

/-- A closing fill of `quantity` takes the oldest lots, and books what they gain less their fees
and its own. Each entry decision is booked the part of its own lots. -/
structure Realizes (gain : ℚ → ℚ) (quantity fee : ℚ) (lots rest : List Lot)
    (o : SellOutcome) : Prop where
  taken : ∃ taken, Fifo.FrontOf lots taken rest ∧ Fifo.total taken = quantity ∧
    o.grossPnl = Fifo.measure (fun l => gain l.price * l.quantity) taken ∧
    o.netPnl = o.grossPnl - Fifo.measure Fifo.Lot.fee taken - fee ∧
    Fifo.measure Fifo.Lot.fee taken + Fifo.measure Fifo.Lot.fee rest
      = Fifo.measure Fifo.Lot.fee lots ∧
    ∀ entry ∈ o.closedEntries, entry.pnl = Fifo.measure (lotNet gain quantity fee)
      (taken.filter (fun l => l.tag = entry.entryDecisionId))
  entries : (o.closedEntries.map ClosedEntry.pnl).sum = o.netPnl

section Accumulators

variable (gain : ℚ → ℚ) (quantity fee : ℚ)

theorem gross_foldl_addLot (ls : List Lot) (acc : Consumed) :
    (ls.foldl (Consumed.addLot gain quantity fee) acc).gross
      = acc.gross + Fifo.measure (fun l => gain l.price * l.quantity) ls := by
  induction ls generalizing acc with
  | nil => simp
  | cons l ls ih =>
      rw [List.foldl_cons, ih, Fifo.measure_cons, Consumed.addLot, Consumed.add]
      ring

/-- The entries add up to the net results of the lots. -/
theorem sum_perEntry_foldl (ls : List Lot) (acc : Consumed) :
    Dict.sumBy (fun _ pnl => pnl) (ls.foldl (Consumed.addLot gain quantity fee) acc).perEntry
      = Dict.sumBy (fun _ pnl => pnl) acc.perEntry
        + Fifo.measure (lotNet gain quantity fee) ls := by
  induction ls generalizing acc with
  | nil => simp
  | cons l ls ih =>
      have hshare : Dict.share (fun _ pnl => pnl) acc.perEntry l.tag
          = (acc.perEntry.get? l.tag).getD 0 := by
        unfold Dict.share
        cases acc.perEntry.get? l.tag <;> rfl
      rw [List.foldl_cons, ih, Fifo.measure_cons]
      show Dict.sumBy (fun _ pnl => pnl) (acc.perEntry.set l.tag _) + _ = _
      rw [Dict.sumBy_set, hshare, lotNet]
      ring

/-- The entry of a decision adds up the net results of its lots. -/
theorem get_perEntry_foldl (ls : List Lot) (acc : Consumed) (id : Option DecisionId) :
    (((ls.foldl (Consumed.addLot gain quantity fee) acc).perEntry.get? id).getD 0 : ℚ)
      = (acc.perEntry.get? id).getD 0
        + Fifo.measure (lotNet gain quantity fee) (ls.filter (fun l => l.tag = id)) := by
  induction ls generalizing acc with
  | nil => simp
  | cons l ls ih =>
      rw [List.foldl_cons, ih]
      show ((acc.perEntry.set l.tag _).get? id).getD 0 + _ = _
      rw [Dict.get?_set, List.filter_cons]
      by_cases hid : l.tag = id
      · subst hid
        simp only [if_true, decide_true, Option.getD_some, Fifo.measure_cons, lotNet]
        ring
      · simp only [if_neg hid, decide_eq_true_eq]

/-- The lots of a fill of `quantity` pay its fee in proportion. -/
theorem measure_lotNet (hq : quantity ≠ 0) (ls : List Lot) :
    Fifo.measure (lotNet gain quantity fee) ls
      = Fifo.measure (fun l => gain l.price * l.quantity) ls - Fifo.measure Fifo.Lot.fee ls
        - fee * (Fifo.total ls / quantity) := by
  induction ls with
  | nil => simp
  | cons l ls ih =>
      simp only [Fifo.measure_cons, Fifo.total_cons, ih, lotNet]
      field_simp
      ring

end Accumulators

/-! ## The books on the grid -/

/-- Every lot of both books is positive and a whole number of units. -/
def PositionTracker.Gridded (t : PositionTracker) : Prop :=
  ∀ b s, Fifo.Positive (t.openLots b s) ∧ ∀ l ∈ t.openLots b s, l.quantity ∈ grid sizeUnit

namespace PositionTracker

variable {t : PositionTracker}

theorem openLots_opening (b b' : BookSide) (s s' : Symbol) {q : ℚ} (hq : 0 < q) (p f : ℚ)
    (d : Option DecisionId) :
    (t.fill (.opening b s q p f d)).openLots b' s'
      = if (b, s) = (b', s') then t.openLots b s ++ [⟨q, p, f, d⟩] else t.openLots b' s' := by
  have hbooks : ∀ x, (t.fill (.opening b s q p f d)).bookOf x
      = if b = x then append (t.bookOf b) s ⟨q, p, f, d⟩ else t.bookOf x := by
    intro x
    cases b <;> cases x <;> simp [fill, onBuy, openShort, if_neg (not_le.mpr hq), bookOf]
  unfold openLots
  rw [hbooks]
  by_cases hb : b = b'
  · subst hb
    rw [if_pos rfl, lotsIn_append]
    simp only [Prod.mk.injEq, true_and]
  · rw [if_neg hb, if_neg (fun h => hb (Prod.mk.inj h).1)]

/-- Both kinds of closing fill are one loop over the lots of their book. -/
theorem close_consume (t : PositionTracker) (b : BookSide) (s : Symbol) (q p f : ℚ) :
    (t.close b s q p f).1
        = (consume (b.gain p) q f q (t.openLots b s) Consumed.start).1.outcome ∧
      ∀ b' s', (t.close b s q p f).2.openLots b' s'
        = if (b, s) = (b', s') then (consume (b.gain p) q f q (t.openLots b s) Consumed.start).2
          else t.openLots b' s' := by
  have hbooks : ∀ x, (t.close b s q p f).2.bookOf x
      = if b = x then
          writeBack (t.bookOf b) s (consume (b.gain p) q f q (t.openLots b s) Consumed.start).2
        else t.bookOf x := by
    intro x
    cases b <;> cases x <;> rfl
  refine ⟨by cases b <;> rfl, fun b' s' => ?_⟩
  show lotsIn ((t.close b s q p f).2.bookOf b') s' = _
  rw [hbooks]
  by_cases hb : b = b'
  · subst hb
    rw [if_pos rfl, lotsIn_writeBack]
    simp only [Prod.mk.injEq, true_and]
    rfl
  · rw [if_neg hb, if_neg (fun h => hb (Prod.mk.inj h).1)]
    rfl

/-- On the grid a closing fill is the exact sale. -/
theorem close_eq (h : t.Gridded) (b : BookSide) (s : Symbol) {q : ℚ} (hq : 0 < q)
    (hg : q ∈ grid sizeUnit) (p f : ℚ) :
    (t.close b s q p f).1 = ((Fifo.take q (t.openLots b s)).foldl
        (Consumed.addLot (b.gain p) q f) Consumed.start).outcome ∧
      ∀ b' s', (t.close b s q p f).2.openLots b' s'
        = if (b, s) = (b', s') then Fifo.drop q (t.openLots b s) else t.openLots b' s' := by
  have hu : lotEpsilon < sizeUnit := by norm_num [lotEpsilon, sizeUnit]
  have hsale := consume_eq hu (b.gain p) q f hq (h b s).1 (h b s).2 hg Consumed.start
  have hclose := t.close_consume b s q p f
  rw [hsale] at hclose
  exact hclose

/-- A closing fill that fits realizes the oldest lots. -/
theorem realizes_close (h : t.Gridded) (b : BookSide) (s : Symbol) {q p f : ℚ}
    (hfits : (LedgerFill.closing b s q p f).Fits t) :
    Realizes (b.gain p) q f (t.openLots b s) ((t.close b s q p f).2.openLots b s)
      (t.close b s q p f).1 := by
  obtain ⟨hq, hg, hheld⟩ := hfits
  obtain ⟨houtcome, hlots⟩ := close_eq h b s hq hg p f
  have hrest : (t.close b s q p f).2.openLots b s = Fifo.drop q (t.openLots b s) := by
    rw [hlots, if_pos rfl]
  have htotal := Fifo.total_take (h b s).1 hq.le hheld
  have hnet : (t.close b s q p f).1.netPnl
      = Fifo.measure (lotNet (b.gain p) q f) (Fifo.take q (t.openLots b s)) := by
    rw [houtcome]
    show (List.foldl _ Consumed.start _).net = _
    rw [net_foldl_addLot]
    exact zero_add _
  have hgross : (t.close b s q p f).1.grossPnl
      = Fifo.measure (fun l => b.gain p l.price * l.quantity) (Fifo.take q (t.openLots b s)) := by
    rw [houtcome]
    show (List.foldl _ Consumed.start _).gross = _
    rw [gross_foldl_addLot]
    exact zero_add _
  refine ⟨⟨Fifo.take q (t.openLots b s), ?_, htotal, hgross, ?_, ?_, ?_⟩, ?_⟩
  · rw [hrest]
    exact Fifo.frontOf_take_drop _ q
  · rw [hnet, measure_lotNet _ _ _ hq.ne', htotal, div_self hq.ne', mul_one, hgross]
  · rw [hrest]
    exact Fifo.measure_take_add_drop Fifo.proportional_fee (h b s).1 q
  · intro entry hentry
    rw [houtcome] at hentry
    obtain ⟨⟨id, pnl⟩, hmem, rfl⟩ := List.mem_map.mp hentry
    have hget := get_perEntry_foldl (b.gain p) q f (Fifo.take q (t.openLots b s)) Consumed.start id
    rw [(Dict.mem_entries_iff _ id pnl).mp hmem, Option.getD_some] at hget
    rw [hget]
    exact zero_add _
  · have hsum := sum_perEntry_foldl (b.gain p) q f (Fifo.take q (t.openLots b s)) Consumed.start
    rw [hnet, houtcome]
    show ((Dict.entries _).map _ |>.map _).sum = _
    rw [List.map_map]
    exact hsum.trans (zero_add _)

theorem gridded_fill {x : LedgerFill} (h : t.Gridded) (hfits : x.Fits t) :
    (t.fill x).Gridded := by
  intro b' s'
  cases x with
  | opening b s q p f d =>
      obtain ⟨hq, hg⟩ := hfits
      rw [openLots_opening b b' s s' hq]
      by_cases hkey : (b, s) = (b', s')
      · rw [if_pos hkey]
        refine ⟨(h b s).1.append (Fifo.Positive.cons hq Fifo.Positive.nil), fun l hl => ?_⟩
        rcases List.mem_append.mp hl with hl | hl
        · exact (h b s).2 l hl
        · rw [List.mem_singleton.mp hl]
          exact hg
      · rw [if_neg hkey]
        exact h b' s'
  | closing b s q p f =>
      obtain ⟨hq, hg, -⟩ := hfits
      show Fifo.Positive ((t.close b s q p f).2.openLots b' s') ∧ _
      rw [fill, (close_eq h b s hq hg p f).2]
      by_cases hkey : (b, s) = (b', s')
      · rw [if_pos hkey]
        exact ⟨Fifo.positive_drop q (h b s).1, drop_mem_grid (h b s).2 hg⟩
      · rw [if_neg hkey]
        exact h b' s'

end PositionTracker

/-! ## Sums over a sequence of fills -/

/-- The units a fill opens under a key, those it closes, and the opening fee it pays there. -/
def LedgerFill.opened (b : BookSide) (s : Symbol) : LedgerFill → ℚ
  | .opening b' s' q _ _ _ => if (b', s') = (b, s) then q else 0
  | .closing .. => 0

def LedgerFill.closed (b : BookSide) (s : Symbol) : LedgerFill → ℚ
  | .opening .. => 0
  | .closing b' s' q _ _ => if (b', s') = (b, s) then q else 0

def LedgerFill.feePaid (b : BookSide) (s : Symbol) : LedgerFill → ℚ
  | .opening b' s' _ _ f _ => if (b', s') = (b, s) then f else 0
  | .closing .. => 0

/-- The opening fees that a closing fill charges: what its net result lacks of the gross one beyond
its own fee. -/
def LedgerFill.charged (b : BookSide) (s : Symbol) (t : PositionTracker) : LedgerFill → ℚ
  | .opening .. => 0
  | .closing b' s' q p f =>
      if (b', s') = (b, s) then
        (t.close b' s' q p f).1.grossPnl - (t.close b' s' q p f).1.netPnl - f
      else 0

/-- The opening fees charged over a sequence of fills. -/
def chargedFees (b : BookSide) (s : Symbol) : List LedgerFill → PositionTracker → ℚ
  | [], _ => 0
  | x :: fills, t => x.charged b s t + chargedFees b s fills (t.fill x)

namespace PositionTracker

variable {t : PositionTracker} {x : LedgerFill}

/-- A fill leaves the lots of every other key alone. -/
theorem openLots_fill_ne (h : t.Gridded) (hfits : x.Fits t) {b : BookSide} {s : Symbol}
    (hkey : x.key ≠ (b, s)) : (t.fill x).openLots b s = t.openLots b s := by
  cases x with
  | opening b' s' q p f d =>
      rw [openLots_opening b' b s' s hfits.1]
      exact if_neg hkey
  | closing b' s' q p f =>
      rw [fill, (close_eq h b' s' hfits.1 hfits.2.1 p f).2]
      exact if_neg hkey

/-- What one fill does to the units that are open. -/
theorem total_fill (h : t.Gridded) (hfits : x.Fits t) (b : BookSide) (s : Symbol) :
    Fifo.total ((t.fill x).openLots b s) + x.closed b s
      = Fifo.total (t.openLots b s) + x.opened b s := by
  cases x with
  | opening b' s' q p f d =>
      rw [openLots_opening b' b s' s hfits.1, LedgerFill.closed, LedgerFill.opened]
      by_cases hkey : (b', s') = (b, s)
      · obtain ⟨rfl, rfl⟩ := Prod.mk.inj hkey
        rw [if_pos rfl, if_pos rfl, Fifo.total_append, Fifo.total_cons, Fifo.total_nil]
        ring
      · rw [if_neg hkey, if_neg hkey]
  | closing b' s' q p f =>
      obtain ⟨hq, hg, hheld⟩ := hfits
      rw [fill, (close_eq h b' s' hq hg p f).2, LedgerFill.closed, LedgerFill.opened]
      by_cases hkey : (b', s') = (b, s)
      · obtain ⟨rfl, rfl⟩ := Prod.mk.inj hkey
        rw [if_pos rfl, if_pos rfl, Fifo.total_drop hq.le hheld]
        ring
      · rw [if_neg hkey, if_neg hkey]

/-- What one fill does to the opening fees that are still on the lots. -/
theorem fees_fill (h : t.Gridded) (hfits : x.Fits t) (b : BookSide) (s : Symbol) :
    x.charged b s t + Fifo.measure Fifo.Lot.fee ((t.fill x).openLots b s)
      = Fifo.measure Fifo.Lot.fee (t.openLots b s) + x.feePaid b s := by
  cases x with
  | opening b' s' q p f d =>
      rw [openLots_opening b' b s' s hfits.1, LedgerFill.charged, LedgerFill.feePaid]
      by_cases hkey : (b', s') = (b, s)
      · obtain ⟨rfl, rfl⟩ := Prod.mk.inj hkey
        rw [if_pos rfl, if_pos rfl, Fifo.measure_append, Fifo.measure_cons, Fifo.measure_nil]
        ring
      · rw [if_neg hkey, if_neg hkey]
        ring
  | closing b' s' q p f =>
      by_cases hkey : (b', s') = (b, s)
      · obtain ⟨rfl, rfl⟩ := Prod.mk.inj hkey
        obtain ⟨⟨taken, -, -, -, hnet, hfees, -⟩, -⟩ := realizes_close h b' s' hfits
        rw [LedgerFill.charged, LedgerFill.feePaid, if_pos rfl, fill, hnet]
        linarith
      · rw [openLots_fill_ne h hfits hkey, LedgerFill.charged, LedgerFill.feePaid, if_neg hkey]
        ring

theorem gridded_empty : empty.Gridded := by
  intro b s
  have hnone : empty.openLots b s = [] := by cases b <;> rfl
  rw [hnone]
  exact ⟨Fifo.Positive.nil, fun l hl => nomatch hl⟩

theorem gridded_run {fills : List LedgerFill} (h : t.Gridded)
    (hfits : EachStep fill LedgerFill.Fits fills t) : (Lib.run fill fills t).Gridded :=
  run_preserves (fun _ _ hfits h => gridded_fill h hfits) fills hfits h

theorem total_run {fills : List LedgerFill} (h : t.Gridded)
    (hfits : EachStep fill LedgerFill.Fits fills t) (b : BookSide) (s : Symbol) :
    Fifo.total ((Lib.run fill fills t).openLots b s) + (fills.map (LedgerFill.closed b s)).sum
      = Fifo.total (t.openLots b s) + (fills.map (LedgerFill.opened b s)).sum := by
  induction fills generalizing t with
  | nil => rfl
  | cons x fills ih =>
      have hstep := total_fill h hfits.1 b s
      have hrest := ih (gridded_fill h hfits.1) hfits.2
      rw [run_cons, List.map_cons, List.map_cons, List.sum_cons, List.sum_cons]
      linarith

theorem fees_run {fills : List LedgerFill} (h : t.Gridded)
    (hfits : EachStep fill LedgerFill.Fits fills t) (b : BookSide) (s : Symbol) :
    chargedFees b s fills t + Fifo.measure Fifo.Lot.fee ((Lib.run fill fills t).openLots b s)
      = Fifo.measure Fifo.Lot.fee (t.openLots b s)
        + (fills.map (LedgerFill.feePaid b s)).sum := by
  induction fills generalizing t with
  | nil => exact (zero_add _).trans (add_zero _).symm
  | cons x fills ih =>
      have hstep := fees_fill h hfits.1 b s
      have hrest := ih (gridded_fill h hfits.1) hfits.2
      rw [run_cons, List.map_cons, List.sum_cons, chargedFees]
      linarith

end PositionTracker

/-- Units, results and fees add up over a sequence of fills from an empty ledger. -/
structure Conserved (fills : List LedgerFill) : Prop where
  units : ∀ b s, Fifo.total ((Lib.run PositionTracker.fill fills .empty).openLots b s)
    = (fills.map (LedgerFill.opened b s)).sum - (fills.map (LedgerFill.closed b s)).sum
  fees : ∀ b s, chargedFees b s fills .empty
      + Fifo.measure Fifo.Lot.fee ((Lib.run PositionTracker.fill fills .empty).openLots b s)
    = (fills.map (LedgerFill.feePaid b s)).sum
  realized : ∀ before after b s q p f, fills = before ++ .closing b s q p f :: after →
    let t := Lib.run PositionTracker.fill before .empty
    Realizes (b.gain p) q f (t.openLots b s) ((t.close b s q p f).2.openLots b s)
      (t.close b s q p f).1
  others : ∀ before x after b s, fills = before ++ x :: after → x.key ≠ (b, s) →
    (Lib.run PositionTracker.fill (before ++ [x]) .empty).openLots b s
      = (Lib.run PositionTracker.fill before .empty).openLots b s

/-- **FIFO ledger conservation.** Over every sequence of fills on the grid that closes no more than
is open, the open units are those opened less those closed, the opening fees are charged once,
every closing fill realizes the oldest lots, and the lots of other keys are left alone. -/
theorem ledger_conservation (fills : List LedgerFill)
    (hfits : EachStep PositionTracker.fill LedgerFill.Fits fills .empty) : Conserved fills where
  units b s := by
    have h := PositionTracker.total_run PositionTracker.gridded_empty hfits b s
    have hnone : Fifo.total (PositionTracker.empty.openLots b s) = 0 := by cases b <;> rfl
    linarith
  fees b s := by
    have h := PositionTracker.fees_run PositionTracker.gridded_empty hfits b s
    have hnone : Fifo.measure Fifo.Lot.fee (PositionTracker.empty.openLots b s) = 0 := by
      cases b <;> rfl
    linarith
  realized before after b s q p f hsplit := by
    rw [hsplit] at hfits
    exact PositionTracker.realizes_close
      (PositionTracker.gridded_run PositionTracker.gridded_empty hfits.left) b s hfits.right.1
  others before x after b s hsplit hkey := by
    rw [hsplit] at hfits
    rw [run_append]
    exact PositionTracker.openLots_fill_ne
      (PositionTracker.gridded_run PositionTracker.gridded_empty hfits.left) hfits.right.1 hkey

/-- Two lots, and a sale of the first and half of the second. -/
def twoLots : List LedgerFill :=
  [.opening .long "BTC/EUR" 2 100 1 (some 1), .opening .long "BTC/EUR" 1 110 1 none,
    .closing .long "BTC/EUR" (5 / 2) 120 3]

theorem ledger_conservation_twoLots : Conserved twoLots := by
  refine ledger_conservation twoLots ⟨⟨?_, ?_⟩, ⟨?_, ?_⟩, ⟨?_, ?_, ?_⟩, trivial⟩
  · norm_num
  · exact mem_grid_iff.mpr ⟨200000000, by norm_num [sizeUnit]⟩
  · norm_num
  · exact mem_grid_iff.mpr ⟨100000000, by norm_num [sizeUnit]⟩
  · norm_num
  · exact mem_grid_iff.mpr ⟨250000000, by norm_num [sizeUnit]⟩
  · decide +kernel

end SmartyTrader
