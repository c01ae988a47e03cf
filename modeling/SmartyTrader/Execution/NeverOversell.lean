import SmartyTrader.Execution.CcxtPipeline
import SmartyTrader.Execution.DatedCalls
import SmartyTrader.Execution.Venue

set_option autoImplicit false

/-! # The executor never oversells

Without protective orders, at a venue that keeps its promises. Each sell order of the venue is
reserved with its amount while it works and counts with its fill afterwards. The invariant
`Covered` bounds the reserved quantity of a symbol, and the sold quantity together with what the
ledger still holds, by what was bought. A sell is only placed when none works in the symbol, and
at most for what the ledger holds.
-/

namespace SmartyTrader

open Lib

variable {W : Type}

/-! ## What was bought -/

/-- What a fill adds to the ledger: its quantity, less a base-currency fee below it. -/
def BookedFill.netQuantity (f : BookedFill) : ℚ :=
  if 0 < f.feeBase ∧ f.feeBase < f.quantity then f.quantity - f.feeBase else f.quantity

/-- What an entry of the journal bought of a symbol, net of base-currency fees. -/
def LedgerEntry.bought (s : Symbol) : LedgerEntry → ℚ
  | .fill f => if f.side = .buy ∧ f.symbol = s then max f.netQuantity 0 else 0
  | .writeOff _ => 0

/-- The quantity bought of a symbol. -/
def boughtQuantity (s : Symbol) (journal : List LedgerEntry) : ℚ :=
  (journal.map (LedgerEntry.bought s)).sum

theorem boughtQuantity_concat (s : Symbol) (journal : List LedgerEntry) (entry : LedgerEntry) :
    boughtQuantity s (journal ++ [entry]) = boughtQuantity s journal + entry.bought s := by
  simp [boughtQuantity]

/-- Every lot of the ledger holds something. -/
def PositionTracker.Solid (t : PositionTracker) : Prop := ∀ s, Fifo.Positive (t.lotsOf s)

theorem PositionTracker.Solid.quantity_nonneg {t : PositionTracker} (h : t.Solid) (s : Symbol) :
    0 ≤ t.quantity s :=
  Fifo.total_nonneg (h s)

theorem PositionTracker.Solid.discard {t : PositionTracker} (h : t.Solid) (s : Symbol) :
    (t.discard s).Solid := by
  intro s'
  rw [PositionTracker.lotsOf_discard]
  split_ifs
  · exact Fifo.Positive.nil
  · exact h s'

/-- A booked fill keeps the lots positive. A BUY adds what it bought, and a SELL takes its
quantity as far as the ledger holds it. -/
theorem PositionTracker.Solid.book {t : PositionTracker} (h : t.Solid) (f : BookedFill) :
    ((LedgerEntry.fill f).apply t).Solid ∧ ∀ s,
      ((LedgerEntry.fill f).apply t).quantity s ≤ t.quantity s + (LedgerEntry.fill f).bought s ∧
      (f.side = .sell → f.symbol = s → 0 ≤ f.quantity →
        ((LedgerEntry.fill f).apply t).quantity s ≤ max (t.quantity s - f.quantity) 0) := by
  show (bookFill t f.symbol f.side f.quantity f.price f.feeBase f.feeQuote f.decisionId).2.Solid ∧
    ∀ s, (bookFill t f.symbol f.side f.quantity f.price f.feeBase f.feeQuote
      f.decisionId).2.quantity s ≤ _ ∧ (_ → _ → _ → (bookFill t f.symbol f.side f.quantity f.price
        f.feeBase f.feeQuote f.decisionId).2.quantity s ≤ _)
  unfold LedgerEntry.bought
  cases hside : f.side with
  | buy =>
      have hne : ¬ OrderSide.buy = .sell := by decide
      show (t.onBuy f.symbol f.netQuantity f.price _ f.decisionId).Solid ∧ ∀ s,
        (t.onBuy f.symbol f.netQuantity f.price _ f.decisionId).quantity s ≤ _ ∧ _
      by_cases hq : f.netQuantity ≤ 0
      · rw [PositionTracker.onBuy, if_pos hq]
        refine ⟨h, fun s => ⟨?_, fun hs => absurd hs hne⟩⟩
        dsimp only
        split_ifs
        · rw [max_eq_right hq, add_zero]
        · rw [add_zero]
      · rw [not_le] at hq
        refine ⟨fun s => ?_, fun s => ⟨?_, fun hs => absurd hs hne⟩⟩
        · rw [PositionTracker.lotsOf_onBuy _ _ _ _ _ _ _ hq]
          by_cases hsym : f.symbol = s
          · rw [if_pos hsym]
            exact (h _).append (Fifo.Positive.cons hq Fifo.Positive.nil)
          · rw [if_neg hsym]
            exact h s
        · rw [PositionTracker.quantity_onBuy _ _ _ hq.le]
          dsimp only
          by_cases hsym : f.symbol = s
          · rw [if_pos hsym, if_pos ⟨hside, hsym⟩, max_eq_left hq.le, hsym]
          · rw [if_neg hsym, if_neg (fun hc => hsym hc.2), add_zero]
  | sell =>
      have hnone : ∀ s, ¬ (f.side = .buy ∧ f.symbol = s) := by
        rintro s ⟨hbuy, -⟩
        rw [hside] at hbuy
        cases hbuy
      unfold bookFill
      dsimp only
      split_ifs with hflat
      · refine ⟨h, fun s => ⟨?_, fun _ hsym _ => ?_⟩⟩
        · rw [if_neg (hnone s), add_zero]
        · rw [← hsym]
          exact hflat.trans (le_max_right _ _)
      · have hlots := fun s => t.lotsOf_onSell f.symbol s f.quantity f.price
          (f.feeQuote + f.feeBase * f.price)
        refine ⟨fun s => ?_, fun s => ⟨?_, fun _ hsym hq => ?_⟩⟩
        · rw [hlots]
          split_ifs
          · exact positive_consume _ _ _ (h _) _ _
          · exact h s
        · rw [if_neg (hnone s), add_zero]
          unfold PositionTracker.quantity
          rw [hlots]
          split_ifs with hsym
          · rw [hsym]
            exact total_consume_le_total _ _ _ (h s) _ _
          · exact le_rfl
        · unfold PositionTracker.quantity
          rw [hlots, if_pos hsym, ← hsym]
          exact total_consume_le _ _ _ (h _) hq _

namespace CcxtExecutor

theorem ledger_writeOffDust (e : CcxtExecutor W) (symbol : Symbol) (h : e.tracker.Solid) :
    (e.writeOffDust symbol).tracker.Solid ∧ ∀ s,
      boughtQuantity s (e.writeOffDust symbol).journal = boughtQuantity s e.journal ∧
      (e.writeOffDust symbol).tracker.quantity s ≤ e.tracker.quantity s := by
  unfold writeOffDust
  dsimp only
  split_ifs
  · refine ⟨h.discard symbol, fun s => ⟨?_, ?_⟩⟩
    · rw [boughtQuantity_concat, LedgerEntry.bought, add_zero]
    · unfold PositionTracker.quantity
      rw [PositionTracker.lotsOf_discard]
      split_ifs
      · exact h.quantity_nonneg s
      · exact le_rfl
  · exact ⟨h, fun s => ⟨rfl, le_rfl⟩⟩

/-- What recording a fill does to ledger and journal. -/
theorem ledger_recordFill (e : CcxtExecutor W) (f : BookedFill) (h : e.tracker.Solid) :
    (e.recordFill f).2.tracker.Solid ∧ ∀ s,
      boughtQuantity s (e.recordFill f).2.journal
        = boughtQuantity s e.journal + (LedgerEntry.fill f).bought s ∧
      (e.recordFill f).2.tracker.quantity s
        ≤ e.tracker.quantity s + (LedgerEntry.fill f).bought s ∧
      (f.side = .sell → f.symbol = s → 0 ≤ f.quantity →
        (e.recordFill f).2.tracker.quantity s ≤ max (e.tracker.quantity s - f.quantity) 0) := by
  obtain ⟨hsolid, hbook⟩ := h.book f
  have hjournal : ∀ s, boughtQuantity s (e.book f).2.journal
      = boughtQuantity s e.journal + (LedgerEntry.fill f).bought s :=
    fun s => boughtQuantity_concat s e.journal (.fill f)
  rcases e.recordFill_cases f with hr | ⟨-, hr⟩
  · rw [hr]
    exact ⟨hsolid, fun s => ⟨hjournal s, hbook s⟩⟩
  · obtain ⟨hsolid', hdust⟩ := (e.book f).2.ledger_writeOffDust f.symbol hsolid
    rw [hr]
    refine ⟨hsolid', fun s => ⟨(hdust s).1.trans (hjournal s), ?_, fun h1 h2 h3 => ?_⟩⟩
    · exact (hdust s).2.trans (hbook s).1
    · exact (hdust s).2.trans ((hbook s).2 h1 h2 h3)

/-! ## Working orders -/

/-- The order is tracked and not resolved. -/
def isWorking (e : CcxtExecutor W) (id : OrderId) : Bool :=
  (e.openOrders.get? id).any (fun p => p.resolved.isNone)

theorem isWorking_iff (e : CcxtExecutor W) (id : OrderId) :
    e.isWorking id = true ↔ ∃ p, e.openOrders.get? id = some p ∧ p.resolved = none := by
  unfold isWorking
  cases e.openOrders.get? id <;> simp

theorem isWorking_congr {e e' : CcxtExecutor W} {id : OrderId}
    (h : ∀ p, p.resolved = none →
      (e'.openOrders.get? id = some p ↔ e.openOrders.get? id = some p)) :
    e'.isWorking id = e.isWorking id := by
  rw [Bool.eq_iff_iff, isWorking_iff, isWorking_iff]
  constructor
  · rintro ⟨p, hg, hr⟩
    exact ⟨p, (h p hr).mp hg, hr⟩
  · rintro ⟨p, hg, hr⟩
    exact ⟨p, (h p hr).mpr hg, hr⟩

theorem mem_workingOrderSides_iff (e : CcxtExecutor W) (s : Symbol) (side : OrderSide) :
    side ∈ e.workingOrderSides s ↔ ∃ id p, e.openOrders.get? id = some p ∧ p.resolved = none ∧
      p.symbol = s ∧ p.side = side := by
  unfold workingOrderSides
  simp only [List.mem_map, List.mem_filter, Dict.mem_values_iff, decide_eq_true_eq]
  constructor
  · rintro ⟨p, ⟨⟨id, hg⟩, hs, hr⟩, hside⟩
    exact ⟨id, p, hg, hr, hs, hside⟩
  · rintro ⟨id, p, hg, hr, hs, hside⟩
    exact ⟨p, ⟨⟨id, hg⟩, hs, hr⟩, hside⟩

end CcxtExecutor

/-! ## The invariant -/

namespace Venue

variable {c : ExchangeClient W} (v : Venue c)

/-- `q`, if the order sells the symbol. -/
def ofSell (w : W) (s : Symbol) (id : OrderId) (q : ℚ) : ℚ :=
  if (v.order w id).side = .sell ∧ (v.order w id).symbol = s then q else 0

theorem ofSell_mono (w : W) (s : Symbol) (id : OrderId) {a b : ℚ} (h : a ≤ b) :
    v.ofSell w s id a ≤ v.ofSell w s id b := by
  unfold ofSell
  split_ifs
  · exact h
  · exact le_rfl

/-- What the venue sold of a symbol. -/
def sold (w : W) (s : Symbol) : ℚ := ∑ id ∈ v.ids w, v.ofSell w s id (v.order w id).filled

/-- What may be sold of a symbol: working orders count with their amount. -/
def reserved (e : CcxtExecutor W) (s : Symbol) : ℚ :=
  ∑ id ∈ v.ids e.world, v.ofSell e.world s id
    (if e.isWorking id then (v.order e.world id).amount else (v.order e.world id).filled)

/-- What was sold of a symbol by orders that do not work any more. -/
def settledSold (e : CcxtExecutor W) (s : Symbol) : ℚ :=
  ∑ id ∈ v.ids e.world, v.ofSell e.world s id
    (if e.isWorking id then 0 else (v.order e.world id).filled)

theorem sold_le_reserved (e : CcxtExecutor W) (s : Symbol) :
    v.sold e.world s ≤ v.reserved e s := by
  refine Finset.sum_le_sum fun id hid => v.ofSell_mono e.world s id ?_
  split_ifs
  · exact (v.within e.world id hid).2
  · exact le_rfl

theorem settledSold_le_reserved (e : CcxtExecutor W) (s : Symbol) :
    v.settledSold e s ≤ v.reserved e s := by
  refine Finset.sum_le_sum fun id hid => v.ofSell_mono e.world s id ?_
  obtain ⟨h1, h2⟩ := v.within e.world id hid
  split_ifs
  · exact h1.trans h2
  · exact le_rfl

end Venue

/-- Nothing is sold, or may be sold, that was not bought. -/
structure Covered {c : ExchangeClient W} (v : Venue c) (e : CcxtExecutor W) : Prop where
  unprotected : e.protection = none
  tidy : e.Tidy c
  solid : e.tracker.Solid
  /-- A working order is the venue's order of that id. -/
  known : ∀ id p, e.openOrders.get? id = some p → p.resolved = none → id ∈ v.ids e.world ∧
    (v.order e.world id).symbol = p.symbol ∧ (v.order e.world id).side = p.side ∧
    (v.order e.world id).amount = p.quantity
  /-- An order that does not work is final. -/
  final : ∀ id ∈ v.ids e.world, e.isWorking id = false → (v.order e.world id).final = true
  /-- At most one sell order works in a symbol. -/
  single : ∀ id id' p p', e.openOrders.get? id = some p → p.resolved = none → p.side = .sell →
    e.openOrders.get? id' = some p' → p'.resolved = none → p'.side = .sell →
    p.symbol = p'.symbol → id = id'
  reserved : ∀ s, v.reserved e s ≤ boughtQuantity s e.journal
  held : ∀ s, v.settledSold e s + e.tracker.quantity s ≤ boughtQuantity s e.journal

namespace Covered

variable {c : ExchangeClient W} {v : Venue c} {e e' : CcxtExecutor W}

/-- The sums over the orders stay what they are while the venue moves on: what works keeps its
amount, and what does not is final. -/
theorem sums (h : Covered v e) (ho : e'.openOrders = e.openOrders)
    (hw : v.Evolves e.world e'.world) (s : Symbol) :
    v.reserved e' s = v.reserved e s ∧ v.settledSold e' s = v.settledSold e s := by
  have hworking : ∀ id, e'.isWorking id = e.isWorking id :=
    fun id => CcxtExecutor.isWorking_congr (fun p _ => by rw [ho])
  have hshare : ∀ id ∈ v.ids e.world, ∀ q,
      v.ofSell e'.world s id q = v.ofSell e.world s id q := by
    intro id hid q
    unfold Venue.ofSell
    rw [(hw.2 id hid).side, (hw.2 id hid).symbol]
  constructor
  · refine Finset.sum_congr hw.1 fun id hid => ?_
    rw [hshare id hid, hworking, (hw.2 id hid).amount]
    cases hwork : e.isWorking id with
    | true => rfl
    | false => rw [hw.final hid (h.final id hid hwork)]
  · refine Finset.sum_congr hw.1 fun id hid => ?_
    rw [hshare id hid, hworking]
    cases hwork : e.isWorking id with
    | true => rfl
    | false => rw [hw.final hid (h.final id hid hwork)]

/-- The venue moves on, and the ledger loses at most what it held. -/
theorem carry (h : Covered v e) (hp : e'.protection = none) (ht : e'.Tidy c)
    (ho : e'.openOrders = e.openOrders) (hw : v.Evolves e.world e'.world)
    (hsolid : e'.tracker.Solid)
    (hbought : ∀ s, boughtQuantity s e'.journal = boughtQuantity s e.journal)
    (hq : ∀ s, e'.tracker.quantity s ≤ e.tracker.quantity s) : Covered v e' where
  unprotected := hp
  tidy := ht
  solid := hsolid
  known id p hg hr := by
    rw [ho] at hg
    obtain ⟨h1, h2, h3, h4⟩ := h.known id p hg hr
    have hkeep := hw.2 id h1
    exact ⟨hw.1 ▸ h1, hkeep.symbol.trans h2, hkeep.side.trans h3, hkeep.amount.trans h4⟩
  final id hid hwork := by
    rw [hw.1] at hid
    rw [CcxtExecutor.isWorking_congr (e := e) (fun p _ => by rw [ho])] at hwork
    have hfinal := h.final id hid hwork
    rw [hw.final hid hfinal]
    exact hfinal
  single := by
    rw [ho]
    exact h.single
  reserved s := by
    rw [(h.sums ho hw s).1, hbought]
    exact h.reserved s
  held s := by
    rw [(h.sums ho hw s).2, hbought]
    have := h.held s
    have := hq s
    linarith

/-- Without protective orders a move aside only talks or writes off dust. -/
theorem aside (h : Covered v e) (ha : CcxtExecutor.Aside c e e') : Covered v e' := by
  have htidy := (ha.advance h.tidy).tidy
  have hprot : e'.protection = none := by
    have := ha.protection
    rw [h.unprotected] at this
    simpa using this
  cases ha with
  | quiet hq =>
      refine h.carry hprot htidy hq.openOrders (Venue.evolves_later hq.world) ?_ ?_ ?_
      · rw [hq.tracker]
        exact h.solid
      · intro s
        rw [hq.journal]
      · intro s
        rw [hq.tracker]
  | dust s =>
      have hf := CcxtExecutor.frame_writeOffDust e s
      obtain ⟨hsolid, hledger⟩ := e.ledger_writeOffDust s h.solid
      refine h.carry hprot htidy hf.openOrders ?_ hsolid (fun s => (hledger s).1)
        (fun s => (hledger s).2)
      rw [hf.world]
      exact Venue.Evolves.refl v _
  | fired t now hp hc hk =>
      rw [h.unprotected] at hp
      cases hp

theorem asides (h : Covered v e) (ha : CcxtExecutor.Asides c e e') : Covered v e' := by
  induction ha with
  | refl => exact h
  | tail _ hstep ih => exact ih.aside hstep

/-- The orders are the same after moves aside. -/
theorem openOrders_asides (h : Covered v e) (ha : CcxtExecutor.Asides c e e') :
    e'.openOrders = e.openOrders := by
  have key : ∀ {e₁ e₂ : CcxtExecutor W}, Covered v e₁ → CcxtExecutor.Aside c e₁ e₂ →
      e₂.openOrders = e₁.openOrders := by
    intro e₁ e₂ h₁ hstep
    cases hstep with
    | quiet hq => exact hq.openOrders
    | dust s => exact (CcxtExecutor.frame_writeOffDust e₁ s).openOrders
    | fired t now hp hc hk =>
        rw [h₁.unprotected] at hp
        cases hp
  induction ha with
  | refl => rfl
  | tail hpre hstep ih => exact (key (h.asides hpre) hstep).trans ih

/-! ## An order resolves -/

/-- The ledger after a final order with so much filled was taken in. -/
structure TakenIn (e e' : CcxtExecutor W) (p : PendingOrder) (filled : ℚ) : Prop where
  solid : e'.tracker.Solid
  bought : ∀ s, ∃ d, 0 ≤ d ∧ boughtQuantity s e'.journal = boughtQuantity s e.journal + d ∧
    e'.tracker.quantity s ≤ e.tracker.quantity s + d
  sold : p.side = .sell →
    e'.tracker.quantity p.symbol ≤ max (e.tracker.quantity p.symbol - filled) 0

theorem takenIn_unbooked {p : PendingOrder} {filled : ℚ} (h : e.tracker.Solid)
    (ht : e'.tracker = e.tracker) (hj : e'.journal = e.journal) (hf : filled ≤ 0) :
    TakenIn e e' p filled where
  solid := by
    rw [ht]
    exact h
  bought s := ⟨0, le_rfl, by rw [hj, add_zero], by rw [ht, add_zero]⟩
  sold _ := by
    rw [ht]
    refine le_trans ?_ (le_max_left _ _)
    linarith

theorem bought_nonneg (s : Symbol) (entry : LedgerEntry) : 0 ≤ entry.bought s := by
  cases entry with
  | fill f =>
      unfold LedgerEntry.bought
      dsimp only
      split_ifs
      · exact le_max_right _ _
      · exact le_rfl
  | writeOff symbol => exact le_rfl

theorem takenIn_booked {p : PendingOrder} {filled : ℚ} {f : BookedFill} (h : e.tracker.Solid)
    (ht : e'.tracker = (e.recordFill f).2.tracker) (hj : e'.journal = (e.recordFill f).2.journal)
    (hside : f.side = p.side) (hsymbol : f.symbol = p.symbol) (h0 : 0 ≤ filled)
    (hq : filled ≤ f.quantity) : TakenIn e e' p filled := by
  obtain ⟨hsolid, hledger⟩ := e.ledger_recordFill f h
  refine ⟨by rw [ht]; exact hsolid, fun s => ?_, fun hsell => ?_⟩
  · refine ⟨(LedgerEntry.fill f).bought s, bought_nonneg s _, ?_, ?_⟩
    · rw [hj]
      exact (hledger s).1
    · rw [ht]
      exact (hledger s).2.1
  · rw [ht]
    refine ((hledger p.symbol).2.2 (hside.trans hsell) hsymbol (h0.trans hq)).trans ?_
    exact max_le_max (by linarith) le_rfl

/-- **A working order resolves.** It is final and its fill is taken into the ledger. -/
theorem close (h : Covered v e) {id : OrderId} {p : PendingOrder}
    (hget : e.openOrders.get? id = some p) (hp : p.resolved = none)
    (hfinal : (v.order e.world id).final = true) (hworld : e'.world = e.world)
    (hprot : e'.protection = none) (htidy : e'.Tidy c)
    (horders : ∀ j q, q.resolved = none →
      (e'.openOrders.get? j = some q ↔ id ≠ j ∧ e.openOrders.get? j = some q))
    (htaken : TakenIn e e' p (v.order e.world id).filled) : Covered v e' := by
  obtain ⟨hid, hsymbol, hside, -⟩ := h.known id p hget hp
  have hself : e'.isWorking id = false := by
    rw [Bool.eq_false_iff, Ne, CcxtExecutor.isWorking_iff]
    rintro ⟨q, hg, hq⟩
    exact ((horders id q hq).mp hg).1 rfl
  have hother : ∀ j, id ≠ j → e'.isWorking j = e.isWorking j :=
    fun j hj => CcxtExecutor.isWorking_congr fun q hq => by
      rw [horders j q hq]
      exact and_iff_right hj
  have hwork : e.isWorking id = true := (e.isWorking_iff id).mpr ⟨p, hget, hp⟩
  have hreserved : ∀ s, v.reserved e' s ≤ v.reserved e s := by
    intro s
    unfold Venue.reserved
    rw [hworld]
    refine Finset.sum_le_sum fun j hj => v.ofSell_mono e.world s j ?_
    by_cases hij : id = j
    · subst hij
      rw [hself, hwork]
      exact (v.within e.world id hj).2
    · rw [hother j hij]
  have hsettled : ∀ s, v.settledSold e' s
      = v.settledSold e s + v.ofSell e.world s id (v.order e.world id).filled := by
    intro s
    have hpoint : ∀ j ∈ v.ids e.world,
        v.ofSell e.world s j (if e'.isWorking j then 0 else (v.order e.world j).filled)
          = v.ofSell e.world s j (if e.isWorking j then 0 else (v.order e.world j).filled)
            + if id = j then v.ofSell e.world s id (v.order e.world id).filled else 0 := by
      intro j _
      by_cases hij : id = j
      · subst hij
        rw [hself, hwork, if_pos rfl]
        simp [Venue.ofSell]
      · rw [hother j hij, if_neg hij, add_zero]
    unfold Venue.settledSold
    rw [hworld, Finset.sum_congr rfl hpoint, Finset.sum_add_distrib, Finset.sum_ite_eq,
      if_pos hid]
  refine ⟨hprot, htidy, htaken.solid, fun j q hg hq => ?_, fun j hj hjw => ?_, ?_, fun s => ?_,
    fun s => ?_⟩
  · rw [hworld]
    exact h.known j q ((horders j q hq).mp hg).2 hq
  · rw [hworld] at hj ⊢
    by_cases hij : id = j
    · rw [← hij]
      exact hfinal
    · rw [hother j hij] at hjw
      exact h.final j hj hjw
  · intro j j' q q' hg hq hs hg' hq' hs' hsym
    exact h.single j j' q q' ((horders j q hq).mp hg).2 hq hs ((horders j' q' hq').mp hg').2 hq'
      hs' hsym
  · obtain ⟨d, hd, hb, -⟩ := htaken.bought s
    have h1 := h.reserved s
    have h2 := hreserved s
    linarith
  · obtain ⟨d, hd, hb, hqty⟩ := htaken.bought s
    have h1 := h.held s
    rw [hsettled s]
    by_cases hsell : (v.order e.world id).side = .sell ∧ (v.order e.world id).symbol = s
    · -- The sell of this symbol: the fill leaves the ledger, or all of it does.
      have hsym : p.symbol = s := hsymbol.symm.trans hsell.2
      have hq := htaken.sold (hside.symm.trans hsell.1)
      rw [hsym] at hq
      have hfilled : v.ofSell e.world s id (v.order e.world id).filled
          = (v.order e.world id).filled := if_pos hsell
      rcases le_total (e.tracker.quantity s - (v.order e.world id).filled) 0 with h0 | h0
      · rw [max_eq_right h0] at hq
        have hall := v.settledSold_le_reserved e' s
        rw [hsettled s] at hall
        have h2 := h.reserved s
        have h3 := hreserved s
        linarith
      · rw [max_eq_left h0] at hq
        rw [hfilled]
        linarith
    · rw [show v.ofSell e.world s id (v.order e.world id).filled = 0 from if_neg hsell]
      linarith

/-! ## A placement -/

/-- The order a tracked one and the venue agree on when it is created. -/
theorem openOrder (h : Covered v e) {req : OrderRequest} {amount : ℚ} {id : OrderId}
    {p : PendingOrder} (hworld : v.ids e'.world = insert id (v.ids e.world))
    (hfresh : id ∉ v.ids e.world)
    (hkeeps : ∀ j ∈ v.ids e.world, VenueOrder.Keeps (v.order e.world j) (v.order e'.world j))
    (hsymbol : (v.order e'.world id).symbol = req.symbol)
    (hside : (v.order e'.world id).side = req.side)
    (hamount : (v.order e'.world id).amount = amount)
    (hp : p.symbol = req.symbol ∧ p.side = req.side ∧ p.quantity = amount ∧ p.resolved = none)
    (ho : e'.openOrders = e.openOrders.set id p) (ht : e'.tracker = e.tracker)
    (hj : e'.journal = e.journal) (hprot : e'.protection = none) (htidy : e'.Tidy c)
    (hidle : req.side ∉ e.workingOrderSides req.symbol)
    (hle : req.side = .sell → amount ≤ e.tracker.quantity req.symbol) : Covered v e' := by
  obtain ⟨hps, hpside, hpq, hpr⟩ := hp
  have hget : ∀ j q, e'.openOrders.get? j = some q →
      (id = j ∧ q = p) ∨ (id ≠ j ∧ e.openOrders.get? j = some q) := by
    intro j q hg
    rw [ho, Dict.get?_set] at hg
    split_ifs at hg with hij
    · exact Or.inl ⟨hij, (Option.some.inj hg).symm⟩
    · exact Or.inr ⟨hij, hg⟩
  have hself : e'.isWorking id = true :=
    (e'.isWorking_iff id).mpr ⟨p, by rw [ho, Dict.get?_set_self], hpr⟩
  have hother : ∀ j ∈ v.ids e.world, e'.isWorking j = e.isWorking j := by
    intro j hj
    have hij : id ≠ j := by
      rintro rfl
      exact hfresh hj
    exact CcxtExecutor.isWorking_congr fun q _ => by rw [ho, Dict.get?_set_ne _ _ hij]
  have hshare : ∀ s, ∀ j ∈ v.ids e.world, ∀ q,
      v.ofSell e'.world s j q = v.ofSell e.world s j q := by
    intro s j hj q
    unfold Venue.ofSell
    rw [(hkeeps j hj).side, (hkeeps j hj).symbol]
  have hreserved : ∀ s, v.reserved e' s = v.ofSell e'.world s id amount + v.reserved e s := by
    intro s
    unfold Venue.reserved
    rw [hworld, Finset.sum_insert hfresh, hself, hamount]
    congr 1
    refine Finset.sum_congr rfl fun j hj => ?_
    rw [hshare s j hj, hother j hj, (hkeeps j hj).amount]
    cases hwork : e.isWorking j with
    | true => rfl
    | false => rw [(hkeeps j hj).final (h.final j hj hwork)]
  have hsettled : ∀ s, v.settledSold e' s = v.settledSold e s := by
    intro s
    unfold Venue.settledSold
    rw [hworld, Finset.sum_insert hfresh, hself]
    have hzero : v.ofSell e'.world s id 0 = 0 := by simp [Venue.ofSell]
    rw [if_pos rfl, hzero, zero_add]
    refine Finset.sum_congr rfl fun j hj => ?_
    rw [hshare s j hj, hother j hj]
    cases hwork : e.isWorking j with
    | true => rfl
    | false => rw [(hkeeps j hj).final (h.final j hj hwork)]
  refine ⟨hprot, htidy, by rw [ht]; exact h.solid, fun j q hg hq => ?_, fun j hj hjw => ?_, ?_,
    fun s => ?_, fun s => ?_⟩
  · rw [hworld, Finset.mem_insert]
    rcases hget j q hg with ⟨rfl, rfl⟩ | ⟨hij, hg⟩
    · exact ⟨Or.inl rfl, hsymbol.trans hps.symm, hside.trans hpside.symm, hamount.trans hpq.symm⟩
    · obtain ⟨h1, h2, h3, h4⟩ := h.known j q hg hq
      have hk := hkeeps j h1
      exact ⟨Or.inr h1, hk.symbol.trans h2, hk.side.trans h3, hk.amount.trans h4⟩
  · rw [hworld, Finset.mem_insert] at hj
    rcases hj with rfl | hj
    · rw [hself] at hjw
      cases hjw
    · rw [hother j hj] at hjw
      have hfinal := h.final j hj hjw
      rw [(hkeeps j hj).final hfinal]
      exact hfinal
  · -- No sell works in the symbol before a sell of it is placed.
    have hclash : ∀ j q, e.openOrders.get? j = some q → q.resolved = none → q.side = .sell →
        p.side = .sell → p.symbol ≠ q.symbol := by
      intro j q hg hq hs hps' hsym
      refine hidle ((e.mem_workingOrderSides_iff _ _).mpr ⟨j, q, hg, hq, ?_, ?_⟩)
      · rw [← hsym, hps]
      · rw [hs, ← hpside, hps']
    intro j j' q q' hg hq hs hg' hq' hs' hsym
    rcases hget j q hg with ⟨rfl, rfl⟩ | ⟨hij, hg⟩ <;>
      rcases hget j' q' hg' with ⟨rfl, rfl⟩ | ⟨hij', hg'⟩
    · rfl
    · exact absurd hsym (hclash j' q' hg' hq' hs' hs)
    · exact absurd hsym.symm (hclash j q hg hq hs hs')
    · exact h.single j j' q q' hg hq hs hg' hq' hs' hsym
  · rw [hreserved s, hj]
    by_cases hsell : (v.order e'.world id).side = .sell ∧ (v.order e'.world id).symbol = s
    · -- All other sells of the symbol are settled, so the reserve is what was sold.
      have hrs : req.symbol = s := hsymbol.symm.trans hsell.2
      have hreq : req.side = .sell := hside.symm.trans hsell.1
      have hsame : v.reserved e s = v.settledSold e s := by
        refine Finset.sum_congr rfl fun j hj => ?_
        unfold Venue.ofSell
        split_ifs with hjs hwork
        · obtain ⟨q, hg, hq⟩ := (e.isWorking_iff j).mp hwork
          obtain ⟨-, h2, h3, -⟩ := h.known j q hg hq
          refine absurd ((e.mem_workingOrderSides_iff _ _).mpr ⟨j, q, hg, hq, ?_, ?_⟩) hidle
          · rw [← h2, hjs.2, hrs]
          · rw [← h3, hjs.1, hreq]
        · rfl
        · rfl
      have hamt := hle hreq
      have hheld := h.held s
      rw [hrs] at hamt
      rw [show v.ofSell e'.world s id amount = amount from if_pos hsell, hsame]
      linarith
    · rw [show v.ofSell e'.world s id amount = 0 from if_neg hsell, zero_add]
      exact h.reserved s
  · rw [hsettled s, ht, hj]
    exact h.held s

/-- A tracked order resolves. -/
theorem settles (h : Covered v e) {id : OrderId} {p : PendingOrder} {r : OrderResult}
    (hs : CcxtExecutor.Settles c id p r e e') : Covered v e' := by
  have htidy := (CcxtExecutor.advance_settles h.tidy hs).1.tidy
  have ho := hs.openOrders
  have hprot : e'.protection = none := hs.frame.1.trans h.unprotected
  cases hs with
  | intro raw reason now hget hworking hstatus hheard hr =>
      obtain ⟨hid, -, -, hamount⟩ := h.known id p hget hworking
      have hanswers := Venue.answers_of_heard hheard hid hamount hstatus
      obtain ⟨h0, hle⟩ := v.within e.world id hid
      rw [← hamount] at hstatus
      obtain ⟨hfinal, hquantity, hbooked⟩ := resolveStatus_answers hanswers hle hstatus
      rw [hamount] at hquantity hbooked
      have hworld : (e.settled id p raw reason now).2.world = e.world :=
        (CcxtExecutor.frame_settle e id p raw _ _ reason now).world
      refine h.close hget hworking hfinal hworld hprot htidy (fun j q hq => ?_) ?_
      · rw [ho, Dict.get?_set]
        by_cases hij : id = j
        · rw [if_pos hij]
          constructor
          · intro hg
            rw [← Option.some.inj hg] at hq
            cases hq
          · exact fun hg => absurd hij hg.1
        · rw [if_neg hij]
          exact (and_iff_right hij).symm
      · by_cases hun : (resolveStatus raw p.quantity).1 = .filled → raw.fillPrice = none
        · have hun' := CcxtExecutor.settle_unbooked e id p (resolveStatus raw p.quantity).2.1
            reason now hun
          refine takenIn_unbooked h.solid ?_ ?_ ?_
          · show (e.settle id p raw _ _ reason now).2.tracker = e.tracker
            rw [hun']
          · show (e.settle id p raw _ _ reason now).2.journal = e.journal
            rw [hun']
          · rcases hbooked with hzero | ⟨hf, q, hq, -⟩
            · exact hzero
            · rw [hun hf] at hq
              cases hq
        · rw [Classical.not_imp] at hun
          obtain ⟨price, hprice⟩ := Option.ne_none_iff_exists'.mp hun.2
          obtain ⟨ht, hj, -⟩ := CcxtExecutor.settle_booked e id p
            (resolveStatus raw p.quantity).2.1 reason now hun.1 hprice
          exact takenIn_booked h.solid ht hj rfl rfl h0 (hquantity hun.1)

theorem moves (h : Covered v e) (hm : CcxtExecutor.Moves c e e') : Covered v e' := by
  induction hm with
  | refl => exact h
  | tail _ hstep ih =>
      cases hstep with
      | aside ha => exact ih.aside ha
      | settles id p r hs => exact ih.settles hs

/-- What is sent is at most what the ledger holds, if it is a sell. -/
theorem sendable_le (h : Covered v e) {req : OrderRequest} {amount : ℚ}
    (hs : e.sendableAmount c req = .ok amount) (hsell : req.side = .sell) :
    amount ≤ e.tracker.quantity req.symbol := by
  have hround := v.toAmount_le e req.symbol (h.solid.quantity_nonneg req.symbol)
  unfold CcxtExecutor.sendableAmount at hs
  dsimp only at hs
  rw [hsell] at hs
  dsimp only at hs
  split at hs
  · cases hs
  · rename_i a ha
    split_ifs at ha hs
    cases ha
    cases hs
    exact (min_le_right _ _).trans hround

/-- What an accepted order leads to: tracked, the orders are covered, and a final word of the
venue is true of it. -/
theorem accepted (h : Covered v e) {req : OrderRequest} {e₁ e₂ : CcxtExecutor W} {amount : ℚ}
    {id : OrderId} {raw : RawOrder} (ha : CcxtExecutor.Accepted c req e e₁ e₂ amount id raw)
    (hidle : req.side ∉ e.workingOrderSides req.symbol) (limit : Option ℚ) (now : Time) :
    e₂.protection = none ∧ e₂.Tidy c ∧ id ≠ "" ∧
      (∀ q, q.resolved = none → e₂.openOrders.get? id ≠ some q) ∧
      ((resolveStatus raw amount).1 ≠ .pending → Answers raw (v.order e₂.world id)) ∧
      Covered v { e₂ with
        openOrders := e₂.openOrders.set id (CcxtExecutor.pendingOf req amount limit now) } := by
  have h₁ := h.asides ha.before
  have ho := h.openOrders_asides ha.before
  obtain ⟨a, w, w₂, hcreate, rfl, hlater, hraw, rfl⟩ := ha.answer
  obtain ⟨hne, hfresh, hids, hkeeps, hsymbol, hside, hamount, hanswers⟩ := v.created hcreate
  have hev := Venue.evolves_later (v := v) hlater
  have hid : (a.getD RawOrder.empty).orderId ∈ v.ids w := by
    rw [hids]
    exact Finset.mem_insert_self _ _
  have hkeep := hev.2 _ hid
  have hnew : ∀ q, q.resolved = none →
      e₁.openOrders.get? (a.getD RawOrder.empty).orderId ≠ some q :=
    fun q hq hg => hfresh (h₁.known _ q hg hq).1
  have hunfired : ∀ j, ¬ (e₁.protection.isSome ∧ IsChild c j) := by
    intro j hj
    rw [h₁.unprotected] at hj
    cases hj.1
  refine ⟨h₁.unprotected, CcxtExecutor.tidy_of_same h₁.tidy rfl rfl rfl, hne, hnew, ?_, ?_⟩
  · intro hs
    rcases hraw with rfl | hheard
    · have hs' := hs
      rw [← hamount] at hs'
      have hfinal := (resolveStatus_answers hanswers (v.within w _ hid).2 hs').1
      show Answers _ (v.order w₂ _)
      rw [hev.final hid hfinal]
      exact hanswers
    · exact Venue.answers_of_heard hheard (hev.1 ▸ hid) (hkeep.amount.trans hamount) hs
  · refine h₁.openOrder (hev.1.trans hids) hfresh ?_ (hkeep.symbol.trans hsymbol)
      (hkeep.side.trans hside) (hkeep.amount.trans hamount) ⟨rfl, rfl, rfl, rfl⟩ rfl rfl rfl
      h₁.unprotected ?_ ?_ ?_
    · intro j hj
      exact (hkeeps j hj).trans (hev.2 j (hids ▸ Finset.mem_insert_of_mem hj))
    · intro j q hg
      refine ⟨fun r hr => ?_, fun hf => absurd hf (hunfired j)⟩
      rw [Dict.get?_set] at hg
      split_ifs at hg
      · cases hg
        cases hr
      · exact (h₁.tidy j q hg).1 r hr
    · unfold CcxtExecutor.workingOrderSides at hidle ⊢
      rw [ho]
      exact hidle
    · exact h₁.sendable_le ha.sendable

/-- **A placement** of an order whose side does not work in its symbol. -/
theorem placed (h : Covered v e) (req : OrderRequest) (stamp : Stamp)
    (hidle : req.side ∉ e.workingOrderSides req.symbol) :
    Covered v (e.placeOrder c req stamp).2 := by
  have hplaced := CcxtExecutor.placeOrder_placed c e req stamp
  generalize (e.placeOrder c req stamp).1 = r, (e.placeOrder c req stamp).2 = e' at hplaced
  -- From the tracked order on, a final word resolves it at once.
  have hclose : ∀ {e₁ e₂ e₃ : CcxtExecutor W} {amount : ℚ} {id : OrderId} {raw : RawOrder}
      (limit : Option ℚ), CcxtExecutor.Accepted c req e e₁ e₂ amount id raw →
      (resolveStatus raw amount).1 ≠ .pending → CcxtExecutor.Frame e₂ e₃ →
      (v.order e₂.world id).amount = amount →
      TakenIn e₂ e₃ (CcxtExecutor.pendingOf req amount limit stamp.now)
        (v.order e₂.world id).filled → Covered v e₃ := by
    intro e₁ e₂ e₃ amount id raw limit ha hs hf hamount htaken
    obtain ⟨hprot, htidy, -, hnew, hanswers, hcov⟩ := h.accepted ha hidle limit stamp.now
    obtain ⟨hid, -, -, -⟩ := hcov.known id _ (Dict.get?_set_self _ _ _) rfl
    have hs' := hs
    rw [← hamount] at hs'
    have hfinal := (resolveStatus_answers (hanswers hs) (v.within e₂.world id hid).2 hs').1
    refine hcov.close (Dict.get?_set_self _ _ _) rfl hfinal hf.world
      (hf.protection.trans hprot)
      (CcxtExecutor.tidy_of_same htidy hf.openOrders hf.knownOrderIds (by rw [hf.protection]))
      (fun j q hq => ?_) ⟨htaken.solid, htaken.bought, htaken.sold⟩
    rw [hf.openOrders, Dict.get?_set]
    by_cases hij : id = j
    · subst hij
      exact ⟨fun hg => absurd hg (hnew q hq), fun hg => absurd rfl hg.1⟩
    · rw [if_neg hij]
      exact (and_iff_right hij).symm
  cases hplaced with
  | refused e₁ reason ha => exact h.asides ha
  | failed e₁ amount err w ha hs hc =>
      have h₁ := h.asides ha
      exact h₁.carry h₁.unprotected (CcxtExecutor.tidy_of_same h₁.tidy rfl rfl rfl) rfl
        (v.refused hc) h₁.solid (fun s => rfl) (fun s => le_rfl)
  | tracked e₁ e₂ amount id raw limit ha hs hid =>
      exact (h.accepted ha hidle limit stamp.now).2.2.2.2.2
  | filled e₁ e₂ e' amount id raw limit price ha hs hp htail =>
      obtain ⟨-, -, -, -, hanswers, hcov⟩ := h.accepted ha hidle limit stamp.now
      obtain ⟨hid, -, -, hamount⟩ := hcov.known id _ (Dict.get?_set_self _ _ _) rfl
      have hne : (resolveStatus raw amount).1 ≠ .pending := by
        rw [hs]
        decide
      obtain ⟨h0, hle⟩ := v.within e₂.world id hid
      have hquantity := (resolveStatus_answers (hanswers hne) hle (by rw [hamount]; exact hne)).2.1
      rw [hamount] at hquantity
      obtain ⟨ht, hj⟩ := e₂.bookPlaced_booked req id (resolveStatus raw amount).2.1 price raw
      refine (hclose limit ha hne (CcxtExecutor.frame_bookPlaced e₂ req id _ price raw) hamount
        ?_).asides htail
      exact takenIn_booked hcov.solid ht hj rfl rfl h0 (hquantity hs)
  | ended e₁ e₂ amount id raw limit ha hpending hf =>
      obtain ⟨-, -, hne, -, hanswers, hcov⟩ := h.accepted ha hidle limit stamp.now
      obtain ⟨hid, -, -, hamount⟩ := hcov.known id _ (Dict.get?_set_self _ _ _) rfl
      have hs : (resolveStatus raw amount).1 ≠ .pending := fun hs => hne (hpending hs)
      have hle := (v.within e'.world id hid).2
      have hbooked := (resolveStatus_answers (hanswers hs) hle (by rw [hamount]; exact hs)).2.2
      rw [hamount] at hbooked
      refine hclose limit ha hs (CcxtExecutor.Frame.refl _) hamount ?_
      refine takenIn_unbooked hcov.solid rfl rfl ?_
      rcases hbooked with hzero | ⟨hfilled, q, hq, hpos⟩
      · exact hzero
      · -- A fill has a price, and then it would have been booked.
        have hprice := hf hfilled
        rw [hq, pyOr, if_neg hpos.ne'] at hprice
        cases hprice

/-! ## Times

The times of the venue's answers can be converted, so no call raises over one: the calls that
read them with their errors are the calls of the runs below.
-/

theorem settleDated (h : Covered v e)
    {f : OrderId → Symbol → W → Except PyError (Option RawOrder) × W} (hf : c.fetchOrder = some f)
    (now : Time) {id : OrderId} {p : PendingOrder} (hget : e.openOrders.get? id = some p)
    (hp : p.resolved = none) : CcxtExecutor.SettleDated c f now id p e := by
  intro raw status quantity reason e' hpoll _
  obtain ⟨hquiet, hheard⟩ := CcxtExecutor.pollOrder_spec c hf e id p now
  rw [hpoll] at hquiet hheard
  have hpolled : Covered v e' := h.asides hquiet.asides
  obtain ⟨-, -, hpayload⟩ := hheard raw status quantity reason rfl
  have hget' : e'.openOrders.get? id = some p := by
    rw [hquiet.openOrders]
    exact hget
  have hid := (hpolled.known id p hget' hp).1
  refine ⟨fun _ => Venue.dated_of_heard hpayload hid, fun q _ hq => ?_⟩
  -- The sync behind the fill has no order to read of.
  have hready := hpolled.asides (CcxtExecutor.quietly_ensureMarkets c e').asides
  have hframe := CcxtExecutor.frame_settle (e'.ensureMarkets c) id p raw status quantity reason now
  have hnone := hframe.protection.trans hready.unprotected
  rw [show (CcxtExecutor.resolve _ _ _ _).protection = none from hnone] at hq
  cases hq

/-- Every step of the loop is covered, so every order of it is read at a good time. -/
theorem reconcilesDated
    {f : OrderId → Symbol → W → Except PyError (Option RawOrder) × W} (hf : c.fetchOrder = some f)
    (now : Time) (entries : List (OrderId × PendingOrder)) (h : Covered v e)
    (hpolls : CcxtExecutor.Polls e entries) :
    CcxtExecutor.ReconcilesDated c f now entries e := by
  induction entries generalizing e with
  | nil => trivial
  | cons entry rest ih =>
      obtain ⟨id, p⟩ := entry
      refine ⟨fun hp => h.settleDated hf now (hpolls.2 id p List.mem_cons_self hp) hp, ?_⟩
      show CcxtExecutor.ReconcilesDated c f now rest (CcxtExecutor.reconcileEntry c f now (id, p) e)
      unfold CcxtExecutor.reconcileEntry
      split_ifs with hres
      · exact ih h hpolls.tail
      · have hp : p.resolved = none := by simpa using hres
        obtain ⟨hmoves, hpolls', -⟩ := CcxtExecutor.moves_reconcileOne c hf now h.tidy hpolls hp
        exact ih (h.moves hmoves) hpolls'

/-- **No reconciliation raises.** -/
theorem datedReconcileOpenOrders (h : Covered v e) (now : Time) :
    CcxtExecutor.datedReconcileOpenOrders c now e =
      (.ok (CcxtExecutor.reconcileOpenOrders c now e).1,
        (CcxtExecutor.reconcileOpenOrders c now e).2) := by
  refine (CcxtExecutor.raisesUnless_reconcileOpenOrders c now e h.tidy).done ⟨?_, ?_⟩
  · intro p hp
    rw [h.unprotected] at hp
    cases hp
  · have hwatch : CcxtExecutor.watchProtection c now e = e := by
      unfold CcxtExecutor.watchProtection
      rw [h.unprotected]
    rw [hwatch]
    dsimp only
    intro _ f hf
    refine reconcilesDated hf now _ h ⟨e.openOrders.nodup, fun id p hm _ => ?_⟩
    exact (Dict.mem_entries_iff _ _ _).mp hm

/-- **No placement raises over a time**: it raises with the error of the venue alone. -/
theorem datedPlaceOrder (h : Covered v e) (req : OrderRequest) (stamp : Stamp) :
    e.datedPlaceOrder c req stamp = e.placeOrder c req stamp := by
  have hready := h.asides (CcxtExecutor.quietly_ensureMarkets c e).asides
  have hdated : (if req.side = .sell then
      CcxtExecutor.datedWithdrawProtection c req.symbol stamp.now (e.ensureMarkets c)
    else (.ok (), e.ensureMarkets c)) = (.ok (), e.ensureMarkets c) := by
    unfold CcxtExecutor.datedWithdrawProtection
    rw [hready.unprotected]
    exact ite_self _
  have hwithdraw : (if req.side = .sell then
      CcxtExecutor.withdrawProtection c req.symbol stamp.now (e.ensureMarkets c)
    else e.ensureMarkets c) = e.ensureMarkets c := by
    unfold CcxtExecutor.withdrawProtection
    rw [hready.unprotected]
    exact ite_self _
  unfold CcxtExecutor.datedPlaceOrder CcxtExecutor.placeOrder
  dsimp only
  rw [hdated, hwithdraw, andThen_ok]
  generalize e.ensureMarkets c = e₁ at hready
  cases e₁.sendableAmount c req with
  | error reason => rfl
  | ok amount =>
      dsimp only
      rcases hcreate : c.createOrder req.symbol (e₁.orderTerms c req.symbol req.side req.price).1
        req.side amount (e₁.orderTerms c req.symbol req.side req.price).2 e₁.world with ⟨answer, w⟩
      cases answer with
      | error err => rfl
      | ok raw =>
          obtain ⟨-, -, hids, -, -, -, -, hanswers⟩ := v.created hcreate
          refine CcxtExecutor.datedAcceptAnswer_of_dated c (e := { e₁ with world := w })
            hready.unprotected req amount _ hanswers.dated (fun w' answer hlater hheard => ?_)
            stamp.now
          refine Venue.dated_of_heard (v := v) hheard ?_
          rw [(Venue.evolves_later (v := v) hlater).1, hids]
          exact Finset.mem_insert_self _ _

/-! ## Confirmations -/

/-- A confirmation forgets a resolved order only. -/
theorem confirmReconciled (h : Covered v e) (id : OrderId) :
    Covered v (e.confirmReconciled id) := by
  have htidy := CcxtExecutor.tidy_confirmReconciled c e h.tidy id
  rcases e.confirmReconciled_cases id with ⟨⟨r, hr⟩, he⟩ | ⟨-, he⟩
  · rw [he] at htidy ⊢
    obtain ⟨p, hp, hres⟩ := (e.stage_eq_resolved_iff id r).mp hr
    have hsame : ∀ j q, q.resolved = none →
        ((e.openOrders.erase id).get? j = some q ↔ e.openOrders.get? j = some q) := by
      intro j q hq
      rw [Dict.get?_erase]
      by_cases hij : id = j
      · subst hij
        rw [if_pos rfl, hp]
        constructor
        · rintro ⟨⟩
        · intro hs
          rw [← Option.some.inj hs, hres] at hq
          cases hq
      · rw [if_neg hij]
    have hworking : ∀ j, CcxtExecutor.isWorking { e with openOrders := e.openOrders.erase id } j
        = e.isWorking j := fun j => CcxtExecutor.isWorking_congr (hsame j)
    refine ⟨h.unprotected, htidy, h.solid, fun j q hg hq => ?_, fun j hj hw => ?_, ?_, fun s => ?_,
      fun s => ?_⟩
    · exact h.known j q ((hsame j q hq).mp hg) hq
    · exact h.final j hj ((hworking j).symm.trans hw)
    · intro j j' q q' hg hq hs hg' hq' hs' hsym
      exact h.single j j' q q' ((hsame j q hq).mp hg) hq hs ((hsame j' q' hq').mp hg') hq' hs' hsym
    · unfold Venue.reserved
      simp only [hworking]
      exact h.reserved s
    · unfold Venue.settledSold
      simp only [hworking]
      exact h.held s
  · rw [he]
    exact h

theorem closes (h : Covered v e) {req : OrderRequest} (hc : Closes (ccxtExecutor c) e req)
    (stamp : Stamp) : Covered v ((ccxtExecutor c).placeOrder e req stamp).2 :=
  h.placed req stamp hc.idle

end Covered

/-! ## Runs -/

section Runs

variable {c : ExchangeClient W} (v : Venue c)

/-- The venue moves as it promised. -/
def KeepsPromises : AgentInput W → AgentState W → Prop
  | .venue move, st => v.Evolves st.executor.world (move st.executor.world)
  | _, _ => True

theorem covered_agentStep (i : AgentInput W) (st : AgentState W) (hi : KeepsPromises v i st)
    (h : Covered v st.executor) : Covered v (agentStep c i st).executor := by
  have hpos : ∀ e : CcxtExecutor W, Covered v e →
      Covered v ((ccxtExecutor c).getPositions e).2 :=
    fun e he => he.asides (CcxtExecutor.asides_getPositions c e)
  have hclose : ∀ e req stamp, Closes (ccxtExecutor c) e req → Covered v e →
      Covered v ((ccxtExecutor c).placeOrder e req stamp).2 :=
    fun e req stamp hc he => he.closes hc stamp
  cases i with
  | venue move =>
      exact h.carry h.unprotected (CcxtExecutor.tidy_of_same h.tidy rfl rfl rfl) rfl hi h.solid
        (fun s => rfl) (fun s => le_rfl)
  | reconcile now => exact h.moves (CcxtExecutor.moves_reconcileOpenOrders c now _ h.tidy)
  | confirm id => exact h.confirmReconciled id
  | closeAll p read stamps outcomeNow =>
      exact Pipeline.closeAllPositions_preserves (ccxtExecutor c) p hpos hclose read stamps
        outcomeNow st h
  | cycle p input =>
      exact Pipeline.run_preserves (ccxtExecutor c) p hpos
        (fun e he => he.asides (CcxtExecutor.asides_getCash c e))
        (fun e s price _ he => he.asides (CcxtExecutor.asides_updatePrice c e s price))
        hclose (fun plan he => he.placed plan.request input.stamp plan.idle) h

/-- A new executor without protective orders, before its first order. -/
theorem covered_create {w : W} (hw : v.ids w = ∅) (quote : String) {orders : VenueOrderSettings}
    (horders : orders.protectiveOrders = false) :
    Covered v (CcxtExecutor.create w quote orders) where
  unprotected := by
    unfold CcxtExecutor.create
    rw [horders]
    rfl
  tidy := CcxtExecutor.tidy_create c w quote orders
  solid _ := Fifo.Positive.nil
  known id p hg := by cases hg
  final id hid := by
    rw [show v.ids (CcxtExecutor.create w quote orders).world = ∅ from hw] at hid
    cases hid
  single id id' p p' hg := by cases hg
  reserved s := by
    unfold Venue.reserved
    rw [show v.ids (CcxtExecutor.create w quote orders).world = ∅ from hw, Finset.sum_empty]
    exact le_refl (0 : ℚ)
  held s := by
    unfold Venue.settledSold
    rw [show v.ids (CcxtExecutor.create w quote orders).world = ∅ from hw, Finset.sum_empty,
      zero_add]
    exact le_refl (0 : ℚ)

/-- Every state of a run is covered. -/
theorem covered_agentRun {w : W} (hw : v.ids w = ∅) (quote : String)
    {orders : VenueOrderSettings} (horders : orders.protectiveOrders = false) (engine : RiskEngine)
    (book : Option SleeveBook) {inputs : List (AgentInput W)}
    (hmoves : AllSteps c (KeepsPromises v) inputs
      ⟨CcxtExecutor.create w quote orders, engine, book, Dict.empty⟩) :
    Covered v (agentRun c inputs
      ⟨CcxtExecutor.create w quote orders, engine, book, Dict.empty⟩).executor :=
  run_preserves (I := fun st => Covered v st.executor) (covered_agentStep v) inputs hmoves
    (covered_create v hw quote horders)

/-- **Never oversell.** An agent that starts with a new executor without protective orders, at a
venue that keeps its promises: in every state of every run, the venue sold no more of a symbol
than was bought and booked, net of base-currency fees, and no two sell orders of a symbol are
unresolved. -/
theorem never_oversell {w : W} (hw : v.ids w = ∅) (quote : String) {orders : VenueOrderSettings}
    (horders : orders.protectiveOrders = false) (engine : RiskEngine) (book : Option SleeveBook)
    (inputs : List (AgentInput W))
    (hmoves : AllSteps c (KeepsPromises v) inputs
      ⟨CcxtExecutor.create w quote orders, engine, book, Dict.empty⟩)
    (before after : List (AgentInput W)) (hinputs : inputs = before ++ after) :
    let e := (agentRun c before
      ⟨CcxtExecutor.create w quote orders, engine, book, Dict.empty⟩).executor
    (∀ s, v.sold e.world s ≤ boughtQuantity s e.journal) ∧
      ∀ id id' p p', e.openOrders.get? id = some p → p.resolved = none → p.side = .sell →
        e.openOrders.get? id' = some p' → p'.resolved = none → p'.side = .sell →
        p.symbol = p'.symbol → id = id' := by
  intro e
  subst hinputs
  have hcovered : Covered v e := covered_agentRun v hw quote horders engine book hmoves.left
  exact ⟨fun s => (v.sold_le_reserved e s).trans (hcovered.reserved s), hcovered.single⟩

/-- In every state of such a run a reconciliation and a placement do what they do with the errors
of times that cannot be converted. -/
theorem agentRun_dated {w : W} (hw : v.ids w = ∅) (quote : String) {orders : VenueOrderSettings}
    (horders : orders.protectiveOrders = false) (engine : RiskEngine) (book : Option SleeveBook)
    {inputs : List (AgentInput W)}
    (hmoves : AllSteps c (KeepsPromises v) inputs
      ⟨CcxtExecutor.create w quote orders, engine, book, Dict.empty⟩) :
    let e := (agentRun c inputs
      ⟨CcxtExecutor.create w quote orders, engine, book, Dict.empty⟩).executor
    (∀ now, CcxtExecutor.datedReconcileOpenOrders c now e =
      (.ok (CcxtExecutor.reconcileOpenOrders c now e).1,
        (CcxtExecutor.reconcileOpenOrders c now e).2)) ∧
      ∀ req stamp, e.datedPlaceOrder c req stamp = e.placeOrder c req stamp := by
  intro e
  have hcovered : Covered v e := covered_agentRun v hw quote horders engine book hmoves
  exact ⟨hcovered.datedReconcileOpenOrders, hcovered.datedPlaceOrder⟩

end Runs

/-- An agent at the instant venue. -/
def instantStart : AgentState (List Trade) where
  executor := CcxtExecutor.create [] "USDC" VenueOrderSettings.default
  agentEngine := RiskEngine.create RiskSettings.default
  book := none
  lastDecisionAt := Dict.empty

/-- A round trip: one unit is bought and sold again. -/
theorem never_oversell_roundTrip :
    let e := (agentRun InstantVenue.client
      [buyCycle "BTC/USDC", sellCycle "BTC/USDC", .reconcile 0] instantStart).executor
    boughtQuantity "BTC/USDC" e.journal = 1 ∧ e.journal.length = 2 ∧
      InstantVenue.venue.sold e.world "BTC/USDC" ≤ boughtQuantity "BTC/USDC" e.journal := by
  refine ⟨by decide +kernel, by decide +kernel, ?_⟩
  exact (never_oversell InstantVenue.venue (w := []) rfl "USDC" rfl
    (RiskEngine.create RiskSettings.default) none
    [buyCycle "BTC/USDC", sellCycle "BTC/USDC", .reconcile 0] ⟨trivial, trivial, trivial, trivial⟩
    [buyCycle "BTC/USDC", sellCycle "BTC/USDC", .reconcile 0] [] rfl).1 "BTC/USDC"

end SmartyTrader
