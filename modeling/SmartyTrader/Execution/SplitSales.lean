import SmartyTrader.Execution.LedgerConservation
import SmartyTrader.Lib.FifoTolerance

set_option autoImplicit false

/-! # A sale in parts

A closing fill may reach the ledger in several parts at one price, each with its share of the fee.
The loop of the source books exactly the lots that `Fifo.take` takes, whatever their sizes, and
leaves `Fifo.trim` of them; so the parts add up to the fill as a whole unless a part other than the
last leaves a remainder of a lot that the tolerance drops.
-/

namespace SmartyTrader

open Lib

/-! ## One closing fill on lots of any size -/

/-- The loop books what the sale takes and leaves the queue with the tolerance applied. -/
theorem consume_eq_trim (gain : ℚ → ℚ) (quantity fee : ℚ) (hq : 0 < quantity) {lots : List Lot}
    (hp : Fifo.Positive lots) (r : ℚ) (acc : Consumed) :
    consume gain quantity fee r lots acc =
      ((Fifo.take r lots).foldl (Consumed.addLot gain quantity fee) acc,
        Fifo.trim lotEpsilon r lots) := by
  have hε : (0 : ℚ) ≤ lotEpsilon := by norm_num [lotEpsilon]
  induction lots generalizing r acc with
  | nil => rfl
  | cons l ls ih =>
      have hl := hp.head
      by_cases h0 : r ≤ 0
      · rw [consume_of_nonpos _ _ _ h0, Fifo.take_of_nonpos _ h0, Fifo.trim_of_nonpos _ _ h0,
          List.foldl_nil]
      · have hr0 : r > 0 := not_le.mp h0
        simp only [consume, if_pos hr0, gt_iff_lt, if_pos hl, if_pos hq, Fifo.take, Fifo.trim,
          if_neg h0]
        by_cases h1 : l.quantity ≤ r
        · have h2 : l.quantity - l.quantity ≤ lotEpsilon := by rw [sub_self]; exact hε
          rw [min_eq_left h1, if_pos h2, if_pos h1, if_pos h1, div_self hl.ne', mul_one,
            List.foldl_cons]
          exact ih hp.tail _ _
        · -- a cut lot ends the loop, whether its remainder stays or is dropped
          have h2 : r ≤ l.quantity := (not_le.mp h1).le
          rw [min_eq_right h2, if_neg h1, if_neg h1, sub_self,
            consume_of_nonpos _ _ _ le_rfl]
          have h5 : l.fee - l.fee * (r / l.quantity) = l.fee * ((l.quantity - r) / l.quantity) := by
            field_simp
          split_ifs <;> simp only [List.foldl_cons, List.foldl_nil, Consumed.addLot, Fifo.part, h5]

/-- The PnL that an outcome attributes to one entry decision. -/
def SellOutcome.attributed (o : SellOutcome) (entry : Option DecisionId) : ℚ :=
  ((o.closedEntries.filter fun e => e.entryDecisionId = entry).map ClosedEntry.pnl).sum

theorem sum_filter_key {κ : Type} [DecidableEq κ] (k : κ) (l : List (κ × ℚ))
    (hn : (l.map Prod.fst).Nodup) :
    ((l.filter fun e => e.1 = k).map Prod.snd).sum = (Dict.lookup k l).getD 0 := by
  induction l with
  | nil => rfl
  | cons e l ih =>
      obtain ⟨hnot, hrest⟩ := List.nodup_cons.mp hn
      rw [List.filter_cons]
      by_cases hk : e.1 = k
      · have hnone : l.filter (fun e => e.1 = k) = [] := by
          apply List.filter_eq_nil_iff.mpr
          intro e' he' hk'
          have : e'.1 = e.1 := (of_decide_eq_true hk').trans hk.symm
          exact hnot (this ▸ List.mem_map_of_mem he')
        simp [hk, hnone, Dict.lookup]
      · simpa [hk, Dict.lookup] using ih hrest

theorem attributed_outcome (acc : Consumed) (entry : Option DecisionId) :
    acc.outcome.attributed entry = (acc.perEntry.get? entry).getD 0 := by
  have hsum := sum_filter_key entry acc.perEntry.entries acc.perEntry.nodup_keys
  unfold SellOutcome.attributed Consumed.outcome
  simp only [List.filter_map, List.map_map]
  exact hsum

/-- What a unit-by-unit share of a fill's fee leaves of a lot's result: `rate` is the fee per
unit. -/
def netAt (gain : ℚ → ℚ) (rate : ℚ) (l : Lot) : ℚ :=
  gain l.price * l.quantity - l.fee - rate * l.quantity

/-- The same, counted only for the lots of one entry decision. -/
def netOfEntry (gain : ℚ → ℚ) (rate : ℚ) (entry : Option DecisionId) (l : Lot) : ℚ :=
  if l.tag = entry then netAt gain rate l else 0

theorem proportional_netAt (gain : ℚ → ℚ) (rate : ℚ) : Fifo.Proportional (netAt gain rate) := by
  intro l r h
  simp only [netAt, Fifo.part]
  field_simp

theorem proportional_netOfEntry (gain : ℚ → ℚ) (rate : ℚ) (entry : Option DecisionId) :
    Fifo.Proportional (netOfEntry gain rate entry) := by
  intro l r h
  unfold netOfEntry
  rw [Fifo.part_tag]
  split_ifs
  · exact proportional_netAt gain rate l r h
  · rw [zero_mul]

theorem lotNet_eq_netAt (gain : ℚ → ℚ) {quantity fee rate : ℚ} (hq : 0 < quantity)
    (hfee : fee = rate * quantity) : lotNet gain quantity fee = netAt gain rate := by
  funext l
  rw [lotNet, netAt, hfee]
  field_simp

theorem measure_filter_tag (gain : ℚ → ℚ) (rate : ℚ) (entry : Option DecisionId)
    (ls : List Lot) :
    Fifo.measure (netAt gain rate) (ls.filter fun l => l.tag = entry) =
      Fifo.measure (netOfEntry gain rate entry) ls := by
  induction ls with
  | nil => rfl
  | cons l ls ih =>
      rw [List.filter_cons, Fifo.measure_cons, ← ih, netOfEntry]
      by_cases h : l.tag = entry
      · simp [h]
      · simp [h]

namespace PositionTracker

variable {t : PositionTracker} {b : BookSide} {s : Symbol} {q p f rate : ℚ}

/-- What one closing fill realizes and leaves, with its fee as a rate per unit. -/
theorem close_spec (hp : Fifo.Positive (t.openLots b s)) (hq : 0 < q) (hfee : f = rate * q) :
    (t.close b s q p f).1.netPnl =
        Fifo.measure (netAt (b.gain p) rate) (Fifo.take q (t.openLots b s)) ∧
      (∀ entry, (t.close b s q p f).1.attributed entry =
        Fifo.measure (netOfEntry (b.gain p) rate entry) (Fifo.take q (t.openLots b s))) ∧
      ∀ b' s', (t.close b s q p f).2.openLots b' s' =
        if (b, s) = (b', s') then Fifo.trim lotEpsilon q (t.openLots b s)
        else t.openLots b' s' := by
  have hclose := t.close_consume b s q p f
  rw [consume_eq_trim (b.gain p) q f hq hp q Consumed.start] at hclose
  obtain ⟨houtcome, hlots⟩ := hclose
  refine ⟨?_, ?_, hlots⟩
  · rw [houtcome, ← lotNet_eq_netAt (b.gain p) hq hfee]
    show (List.foldl _ Consumed.start _).net = _
    rw [net_foldl_addLot]
    exact zero_add _
  · intro entry
    rw [houtcome, attributed_outcome, get_perEntry_foldl, lotNet_eq_netAt (b.gain p) hq hfee,
      measure_filter_tag]
    exact zero_add _

/-! ## The parts of a fill, one after the other -/

/-- The closing fills of `fills` (quantity and fee) at one price, and the ledger after them. -/
def closeEach (t : PositionTracker) (b : BookSide) (symbol : Symbol) (price : ℚ) :
    List (ℚ × ℚ) → List SellOutcome × PositionTracker
  | [] => ([], t)
  | (quantity, fee) :: rest =>
      let first := t.close b symbol quantity price fee
      let later := closeEach first.2 b symbol price rest
      (first.1 :: later.1, later.2)

end PositionTracker

/-- Each part of a fill with its share of the fee. -/
def proRata (fee : ℚ) (parts : List ℚ) : List (ℚ × ℚ) :=
  parts.map fun part => (part, fee * (part / parts.sum))

/-- No part but the last leaves a remainder of a lot that the tolerance drops. -/
def CleanSplit : List ℚ → List Lot → Prop
  | [], _ => True
  | part :: rest, lots =>
      (rest ≠ [] → ¬ Fifo.CutsDust lotEpsilon part lots) ∧ CleanSplit rest (Fifo.drop part lots)

/-- Parts and lots of whole order sizes split cleanly. -/
theorem cleanSplit_of_grid {parts : List ℚ} {lots : List Lot}
    (hparts : ∀ part ∈ parts, part ∈ grid sizeUnit)
    (hlots : ∀ l ∈ lots, l.quantity ∈ grid sizeUnit) : CleanSplit parts lots := by
  have hu : ∀ x ∈ grid sizeUnit, 0 < x → lotEpsilon < x := by
    intro x hx hpos
    have hunit : (lotEpsilon : ℚ) < sizeUnit := by norm_num [lotEpsilon, sizeUnit]
    exact lt_of_lt_of_le hunit (le_of_mem_grid (by norm_num [sizeUnit]) hpos hx)
  induction parts generalizing lots with
  | nil => exact trivial
  | cons part rest ih =>
      have hpart := hparts part List.mem_cons_self
      refine ⟨fun _ => Fifo.not_cutsDust hu hlots hpart, ?_⟩
      exact ih (fun x hx => hparts x (List.mem_cons_of_mem _ hx)) (drop_mem_grid hlots hpart)

namespace PositionTracker

/-- The parts of a fill together: they realize what the front of the queue gives, and leave what
one sale of their sum leaves. -/
theorem closeEach_spec {b : BookSide} {s : Symbol} {p rate : ℚ} {fills : List (ℚ × ℚ)}
    {t : PositionTracker} (hne : fills ≠ []) (hp : Fifo.Positive (t.openLots b s))
    (hfills : ∀ x ∈ fills, 0 < x.1 ∧ x.2 = rate * x.1)
    (hclean : CleanSplit (fills.map Prod.fst) (t.openLots b s)) :
    ((t.closeEach b s p fills).1.map SellOutcome.netPnl).sum =
        Fifo.measure (netAt (b.gain p) rate)
          (Fifo.take (fills.map Prod.fst).sum (t.openLots b s)) ∧
      (∀ entry, ((t.closeEach b s p fills).1.map (SellOutcome.attributed · entry)).sum =
        Fifo.measure (netOfEntry (b.gain p) rate entry)
          (Fifo.take (fills.map Prod.fst).sum (t.openLots b s))) ∧
      ∀ b' s', (t.closeEach b s p fills).2.openLots b' s' =
        if (b, s) = (b', s') then
          Fifo.trim lotEpsilon (fills.map Prod.fst).sum (t.openLots b s)
        else t.openLots b' s' := by
  induction fills generalizing t with
  | nil => exact absurd rfl hne
  | cons x rest ih =>
      obtain ⟨q, f⟩ := x
      obtain ⟨hq, hfee⟩ := hfills (q, f) List.mem_cons_self
      obtain ⟨hnet, hentry, hlots⟩ := close_spec (p := p) hp hq hfee
      by_cases hlast : rest = []
      · subst hlast
        simp only [closeEach, List.map_cons, List.map_nil, List.sum_cons, List.sum_nil, add_zero]
        exact ⟨hnet, hentry, hlots⟩
      · -- a part before the last is the exact sale
        have hexact : (t.close b s q p f).2.openLots b s = Fifo.drop q (t.openLots b s) := by
          rw [hlots, if_pos rfl, Fifo.trim_eq_drop (hclean.1 (by simpa using hlast))]
        have hrest : ∀ y ∈ rest, 0 < y.1 ∧ y.2 = rate * y.1 :=
          fun y hy => hfills y (List.mem_cons_of_mem _ hy)
        have hsum : 0 < (rest.map Prod.fst).sum := by
          apply List.sum_pos
          · intro y hy
            obtain ⟨z, hz, rfl⟩ := List.mem_map.mp hy
            exact (hrest z hz).1
          · simpa using hlast
        obtain ⟨hnet', hentry', hlots'⟩ := ih hlast (t := (t.close b s q p f).2)
          (by rw [hexact]; exact Fifo.positive_drop q hp) hrest
          (by rw [hexact]; exact hclean.2)
        rw [hexact] at hnet' hentry' hlots'
        simp only [closeEach, List.map_cons, List.sum_cons]
        refine ⟨?_, ?_, ?_⟩
        · rw [hnet, hnet']
          exact Fifo.measure_take_take (proportional_netAt _ _) hp hq.le hsum.le
        · intro entry
          rw [hentry, hentry']
          exact Fifo.measure_take_take (proportional_netOfEntry _ _ _) hp hq.le hsum.le
        · intro b' s'
          rw [hlots', Fifo.trim_drop _ hp hq.le hsum, hlots]
          split_ifs
          · rfl
          · rfl

/-- A closing fill made in parts at one price, with its fee split pro rata, realizes the same net
result, attributes the same result to each entry decision and leaves the same lots as the fill made
at once. -/
theorem close_in_parts (t : PositionTracker) (b : BookSide) (s : Symbol) (price fee : ℚ)
    (parts : List ℚ) (hlots : Fifo.Positive (t.openLots b s)) (hparts : ∀ part ∈ parts, 0 < part)
    (hclean : CleanSplit parts (t.openLots b s)) :
    ((t.closeEach b s price (proRata fee parts)).1.map SellOutcome.netPnl).sum =
        (t.close b s parts.sum price fee).1.netPnl ∧
      (∀ entry,
        ((t.closeEach b s price (proRata fee parts)).1.map
            (SellOutcome.attributed · entry)).sum =
          (t.close b s parts.sum price fee).1.attributed entry) ∧
      ∀ b' s', (t.closeEach b s price (proRata fee parts)).2.openLots b' s' =
        (t.close b s parts.sum price fee).2.openLots b' s' := by
  by_cases hne : parts = []
  · subst hne
    obtain ⟨houtcome, hrest⟩ := t.close_consume b s 0 price fee
    rw [consume_of_nonpos _ _ _ le_rfl] at houtcome hrest
    rw [List.sum_nil]
    refine ⟨by rw [houtcome]; rfl, fun entry => by rw [houtcome]; rfl, fun b' s' => ?_⟩
    rw [hrest]
    split_ifs with hkey
    · cases hkey
      rfl
    · rfl
  have hsum : 0 < parts.sum := List.sum_pos parts hparts hne
  have hfirst : (proRata fee parts).map Prod.fst = parts := by
    simp [proRata, List.map_map, Function.comp_def]
  -- every part pays the same fee per unit
  have hrate : ∀ x ∈ proRata fee parts, 0 < x.1 ∧ x.2 = fee / parts.sum * x.1 := by
    intro x hx
    obtain ⟨part, hpart, rfl⟩ := List.mem_map.mp hx
    refine ⟨hparts part hpart, ?_⟩
    dsimp only
    ring
  have hsplit := @closeEach_spec b s price (fee / parts.sum) (proRata fee parts) t
    (by simpa [proRata] using hne) hlots hrate (by rw [hfirst]; exact hclean)
  have hwhole := close_spec (p := price) (f := fee) hlots hsum
    (show fee = fee / parts.sum * parts.sum by field_simp)
  rw [hfirst] at hsplit
  refine ⟨hsplit.1.trans hwhole.1.symm, fun entry => ?_, fun b' s' => ?_⟩
  · exact (hsplit.2.1 entry).trans (hwhole.2.1 entry).symm
  · exact (hsplit.2.2 b' s').trans (hwhole.2.2 b' s').symm

/-- Two lots of one unit from two decisions, sold in the parts `1/2`, `1` and `1/2`. -/
def twoLots : PositionTracker :=
  (empty.onBuy "BTC/USDC" 1 100 1 (some 1)).onBuy "BTC/USDC" 1 120 2 (some 2)

theorem close_in_parts_twoLots :
    ((twoLots.closeEach .long "BTC/USDC" 150 (proRata 4 [1 / 2, 1, 1 / 2])).1.map
        SellOutcome.netPnl).sum = (twoLots.close .long "BTC/USDC" 2 150 4).1.netPnl := by
  have hlots : twoLots.openLots .long "BTC/USDC" = [⟨1, 100, 1, some 1⟩, ⟨1, 120, 2, some 2⟩] := by
    decide +kernel
  have hall := close_in_parts twoLots .long "BTC/USDC" 150 4 [1 / 2, 1, 1 / 2]
    (by rw [hlots]; exact .cons (by norm_num) (.cons (by norm_num) .nil)) (by decide +kernel)
    (by
      rw [hlots]
      apply cleanSplit_of_grid
      · intro part hpart
        apply mem_grid_iff.mpr
        rcases List.mem_cons.mp hpart with rfl | hpart
        · exact ⟨50000000, by norm_num [sizeUnit]⟩
        rcases List.mem_cons.mp hpart with rfl | hpart
        · exact ⟨100000000, by norm_num [sizeUnit]⟩
        · rw [List.mem_singleton.mp hpart]
          exact ⟨50000000, by norm_num [sizeUnit]⟩
      · intro l hl
        apply mem_grid_iff.mpr
        refine ⟨100000000, ?_⟩
        rcases List.mem_cons.mp hl with rfl | hl
        · norm_num [sizeUnit]
        · rw [List.mem_singleton.mp hl]
          norm_num [sizeUnit])
  have hsum : ([1 / 2, 1, 1 / 2] : List ℚ).sum = 2 := by norm_num
  rw [hsum] at hall
  exact hall.1

/-- A first lot a little over one unit: selling one unit leaves `1e-13` of it, which is dropped, so
that the second unit comes from the second lot alone. -/
def unevenLots : PositionTracker :=
  (empty.onBuy "BTC/USDC" (1 + 1 / 10000000000000) 100 0 (some 1)).onBuy "BTC/USDC" 1 100 0 (some 2)

theorem close_in_parts_uneven :
    ((unevenLots.closeEach .long "BTC/USDC" 200 (proRata 0 [1, 1])).1.map
        (SellOutcome.attributed · (some 1))).sum ≠
      (unevenLots.onSell "BTC/USDC" 2 200 0).1.attributed (some 1) := by
  decide +kernel

end PositionTracker

end SmartyTrader
