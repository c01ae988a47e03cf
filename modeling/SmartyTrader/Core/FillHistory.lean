import SmartyTrader.Core.Rehydration

set_option autoImplicit false

/-! # Histories of fills

The lots and the exit levels of one symbol as functions of its fills in the order in which they
are booked. A replay computes them for every symbol (`lotsOf_replayFills`, `levels_replayFills`).
`SameHistory` lists the ways in which two orders of the same fills can differ and still leave the
same lots: a sale that the lots before it cover does not see the purchases that come later, and
sales that leave no remainder within the tolerance may also change places with each other.
-/

namespace SmartyTrader

open Lib

/-! ## Lots and levels after some fills -/

/-- The fills of a symbol. -/
def ofSymbol (s : Symbol) (fills : List FillRecord) : List FillRecord :=
  fills.filter (fun f => f.symbol = s)

def buysOf (fills : List FillRecord) : List FillRecord :=
  fills.filter (fun f => f.side = some .buy)

def sellsOf (fills : List FillRecord) : List FillRecord :=
  fills.filter (fun f => f.side = some .sell)

/-- The lots of a symbol after its fills. -/
def lotsAfter (fills : List FillRecord) (ls : List Lot) : List Lot :=
  fills.foldl (fun ls f => f.bookLots ls) ls

/-- The levels of the last BUY. -/
def levelsAfter (fills : List FillRecord) : Option ExitLevels :=
  (buysOf fills).getLast?.map (fun f => (f.stopLoss, f.takeProfit))

theorem lotsAfter_append (xs ys : List FillRecord) (ls : List Lot) :
    lotsAfter (xs ++ ys) ls = lotsAfter ys (lotsAfter xs ls) := List.foldl_append

/-- A BUY brings its own levels. -/
theorem levelsAfter_buy (xs : List FillRecord) {f : FillRecord} (hf : f.side = some .buy) :
    levelsAfter (xs ++ [f]) = some (f.stopLoss, f.takeProfit) := by
  unfold levelsAfter buysOf
  rw [List.filter_append, List.filter_cons_of_pos (by simpa using hf), List.filter_nil,
    List.getLast?_concat, Option.map_some]

/-- Any other fill leaves the levels. -/
theorem levelsAfter_other (xs : List FillRecord) {f : FillRecord} (hf : f.side ≠ some .buy) :
    levelsAfter (xs ++ [f]) = levelsAfter xs := by
  unfold levelsAfter buysOf
  rw [List.filter_append, List.filter_cons_of_neg (by simpa using hf), List.filter_nil,
    List.append_nil]

/-- The lot of a BUY, if it books anything. -/
def FillRecord.lot? (f : FillRecord) : Option Lot :=
  if f.booked ≤ 0 then none
  else some ⟨f.booked, f.price,
    (if f.feeBase ≥ f.quantity ∧ f.quantity > 0 then 0 else f.feeBase) * f.price + f.feeQuote,
    f.decisionId⟩

theorem bookLots_buy {f : FillRecord} (hf : f.side = some .buy) (ls : List Lot) :
    f.bookLots ls = ls ++ f.lot?.toList := by
  unfold FillRecord.bookLots FillRecord.lot?
  rw [hf]
  by_cases hq : f.booked ≤ 0
  · simp only [if_pos hq, Option.toList_none, List.append_nil]
  · simp only [if_neg hq, Option.toList_some]

theorem positive_lot? {f : FillRecord} : Fifo.Positive f.lot?.toList := by
  unfold FillRecord.lot?
  by_cases hq : f.booked ≤ 0
  · rw [if_pos hq]
    exact Fifo.Positive.nil
  · rw [if_neg hq]
    exact Fifo.Positive.cons (not_le.mp hq) Fifo.Positive.nil

theorem positive_lotsAfter (fills : List FillRecord) {ls : List Lot} (h : Fifo.Positive ls) :
    Fifo.Positive (lotsAfter fills ls) := by
  induction fills generalizing ls with
  | nil => exact h
  | cons f rest ih => exact ih (positive_bookLots f h)

/-- Only a BUY adds to the lots. -/
theorem total_bookLots_le_total {f : FillRecord} (hf : f.side ≠ some .buy) {ls : List Lot}
    (h : Fifo.Positive ls) : Fifo.total (f.bookLots ls) ≤ Fifo.total ls := by
  unfold FillRecord.bookLots
  rcases hside : f.side with _ | _ | _
  · exact le_rfl
  · exact absurd hside hf
  · dsimp only
    split_ifs
    · exact le_rfl
    · exact total_consume_le_total _ _ _ h _ _

/-! ## What a replay leaves -/

theorem lotsOf_replay (fills : List FillRecord) (r : Replay) (s : Symbol) :
    (fills.foldl Replay.step r).tracker.lotsOf s
      = lotsAfter (ofSymbol s fills) (r.tracker.lotsOf s) := by
  induction fills generalizing r with
  | nil => rfl
  | cons f rest ih =>
      rw [List.foldl_cons, ih, lotsOf_replayStep]
      unfold ofSymbol
      by_cases hs : f.symbol = s
      · rw [if_pos hs, List.filter_cons_of_pos (by simpa using hs)]
        rfl
      · rw [if_neg hs, List.filter_cons_of_neg (by simpa using hs)]

/-- A replay leaves the lots of each symbol's own fills. -/
theorem lotsOf_replayFills (fills : List FillRecord) (s : Symbol) :
    (replayFills PositionTracker.empty fills).tracker.lotsOf s
      = lotsAfter (ofSymbol s fills) [] :=
  lotsOf_replay fills _ s

theorem ofSymbol_concat_self (xs : List FillRecord) (f : FillRecord) :
    ofSymbol f.symbol (xs ++ [f]) = ofSymbol f.symbol xs ++ [f] := by
  unfold ofSymbol
  rw [List.filter_append, List.filter_cons_of_pos (by simp), List.filter_nil]

theorem ofSymbol_concat_ne (xs : List FillRecord) {f : FillRecord} {s : Symbol}
    (h : f.symbol ≠ s) : ofSymbol s (xs ++ [f]) = ofSymbol s xs := by
  unfold ofSymbol
  rw [List.filter_append, List.filter_cons_of_neg (by simpa using h), List.filter_nil,
    List.append_nil]

/-- The levels of a replay after one more fill. -/
theorem levels_replayStep (r : Replay) {f : FillRecord} {side : OrderSide}
    (hside : f.side = some side)
    (hopen : lotEpsilon < (r.step f).tracker.quantity f.symbol) :
    (r.step f).levels.get? f.symbol
      = if side = .buy then some (f.stopLoss, f.takeProfit) else r.levels.get? f.symbol := by
  unfold Replay.step at hopen ⊢
  rw [hside] at hopen ⊢
  dsimp only at hopen ⊢
  rw [if_neg (not_le.mpr hopen)]
  split_ifs
  · exact Dict.get?_set_self ..
  · rfl

/-- A fill of another symbol leaves them. -/
theorem levels_replayStep_ne (r : Replay) {f : FillRecord} {s : Symbol} (h : f.symbol ≠ s) :
    (r.step f).levels.get? s = r.levels.get? s := by
  unfold Replay.step
  split
  · rfl
  · dsimp only
    split_ifs
    · rw [Dict.get?_erase_ne _ h, Dict.get?_set_ne _ _ h]
    · rw [Dict.get?_erase_ne _ h]
    · rw [Dict.get?_set_ne _ _ h]
    · rfl

/-- Of a symbol that is open a replay leaves the levels of its last BUY. -/
theorem levels_replayFills (fills : List FillRecord) (s : Symbol)
    (h : lotEpsilon < (replayFills PositionTracker.empty fills).tracker.quantity s) :
    (replayFills PositionTracker.empty fills).levels.get? s
      = levelsAfter (ofSymbol s fills) := by
  induction fills using List.reverseRecOn with
  | nil =>
      -- Nothing is open without a fill.
      exact absurd h (by norm_num [replayFills, PositionTracker.quantity, PositionTracker.lotsOf,
        PositionTracker.lotsIn, PositionTracker.empty, lotEpsilon])
  | append_singleton rest f ih =>
      have hstep : replayFills PositionTracker.empty (rest ++ [f])
          = (replayFills PositionTracker.empty rest).step f := by
        unfold replayFills
        rw [List.foldl_append]
        rfl
      rw [hstep] at h ⊢
      generalize hr : replayFills PositionTracker.empty rest = r at h ih ⊢
      have hlots := lotsOf_replayStep r f s
      by_cases hs : f.symbol = s
      · subst hs
        rw [if_pos rfl] at hlots
        rw [ofSymbol_concat_self]
        by_cases hbuy : f.side = some .buy
        · rw [levels_replayStep r hbuy h, if_pos rfl, levelsAfter_buy _ hbuy]
        · -- Before anything but a BUY the symbol was open too.
          have hpos : Fifo.Positive (r.tracker.lotsOf f.symbol) := by
            rw [← hr, lotsOf_replayFills]
            exact positive_lotsAfter _ Fifo.Positive.nil
          have hle : (r.step f).tracker.quantity f.symbol ≤ r.tracker.quantity f.symbol := by
            unfold PositionTracker.quantity
            rw [hlots]
            exact total_bookLots_le_total hbuy hpos
          rw [levelsAfter_other _ hbuy, ← ih (h.trans_le hle)]
          cases hside : f.side with
          | none =>
              unfold Replay.step
              rw [hside]
          | some side =>
              have hne : side ≠ .buy := by
                rintro rfl
                exact hbuy hside
              rw [levels_replayStep r hside h, if_neg hne]
      · rw [levels_replayStep_ne r hs, ofSymbol_concat_ne _ hs]
        apply ih
        unfold PositionTracker.quantity at h ⊢
        rw [hlots, if_neg hs] at h
        exact h

/-! ## Orders that leave the same lots -/

/-- No SELL asks for more than the lots hold when it is booked. -/
def CoveredHistory : List Lot → List FillRecord → Prop
  | _, [] => True
  | ls, f :: rest =>
      (f.side = some .sell → f.quantity ≤ Fifo.total ls) ∧ CoveredHistory (f.bookLots ls) rest

/-- Every SELL is covered and leaves no lot within the tolerance. -/
def CleanHistory : List Lot → List FillRecord → Prop
  | _, [] => True
  | ls, f :: rest =>
      (f.side = some .sell → (0 ≤ f.quantity ∧ f.quantity ≤ Fifo.total ls) ∧
        ∀ l ∈ Fifo.drop f.quantity ls, lotEpsilon < l.quantity) ∧
      CleanHistory (f.bookLots ls) rest

/-- Two orders of the same fills of a symbol that leave the same lots. -/
inductive SameHistory (xs ys : List FillRecord) : Prop where
  /-- The fills come in the same order. -/
  | ordered (h : xs = ys)
  /-- The BUYs come in the same order and so do the SELLs, each covered where it comes. -/
  | interleaved (buys : buysOf xs = buysOf ys) (sells : sellsOf xs = sellsOf ys)
      (hx : CoveredHistory [] xs) (hy : CoveredHistory [] ys)
  /-- The BUYs come in the same order, and the SELLs leave nothing within the tolerance. -/
  | clean (buys : buysOf xs = buysOf ys) (hx : CleanHistory [] xs) (hy : CleanHistory [] ys)

theorem SameHistory.buys {xs ys : List FillRecord} (h : SameHistory xs ys) :
    buysOf xs = buysOf ys := by
  cases h with
  | ordered h => rw [h]
  | interleaved buys => exact buys
  | clean buys => exact buys

theorem SameHistory.levelsAfter {xs ys : List FillRecord} (h : SameHistory xs ys) :
    levelsAfter xs = levelsAfter ys := by
  unfold SmartyTrader.levelsAfter
  rw [h.buys]

/-! ### Purchases that come later -/

/-- A sale covered by the front of the queue does not see what stands behind it. -/
theorem consume_append (gain : ℚ → ℚ) (quantity fee : ℚ) {ls : List Lot} (ms : List Lot) {r : ℚ}
    (hr : r ≤ Fifo.total ls) (acc : Consumed) :
    (consume gain quantity fee r (ls ++ ms) acc).2
      = (consume gain quantity fee r ls acc).2 ++ ms := by
  induction ls generalizing r acc with
  | nil =>
      have hr0 : r ≤ 0 := by simpa using hr
      rw [List.nil_append, consume_of_nonpos _ _ _ hr0, consume_of_nonpos _ _ _ hr0,
        List.nil_append]
  | cons l ls ih =>
      rw [Fifo.total_cons] at hr
      by_cases h0 : r > 0
      · simp only [List.cons_append, consume, if_pos h0]
        by_cases h1 : l.quantity - min l.quantity r ≤ lotEpsilon
        · rw [if_pos h1, if_pos h1]
          rcases le_total l.quantity r with h2 | h2
          · apply ih
            rw [min_eq_left h2]
            linarith
          · -- The lot covered the sale, and what remained of it within the tolerance is gone.
            have h3 : r - min l.quantity r ≤ 0 := by rw [min_eq_right h2, sub_self]
            rw [consume_of_nonpos _ _ _ h3, consume_of_nonpos _ _ _ h3]
        · rw [if_neg h1, if_neg h1, List.cons_append]
      · simp only [List.cons_append, consume, if_neg h0]

theorem bookLots_sell_append {f : FillRecord} (hf : f.side = some .sell) {ls : List Lot}
    {ms : List Lot} (hms : Fifo.Positive ms) (hq : f.quantity ≤ Fifo.total ls) :
    f.bookLots (ls ++ ms) = f.bookLots ls ++ ms := by
  have hzero : ∀ ks : List Lot, f.quantity ≤ 0 → f.bookLots ks = ks := by
    intro ks h0
    unfold FillRecord.bookLots
    rw [hf]
    dsimp only
    rw [consume_of_nonpos _ _ _ h0, ite_self]
  by_cases h0 : f.quantity ≤ 0
  · rw [hzero _ h0, hzero _ h0]
  · have hpos : 0 < Fifo.total ls := lt_of_lt_of_le (not_le.mp h0) hq
    unfold FillRecord.bookLots
    rw [hf]
    dsimp only
    rw [if_neg (not_le.mpr hpos)]
    have hall : 0 < Fifo.total (ls ++ ms) := by
      have := Fifo.total_nonneg hms
      rw [Fifo.total_append]
      linarith
    rw [if_neg (not_le.mpr hall), consume_append _ _ _ _ hq]

theorem lotsAfter_buys (fills : List FillRecord) (ls : List Lot) :
    lotsAfter (buysOf fills) ls = ls ++ lotsAfter (buysOf fills) [] := by
  induction fills generalizing ls with
  | nil => exact (List.append_nil ls).symm
  | cons f rest ih =>
      unfold buysOf
      by_cases hf : f.side = some .buy
      · rw [List.filter_cons_of_pos (by simpa using hf)]
        show lotsAfter (buysOf rest) (f.bookLots ls) = ls ++ lotsAfter (buysOf rest) (f.bookLots [])
        rw [bookLots_buy hf, bookLots_buy hf, List.nil_append, ih (ls ++ f.lot?.toList),
          ih f.lot?.toList, List.append_assoc]
      · rw [List.filter_cons_of_neg (by simpa using hf)]
        exact ih ls

/-- **A covered history is its BUYs, then its SELLs.** -/
theorem lotsAfter_covered (fills : List FillRecord) {ls : List Lot}
    (h : CoveredHistory ls fills) :
    lotsAfter fills ls = lotsAfter (sellsOf fills) (lotsAfter (buysOf fills) ls) := by
  induction fills generalizing ls with
  | nil => rfl
  | cons f rest ih =>
      have hrest := ih h.2
      rcases hside : f.side with _ | _ | _
      · -- A text that names no side books nothing.
        have hskip : f.bookLots ls = ls := by
          unfold FillRecord.bookLots
          rw [hside]
        rw [hskip] at hrest
        unfold sellsOf buysOf
        rw [List.filter_cons_of_neg (by simp [hside]), List.filter_cons_of_neg (by simp [hside])]
        show lotsAfter rest (f.bookLots ls) = _
        rw [hskip]
        exact hrest
      · unfold sellsOf buysOf
        rw [List.filter_cons_of_neg (by simp [hside]), List.filter_cons_of_pos (by simp [hside])]
        exact hrest
      · have hq := h.1 hside
        unfold sellsOf buysOf
        rw [List.filter_cons_of_pos (by simp [hside]), List.filter_cons_of_neg (by simp [hside])]
        have hbuys : Fifo.Positive (lotsAfter (buysOf rest) []) :=
          positive_lotsAfter _ Fifo.Positive.nil
        calc lotsAfter (f :: rest) ls
            = lotsAfter (sellsOf rest) (lotsAfter (buysOf rest) (f.bookLots ls)) := hrest
          _ = lotsAfter (sellsOf rest) (f.bookLots ls ++ lotsAfter (buysOf rest) []) := by
              rw [lotsAfter_buys]
          _ = lotsAfter (sellsOf rest) (f.bookLots (ls ++ lotsAfter (buysOf rest) [])) := by
              rw [bookLots_sell_append hside hbuys hq]
          _ = lotsAfter (sellsOf rest) (f.bookLots (lotsAfter (buysOf rest) ls)) := by
              rw [← lotsAfter_buys]

/-! ### Sales that change places -/

/-- A sale that leaves no lot within the tolerance is exact. -/
theorem consume_of_clean (gain : ℚ → ℚ) (quantity fee : ℚ) {ls : List Lot}
    (hp : Fifo.Positive ls) {r : ℚ} (h : ∀ l ∈ Fifo.drop r ls, lotEpsilon < l.quantity)
    (acc : Consumed) : (consume gain quantity fee r ls acc).2 = Fifo.drop r ls := by
  have hε : (0 : ℚ) ≤ lotEpsilon := by norm_num [lotEpsilon]
  induction ls generalizing r acc with
  | nil => rfl
  | cons l ls ih =>
      have hl := hp.head
      by_cases h0 : r ≤ 0
      · rw [consume_of_nonpos _ _ _ h0, Fifo.drop_of_nonpos _ h0]
      · have hr0 : r > 0 := not_le.mp h0
        simp only [consume, if_pos hr0, Fifo.drop, if_neg h0] at h ⊢
        by_cases h1 : l.quantity ≤ r
        · rw [if_pos h1] at h ⊢
          rw [min_eq_left h1, sub_self, if_pos hε]
          exact ih hp.tail h _
        · rw [if_neg h1] at h ⊢
          have hkept : lotEpsilon < l.quantity - r := h _ List.mem_cons_self
          rw [min_eq_right (not_le.mp h1).le, if_neg (not_le.mpr hkept), if_pos hl]
          have hfee : l.fee - l.fee * (r / l.quantity)
              = l.fee * ((l.quantity - r) / l.quantity) := by
            field_simp
          rw [hfee]
          rfl

/-- The event of the exact queue that a fill is. -/
def FillRecord.event (f : FillRecord) : Option (Fifo.Event ℚ (Option DecisionId)) :=
  match f.side with
  | none => none
  | some .buy => f.lot?.map Fifo.Event.buy
  | some .sell => some (.sell f.quantity)

theorem bookLots_sell_clean {f : FillRecord} (hf : f.side = some .sell) {ls : List Lot}
    (hp : Fifo.Positive ls) (h : ∀ l ∈ Fifo.drop f.quantity ls, lotEpsilon < l.quantity) :
    f.bookLots ls = Fifo.drop f.quantity ls := by
  unfold FillRecord.bookLots
  rw [hf]
  dsimp only
  by_cases ht : Fifo.total ls ≤ 0
  · rw [if_pos ht, Fifo.eq_nil_of_total_nonpos hp ht, Fifo.drop_nil]
  · rw [if_neg ht, consume_of_clean _ _ _ hp h]

/-- A clean history is one of the exact queue. -/
theorem run_of_clean (fills : List FillRecord) {ls : List Lot} (hp : Fifo.Positive ls)
    (h : CleanHistory ls fills) :
    Fifo.Valid ls (fills.filterMap FillRecord.event) ∧
      lotsAfter fills ls = Fifo.run ls (fills.filterMap FillRecord.event) := by
  induction fills generalizing ls with
  | nil => exact ⟨trivial, rfl⟩
  | cons f rest ih =>
      have hnext := ih (positive_bookLots f hp) h.2
      rcases hside : f.side with _ | _ | _
      · have hskip : f.bookLots ls = ls := by
          unfold FillRecord.bookLots
          rw [hside]
        rw [List.filterMap_cons_none (by simp [FillRecord.event, hside])]
        rw [hskip] at hnext
        refine ⟨hnext.1, ?_⟩
        show lotsAfter rest (f.bookLots ls) = _
        rw [hskip]
        exact hnext.2
      · rw [bookLots_buy hside] at hnext
        have hbook : lotsAfter (f :: rest) ls = lotsAfter rest (ls ++ f.lot?.toList) := by
          rw [← bookLots_buy hside]
          rfl
        rw [hbook]
        cases hlot : f.lot? with
        | none =>
            rw [hlot, Option.toList_none, List.append_nil] at hnext
            rw [List.filterMap_cons_none (by simp [FillRecord.event, hside, hlot]),
              Option.toList_none, List.append_nil]
            exact hnext
        | some lot =>
            have hpos : 0 < lot.quantity := by
              have := positive_lot? (f := f)
              rw [hlot] at this
              exact this.head
            rw [hlot, Option.toList_some] at hnext
            rw [List.filterMap_cons_some (b := Fifo.Event.buy lot)
              (by simp [FillRecord.event, hside, hlot]), Option.toList_some]
            exact ⟨⟨hpos, hnext.1⟩, hnext.2⟩
      · obtain ⟨hq, hclean⟩ := h.1 hside
        have hdrop := bookLots_sell_clean hside hp hclean
        rw [hdrop] at hnext
        rw [List.filterMap_cons_some (b := Fifo.Event.sell f.quantity)
          (by simp [FillRecord.event, hside])]
        refine ⟨⟨hq, hnext.1⟩, ?_⟩
        show lotsAfter rest (f.bookLots ls) = _
        rw [hdrop]
        exact hnext.2

theorem bought_events (fills : List FillRecord) :
    Fifo.bought (fills.filterMap FillRecord.event)
      = (buysOf fills).filterMap FillRecord.lot? := by
  induction fills with
  | nil => rfl
  | cons f rest ih =>
      unfold buysOf at ih ⊢
      rcases hside : f.side with _ | _ | _
      · rw [List.filterMap_cons_none (by simp [FillRecord.event, hside]),
          List.filter_cons_of_neg (by simp [hside]), ih]
      · rw [List.filter_cons_of_pos (by simp [hside])]
        cases hlot : f.lot? with
        | none =>
            rw [List.filterMap_cons_none (by simp [FillRecord.event, hside, hlot]),
              List.filterMap_cons_none hlot, ih]
        | some lot =>
            rw [List.filterMap_cons_some (b := Fifo.Event.buy lot)
              (by simp [FillRecord.event, hside, hlot]), List.filterMap_cons_some hlot, ← ih]
            rfl
      · rw [List.filterMap_cons_some (b := Fifo.Event.sell f.quantity)
          (by simp [FillRecord.event, hside]), List.filter_cons_of_neg (by simp [hside]), ← ih]
        rfl

theorem sold_events (fills : List FillRecord) :
    Fifo.sold (fills.filterMap FillRecord.event)
      = ((sellsOf fills).map FillRecord.quantity).sum := by
  induction fills with
  | nil => rfl
  | cons f rest ih =>
      unfold sellsOf at ih ⊢
      rcases hside : f.side with _ | _ | _
      · rw [List.filterMap_cons_none (by simp [FillRecord.event, hside]),
          List.filter_cons_of_neg (by simp [hside]), ih]
      · rw [List.filter_cons_of_neg (by simp [hside])]
        cases hlot : f.lot? with
        | none => rw [List.filterMap_cons_none (by simp [FillRecord.event, hside, hlot]), ih]
        | some lot =>
            rw [List.filterMap_cons_some (b := Fifo.Event.buy lot)
              (by simp [FillRecord.event, hside, hlot])]
            exact ih
      · rw [List.filterMap_cons_some (b := Fifo.Event.sell f.quantity)
          (by simp [FillRecord.event, hside]), List.filter_cons_of_pos (by simp [hside]),
          List.map_cons, List.sum_cons, ← ih]
        rfl

/-- **Histories that agree leave the same lots.** -/
theorem SameHistory.lotsAfter {xs ys : List FillRecord} (h : SameHistory xs ys)
    (hperm : xs.Perm ys) : lotsAfter xs [] = lotsAfter ys [] := by
  cases h with
  | ordered h => rw [h]
  | interleaved buys sells hx hy =>
      rw [lotsAfter_covered xs hx, lotsAfter_covered ys hy, buys, sells]
  | clean buys hx hy =>
      obtain ⟨hvx, hrx⟩ := run_of_clean xs Fifo.Positive.nil hx
      obtain ⟨hvy, hry⟩ := run_of_clean ys Fifo.Positive.nil hy
      have hsold : Fifo.sold (xs.filterMap FillRecord.event)
          = Fifo.sold (ys.filterMap FillRecord.event) := by
        rw [sold_events, sold_events]
        exact ((hperm.filter _).map _).sum_eq
      rw [hrx, hry]
      apply Fifo.run_eq_run hvx hvy
      · rw [bought_events, bought_events, buys]
      · exact hsold

end SmartyTrader
