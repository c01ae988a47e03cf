import SmartyTrader.Execution.PositionTracker

set_option autoImplicit false

/-! # Holding times of a sleeve

`_holding_hours` replays a sleeve's filled orders first in, first out, and weighs the age of what
each closing fill consumed. The ledger replays the same rows with `book_fill`. The two keep lots of
their own: the ledger's shrink by the fee that a purchase paid in its base currency, and its loop
goes on until nothing remains to be sold, where this one stops at `1e-12`. As long as no sale goes
past a lot that was shrunk, and none asks a lot for a crumb, they consume the same
(`holding_hours_agree`).
-/

namespace SmartyTrader

open Lib

/-! ## The replay of `_holding_hours` -/

/-- A filled order as the sleeve's record has it. Times are in seconds. -/
structure FilledOrder where
  symbol : Symbol
  side : OrderSide
  quantity : ℚ
  price : ℚ
  feeBase : ℚ
  feeQuote : ℚ
  filledAt : Option ℚ
  realizedPnl : Option ℚ

/-- A lot of this replay. -/
structure HeldLot where
  quantity : ℚ
  filledAt : ℚ

/-- The loop over the lots, with `weighted` and `consumed` so far. The recursion is on `remaining`
and the queue. -/
def weigh (filledAt : ℚ) : ℚ → List HeldLot → ℚ × ℚ → (ℚ × ℚ) × List HeldLot
  | _, [], acc => (acc, [])
  | remaining, lot :: book, acc =>
      if remaining > lotEpsilon then
        let take := min lot.quantity remaining
        let acc := (acc.1 + take * (filledAt - lot.filledAt) / 3600, acc.2 + take)
        let left := lot.quantity - take
        if left ≤ lotEpsilon then weigh filledAt (remaining - take) book acc
        else
          -- The lot outlasted the sale, so nothing remains and the loop ends.
          (acc, { lot with quantity := left } :: book)
      else (acc, lot :: book)

/-- `deque` of a symbol, empty when it is absent. -/
def heldIn (lots : Dict Symbol (List HeldLot)) (symbol : Symbol) : List HeldLot :=
  (lots.get? symbol).getD []

/-- One row: the lots it leaves, and the hours it reports. -/
def holdingStep (lots : Dict Symbol (List HeldLot)) (order : FilledOrder) :
    Dict Symbol (List HeldLot) × Option ℚ :=
  match order.filledAt with
  | none => (lots, none)
  | some filledAt =>
      if order.quantity ≤ 0 then (lots, none)
      else
        let book := heldIn lots order.symbol
        match order.side with
        | .buy => (lots.set order.symbol (book ++ [⟨order.quantity, filledAt⟩]), none)
        | .sell =>
            let r := weigh filledAt order.quantity book (0, 0)
            (lots.set order.symbol r.2,
              if r.1.2 > 0 ∧ order.realizedPnl.isSome then some (r.1.1 / r.1.2) else none)

/-- `_holding_hours`, from some lots on. -/
def holdingHoursFrom (lots : Dict Symbol (List HeldLot)) : List FilledOrder → List ℚ
  | [] => []
  | order :: orders =>
      let r := holdingStep lots order
      r.2.toList ++ holdingHoursFrom r.1 orders

/-- `_holding_hours`. -/
def holdingHours (orders : List FilledOrder) : List ℚ := holdingHoursFrom Dict.empty orders

/-! ## The replay of the ledger

The lots of the ledger are told apart by the row that bought them. -/

/-- What the loop of `on_sell` consumes: how much of which lot. -/
def consumedLots : ℚ → List Lot → List (ℚ × Lot)
  | _, [] => []
  | remaining, lot :: lots =>
      if remaining > 0 then
        let take := min lot.quantity remaining
        (take, lot) ::
          if lot.quantity - take ≤ lotEpsilon then consumedLots (remaining - take) lots else []
      else []

/-- `book_fill` of the row with a certain number. -/
def bookOrder (t : PositionTracker) (k : ℕ) (order : FilledOrder) : PositionTracker :=
  (bookFill t order.symbol order.side order.quantity order.price order.feeBase order.feeQuote
    (some k)).2

/-- The lots that `book_fill` consumes for a row. -/
def consumedBy (t : PositionTracker) (order : FilledOrder) : List (ℚ × Lot) :=
  match order.side with
  | .buy => []
  | .sell =>
      if t.quantity order.symbol ≤ 0 then []
      else consumedLots order.quantity (t.lotsOf order.symbol)

/-- When the row was filled that bought a lot. -/
def lotBoughtAt (rows : List FilledOrder) : Option DecisionId → ℚ
  | none => 0
  | some k => (rows[k]?.bind FilledOrder.filledAt).getD 0

/-- The units consumed. -/
def soldUnits (sold : List (ℚ × Lot)) : ℚ := (sold.map Prod.fst).sum

/-- The hours that the units consumed were held, added up. -/
def unitHours (rows : List FilledOrder) (filledAt : ℚ) (sold : List (ℚ × Lot)) : ℚ :=
  (sold.map fun c => c.1 * (filledAt - lotBoughtAt rows c.2.tag) / 3600).sum

/-- The quantity-weighted age of what the ledger consumes for a closing fill. -/
def ledgerAge (rows : List FilledOrder) (t : PositionTracker) (order : FilledOrder) : Option ℚ :=
  let sold := consumedBy t order
  if soldUnits sold > 0 ∧ order.realizedPnl.isSome then
    some (unitHours rows (order.filledAt.getD 0) sold / soldUnits sold)
  else none

/-- The ages for the rows from number `k` on. -/
def ledgerHoursFrom (rows : List FilledOrder) : ℕ → PositionTracker → List FilledOrder → List ℚ
  | _, _, [] => []
  | k, t, order :: orders =>
      (ledgerAge rows t order).toList ++ ledgerHoursFrom rows (k + 1) (bookOrder t k order) orders

def ledgerHours (rows : List FilledOrder) : List ℚ := ledgerHoursFrom rows 0 .empty rows

/-! ## Where the two could part -/

/-- A purchase whose fee shrinks its lot. -/
def FilledOrder.shrinks (order : FilledOrder) : Bool :=
  order.side = .buy ∧ 0 < order.feeBase ∧ order.feeBase < order.quantity

/-- A lot that a fee has shrunk. -/
def shrunk (rows : List FilledOrder) : Option DecisionId → Bool
  | none => false
  | some k => (rows[k]?).any FilledOrder.shrinks

/-- A sale that goes no further than the first shrunk lot, and asks no lot for a crumb. -/
def soldAlike (rows : List FilledOrder) : ℚ → List Lot → Bool
  | _, [] => true
  | q, lot :: lots =>
      q ≤ 0 || (lotEpsilon < q && (!shrunk rows lot.tag || q ≤ lot.quantity) &&
        (lot.quantity > q || soldAlike rows (q - lot.quantity) lots))

/-- Row `j` bought the symbol and its fee shrank the lot. -/
def shrunkRow (rows : List FilledOrder) (symbol : Symbol) (j : ℕ) : Bool :=
  (rows[j]?).any fun order => order.symbol = symbol && order.shrinks

/-- The condition on a row: a sale finds each shrunk lot of its symbol still open, and goes past
none. -/
def AlikeAt (rows : List FilledOrder) (k : ℕ) (t : PositionTracker) (order : FilledOrder) : Prop :=
  order.side = .sell → 0 < order.quantity →
    (∀ j < k, shrunkRow rows order.symbol j = true →
      some j ∈ (t.lotsOf order.symbol).map Fifo.Lot.tag) ∧
    soldAlike rows order.quantity (t.lotsOf order.symbol) = true

instance (rows : List FilledOrder) (k : ℕ) (t : PositionTracker) (order : FilledOrder) :
    Decidable (AlikeAt rows k t order) := inferInstanceAs (Decidable (_ → _ → _ ∧ _))

/-- The condition on each row of the replay. -/
def AlikeFrom (rows : List FilledOrder) : ℕ → PositionTracker → List FilledOrder → Prop
  | _, _, [] => True
  | k, t, order :: orders =>
      AlikeAt rows k t order ∧ AlikeFrom rows (k + 1) (bookOrder t k order) orders

instance decidableAlikeFrom (rows : List FilledOrder) :
    (k : ℕ) → (t : PositionTracker) → (orders : List FilledOrder) →
      Decidable (AlikeFrom rows k t orders)
  | _, _, [] => isTrue trivial
  | k, t, order :: orders =>
      have := decidableAlikeFrom rows (k + 1) (bookOrder t k order) orders
      inferInstanceAs (Decidable (AlikeAt rows k t order ∧ _))

/-! ## Lots that agree -/

variable {rows : List FilledOrder}

/-- A lot of this replay and one of the ledger: bought together, and of one size unless a fee has
shrunk the ledger's. -/
def SameLot (rows : List FilledOrder) (held : HeldLot) (lot : Lot) : Prop :=
  held.filledAt = lotBoughtAt rows lot.tag ∧ lot.quantity ≤ held.quantity ∧
    (shrunk rows lot.tag = false → held.quantity = lot.quantity)

abbrev Aligned (rows : List FilledOrder) : List HeldLot → List Lot → Prop :=
  List.Forall₂ (SameLot rows)

theorem weigh_of_le (filledAt : ℚ) {q : ℚ} (hq : q ≤ lotEpsilon) (book : List HeldLot)
    (acc : ℚ × ℚ) : weigh filledAt q book acc = (acc, book) := by
  cases book with
  | nil => rfl
  | cons lot book => rw [weigh, if_neg (not_lt.mpr hq)]

theorem consumedLots_of_nonpos {q : ℚ} (hq : q ≤ 0) (lots : List Lot) :
    consumedLots q lots = [] := by
  cases lots with
  | nil => rfl
  | cons lot lots => rw [consumedLots, if_neg (not_lt.mpr hq)]

/-- What the loop of `_holding_hours` adds up for a sale that both consume alike. -/
def weighed (rows : List FilledOrder) (filledAt : ℚ) (acc : ℚ × ℚ) (sold : List (ℚ × Lot)) : ℚ × ℚ :=
  (acc.1 + unitHours rows filledAt sold, acc.2 + soldUnits sold)

theorem weighed_nil (filledAt : ℚ) (acc : ℚ × ℚ) : weighed rows filledAt acc [] = acc := by
  simp [weighed, unitHours, soldUnits]

theorem weighed_cons (filledAt : ℚ) (acc : ℚ × ℚ) (c : ℚ × Lot) (sold : List (ℚ × Lot)) :
    weighed rows filledAt acc (c :: sold) =
      weighed rows filledAt
        (acc.1 + c.1 * (filledAt - lotBoughtAt rows c.2.tag) / 3600, acc.2 + c.1) sold := by
  simp only [weighed, unitHours, soldUnits, List.map_cons, List.sum_cons, add_assoc]

/-- **One sale.** Both consume the same, and their lots still agree if no shrunk lot was used up. -/
theorem weigh_eq (gain : ℚ → ℚ) (quantity fee filledAt : ℚ) {book : List HeldLot}
    {lots : List Lot} (halign : Aligned rows book lots) (hpos : Fifo.Positive lots)
    (hnodup : (lots.map Fifo.Lot.tag).Nodup) {q : ℚ} (halike : soldAlike rows q lots = true)
    (acc : ℚ × ℚ) (cacc : Consumed) :
    (weigh filledAt q book acc).1 = weighed rows filledAt acc (consumedLots q lots) ∧
      ((∀ l ∈ lots, shrunk rows l.tag = true →
          l.tag ∈ (consume gain quantity fee q lots cacc).2.map Fifo.Lot.tag) →
        Aligned rows (weigh filledAt q book acc).2 (consume gain quantity fee q lots cacc).2) := by
  have hε : (0 : ℚ) < lotEpsilon := by norm_num [lotEpsilon]
  induction halign generalizing q acc cacc with
  | nil => exact ⟨(weighed_nil filledAt acc).symm, fun _ => .nil⟩
  | @cons held lot book lots hlot halign ih =>
      obtain ⟨hbought, hle, hsame⟩ := hlot
      have hl := hpos.head
      by_cases hq : q ≤ 0
      · -- nothing to sell
        rw [weigh_of_le _ (hq.trans hε.le), consumedLots_of_nonpos hq, consume_of_nonpos _ _ _ hq,
          weighed_nil]
        exact ⟨rfl, fun _ => .cons ⟨hbought, hle, hsame⟩ halign⟩
      simp only [soldAlike, Bool.or_eq_true, Bool.and_eq_true, decide_eq_true_eq,
        Bool.not_eq_true'] at halike
      obtain ⟨⟨hεq, hreach⟩, hrest⟩ := halike.resolve_left hq
      have hq0 : q > 0 := not_le.mp hq
      rw [List.map_cons, List.nodup_cons] at hnodup
      by_cases hlq : q ≤ lot.quantity
      · -- the sale ends with this lot
        have hheld : min held.quantity q = q := min_eq_right (hlq.trans hle)
        have hmin : min lot.quantity q = q := min_eq_right hlq
        have hzero : (0 : ℚ) ≤ lotEpsilon := hε.le
        have hweigh : (weigh filledAt q (held :: book) acc).1 =
            (acc.1 + q * (filledAt - held.filledAt) / 3600, acc.2 + q) := by
          simp only [weigh, if_pos hεq, hheld, sub_self, weigh_of_le filledAt hzero]
          split_ifs <;> rfl
        have hsold : consumedLots q (lot :: lots) = [(q, lot)] := by
          simp only [consumedLots, if_pos hq0, hmin, sub_self, consumedLots_of_nonpos le_rfl,
            ite_self]
        constructor
        · rw [hweigh, hsold, weighed_cons, weighed_nil, hbought]
        · intro hopen
          simp only [weigh, consume, if_pos hεq, if_pos hq0, hheld, hmin, sub_self,
            weigh_of_le filledAt hzero, consume_of_nonpos _ _ _ (le_refl (0 : ℚ))] at hopen ⊢
          by_cases hleft : lot.quantity - q ≤ lotEpsilon
          · -- a lot that is dropped was not shrunk, so both drop it
            rw [if_pos hleft] at hopen ⊢
            have hwhole : shrunk rows lot.tag = false := by
              by_contra hshrunk
              rw [Bool.not_eq_false] at hshrunk
              exact hnodup.1 (hopen lot List.mem_cons_self hshrunk)
            rw [hsame hwhole, if_pos hleft]
            exact halign
          · rw [if_neg hleft, if_neg (by linarith)]
            refine .cons ⟨hbought, by linarith, fun hwhole => ?_⟩ halign
            rw [hsame hwhole]
      · -- the lot goes whole, and the sale goes on
        have hlq : lot.quantity < q := not_le.mp hlq
        have hwhole : shrunk rows lot.tag = false :=
          hreach.resolve_right (not_le.mpr hlq)
        have hrest := hrest.resolve_left (not_lt.mpr hlq.le)
        have hmin : min lot.quantity q = lot.quantity := min_eq_left hlq.le
        have hzero : lot.quantity - lot.quantity ≤ lotEpsilon := by
          rw [sub_self]
          exact hε.le
        simp only [weigh, consumedLots, consume, if_pos hεq, if_pos hq0, hsame hwhole, hmin,
          if_pos hzero, weighed_cons, hbought]
        obtain ⟨hsold, hkept⟩ := ih hpos.tail hnodup.2 hrest _ _
        refine ⟨hsold, fun hopen => hkept fun l hlmem hshrunk => ?_⟩
        exact hopen l (List.mem_cons_of_mem _ hlmem) hshrunk

/-! ## The whole replay -/

/-- The two replays, in front of row `k`. -/
structure Agreeing (rows : List FilledOrder) (k : ℕ) (lots : Dict Symbol (List HeldLot))
    (t : PositionTracker) (s : Symbol) : Prop where
  positive : Fifo.Positive (t.lotsOf s)
  nodup : ((t.lotsOf s).map Fifo.Lot.tag).Nodup
  bought : ∀ l ∈ t.lotsOf s, ∃ j < k, l.tag = some j ∧ (rows[j]?).any (·.symbol = s) = true
  aligned : (∀ j < k, shrunkRow rows s j = true → some j ∈ (t.lotsOf s).map Fifo.Lot.tag) →
    Aligned rows (heldIn lots s) (t.lotsOf s)

theorem heldIn_set (lots : Dict Symbol (List HeldLot)) (s s' : Symbol) (book : List HeldLot) :
    heldIn (lots.set s book) s' = if s = s' then book else heldIn lots s' := by
  rw [heldIn, Dict.get?_set]
  by_cases h : s = s'
  · rw [if_pos h, if_pos h, Option.getD_some]
  · rw [if_neg h, if_neg h, heldIn]

/-- A row of another symbol. -/
theorem Agreeing.mono {k : ℕ} {lots lots' : Dict Symbol (List HeldLot)} {t t' : PositionTracker}
    {s : Symbol} (h : Agreeing rows k lots t s) (hlots : heldIn lots' s = heldIn lots s)
    (ht : t'.lotsOf s = t.lotsOf s) : Agreeing rows (k + 1) lots' t' s where
  positive := ht ▸ h.positive
  nodup := ht ▸ h.nodup
  bought l hl := by
    rw [ht] at hl
    obtain ⟨j, hj, hrest⟩ := h.bought l hl
    exact ⟨j, hj.trans (Nat.lt_succ_self k), hrest⟩
  aligned hopen := by
    rw [ht] at hopen ⊢
    rw [hlots]
    exact h.aligned fun j hj => hopen j (hj.trans (Nat.lt_succ_self k))

section Step

variable {k : ℕ} {lots : Dict Symbol (List HeldLot)} {t : PositionTracker} {order : FilledOrder}
  {filledAt : ℚ}

/-- What a purchase adds to the ledger. -/
def boughtLot (k : ℕ) (order : FilledOrder) : Lot where
  quantity := if 0 < order.feeBase ∧ order.feeBase < order.quantity
    then order.quantity - order.feeBase else order.quantity
  price := order.price
  fee := (if order.feeBase ≥ order.quantity ∧ order.quantity > 0 then 0 else order.feeBase) *
    order.price + order.feeQuote
  tag := some k

theorem boughtLot_quantity_pos (h : 0 < order.quantity) : 0 < (boughtLot k order).quantity := by
  unfold boughtLot
  dsimp only
  split_ifs with hfee
  · linarith [hfee.2]
  · exact h

theorem bookOrder_buy (hside : order.side = .buy) : bookOrder t k order =
    t.onBuy order.symbol (boughtLot k order).quantity order.price (boughtLot k order).fee
      (some k) := by
  rw [bookOrder, hside]
  rfl

theorem bookOrder_nothing (hq : order.quantity ≤ 0) (s : Symbol) :
    (bookOrder t k order).lotsOf s = t.lotsOf s := by
  cases hside : order.side with
  | buy =>
      have hnone : ¬ (0 < order.feeBase ∧ order.feeBase < order.quantity) := by
        rintro ⟨hpos, hlt⟩
        linarith
      rw [bookOrder_buy hside]
      unfold boughtLot PositionTracker.onBuy
      dsimp only
      rw [if_neg hnone, if_pos hq]
  | sell =>
      unfold bookOrder bookFill
      rw [hside]
      dsimp only
      split_ifs with hflat
      · rfl
      · rw [PositionTracker.lotsOf_onSell, consume_of_nonpos _ _ _ hq]
        dsimp only
        split_ifs with hs
        · rw [hs]
        · rfl

theorem ledgerAge_of_nothing (h : consumedBy t order = []) : ledgerAge rows t order = none := by
  rw [ledgerAge, h]
  exact if_neg fun hpos => lt_irrefl _ hpos.1

/-- A row without a quantity. -/
theorem step_nothing (hfilled : order.filledAt = some filledAt) (hq : order.quantity ≤ 0)
    (h : ∀ s, Agreeing rows k lots t s) :
    (∀ s, Agreeing rows (k + 1) (holdingStep lots order).1 (bookOrder t k order) s) ∧
      (holdingStep lots order).2 = ledgerAge rows t order := by
  have hstep : holdingStep lots order = (lots, none) := by
    simp only [holdingStep, hfilled, if_pos hq]
  have hnone : consumedBy t order = [] := by
    unfold consumedBy
    split
    · rfl
    · split_ifs
      · rfl
      · exact consumedLots_of_nonpos hq _
  rw [hstep, ledgerAge_of_nothing hnone]
  exact ⟨fun s => (h s).mono rfl (bookOrder_nothing hq s), rfl⟩

/-- The lot of a purchase agrees with the one of the ledger. -/
theorem sameLot_bought (hrow : rows[k]? = some order) (hfilled : order.filledAt = some filledAt)
    (hside : order.side = .buy) :
    SameLot rows ⟨order.quantity, filledAt⟩ (boughtLot k order) := by
  refine ⟨?_, ?_, fun hwhole => ?_⟩
  · simp [boughtLot, lotBoughtAt, hrow, hfilled]
  · unfold boughtLot
    dsimp only
    split_ifs with hfee
    · linarith [hfee.1]
    · exact le_rfl
  · have hfee : ¬ (0 < order.feeBase ∧ order.feeBase < order.quantity) := by
      simpa [shrunk, boughtLot, hrow, FilledOrder.shrinks, hside] using hwhole
    unfold boughtLot
    dsimp only
    rw [if_neg hfee]

theorem Agreeing.buy {lots' : Dict Symbol (List HeldLot)} {t' : PositionTracker}
    (h : Agreeing rows k lots t order.symbol) (hrow : rows[k]? = some order)
    (hfilled : order.filledAt = some filledAt) (hq : 0 < order.quantity)
    (hside : order.side = .buy)
    (ht : t'.lotsOf order.symbol = t.lotsOf order.symbol ++ [boughtLot k order])
    (hlots : heldIn lots' order.symbol =
      heldIn lots order.symbol ++ [⟨order.quantity, filledAt⟩]) :
    Agreeing rows (k + 1) lots' t' order.symbol where
  positive := by
    rw [ht]
    exact h.positive.append (Fifo.Positive.cons (boughtLot_quantity_pos hq) Fifo.Positive.nil)
  nodup := by
    have hfresh : some k ∉ (t.lotsOf order.symbol).map Fifo.Lot.tag := by
      intro hmem
      obtain ⟨l, hl, htag⟩ := List.mem_map.mp hmem
      obtain ⟨j, hj, htag', -⟩ := h.bought l hl
      have := Option.some.inj (htag.symm.trans htag')
      omega
    rw [ht, List.map_append]
    exact h.nodup.append (List.nodup_singleton _) (by simpa [boughtLot] using hfresh)
  bought l hl := by
    rw [ht] at hl
    rcases List.mem_append.mp hl with hl | hl
    · obtain ⟨j, hj, hrest⟩ := h.bought l hl
      exact ⟨j, hj.trans (Nat.lt_succ_self k), hrest⟩
    · rw [List.mem_singleton.mp hl]
      exact ⟨k, Nat.lt_succ_self k, rfl, by simp [hrow]⟩
  aligned hopen := by
    rw [ht] at hopen ⊢
    rw [hlots]
    apply List.rel_append _ (.cons (sameLot_bought hrow hfilled hside) .nil)
    apply h.aligned
    intro j hj hshrunk
    have hmem := hopen j (hj.trans (Nat.lt_succ_self k)) hshrunk
    rw [List.map_append, List.mem_append] at hmem
    refine hmem.resolve_right fun hnew => ?_
    have hjk : j = k := Option.some.inj (List.mem_singleton.mp hnew)
    omega

/-- A purchase is a lot on either side. -/
theorem step_buy (hrow : rows[k]? = some order) (hfilled : order.filledAt = some filledAt)
    (hq : 0 < order.quantity) (hside : order.side = .buy) (h : ∀ s, Agreeing rows k lots t s) :
    (∀ s, Agreeing rows (k + 1) (holdingStep lots order).1 (bookOrder t k order) s) ∧
      (holdingStep lots order).2 = ledgerAge rows t order := by
  have hstep : holdingStep lots order =
      (lots.set order.symbol (heldIn lots order.symbol ++ [⟨order.quantity, filledAt⟩]), none) := by
    simp only [holdingStep, hfilled, if_neg (not_le.mpr hq), hside]
  have hnone : consumedBy t order = [] := by rw [consumedBy, hside]
  rw [hstep, ledgerAge_of_nothing hnone]
  refine ⟨fun s => ?_, rfl⟩
  have hlots := PositionTracker.lotsOf_onBuy t order.symbol s _ order.price (boughtLot k order).fee
    (some k) (@boughtLot_quantity_pos k order hq)
  rw [← bookOrder_buy hside] at hlots
  by_cases hs : order.symbol = s
  · subst hs
    rw [if_pos rfl] at hlots
    exact (h order.symbol).buy hrow hfilled hq hside hlots (by rw [heldIn_set, if_pos rfl])
  · rw [if_neg hs] at hlots
    exact (h s).mono (by rw [heldIn_set, if_neg hs]) hlots

/-- What a sale leaves in the ledger, also where nothing is tracked. -/
theorem lotsOf_bookOrder_sell (hside : order.side = .sell)
    (hpos : Fifo.Positive (t.lotsOf order.symbol)) (s : Symbol) :
    (bookOrder t k order).lotsOf s =
      if order.symbol = s then
        (consume (fun entry => order.price - entry) order.quantity
          (order.feeQuote + order.feeBase * order.price) order.quantity (t.lotsOf order.symbol)
          Consumed.start).2
      else t.lotsOf s := by
  unfold bookOrder bookFill
  rw [hside]
  dsimp only
  by_cases hflat : t.quantity order.symbol ≤ 0
  · have hnil : t.lotsOf order.symbol = [] := Fifo.eq_nil_of_total_nonpos hpos hflat
    rw [if_pos hflat, hnil]
    dsimp only [consume]
    split_ifs with hs
    · rw [← hs, hnil]
    · rfl
  · rw [if_neg hflat]
    exact PositionTracker.lotsOf_onSell t order.symbol s _ _ _

theorem consumedBy_sell (hside : order.side = .sell)
    (hpos : Fifo.Positive (t.lotsOf order.symbol)) :
    consumedBy t order = consumedLots order.quantity (t.lotsOf order.symbol) := by
  rw [consumedBy, hside]
  dsimp only
  split_ifs with hflat
  · rw [Fifo.eq_nil_of_total_nonpos hpos hflat]
    rfl
  · rfl

/-- The lots of a symbol after a sale of it. -/
theorem Agreeing.sell {lots' : Dict Symbol (List HeldLot)} {t' : PositionTracker}
    (h : Agreeing rows k lots t order.symbol) {gain : ℚ → ℚ} {fee : ℚ} {book : List HeldLot}
    (ht : t'.lotsOf order.symbol =
      (consume gain order.quantity fee order.quantity (t.lotsOf order.symbol) Consumed.start).2)
    (hlots : heldIn lots' order.symbol = book)
    (halign : (∀ l ∈ t.lotsOf order.symbol, shrunk rows l.tag = true →
        l.tag ∈ (t'.lotsOf order.symbol).map Fifo.Lot.tag) →
      Aligned rows book (t'.lotsOf order.symbol)) :
    Agreeing rows (k + 1) lots' t' order.symbol := by
  have hsublist : ((t'.lotsOf order.symbol).map Fifo.Lot.tag).Sublist
      ((t.lotsOf order.symbol).map Fifo.Lot.tag) := by
    rw [ht]
    exact tags_consume _ _ _ _ _ _
  refine ⟨?_, h.nodup.sublist hsublist, fun l hl => ?_, fun hopen => ?_⟩
  · rw [ht]
    exact positive_consume _ _ _ h.positive _ _
  · obtain ⟨l', hl', htag⟩ := List.mem_map.mp (hsublist.subset (List.mem_map_of_mem hl))
    obtain ⟨j, hj, hrest⟩ := h.bought l' hl'
    exact ⟨j, hj.trans (Nat.lt_succ_self k), htag ▸ hrest⟩
  · rw [hlots]
    apply halign
    intro l hl hshrunk
    obtain ⟨j, hj, htag, hsymbol⟩ := h.bought l hl
    rw [htag] at hshrunk ⊢
    apply hopen j (hj.trans (Nat.lt_succ_self k))
    cases hrow : rows[j]? with
    | none =>
        rw [hrow] at hsymbol
        cases hsymbol
    | some b =>
        rw [hrow] at hsymbol
        simp only [shrunk, hrow] at hshrunk
        simp only [Option.any_some] at hsymbol hshrunk
        simp only [shrunkRow, hrow, Option.any_some, Bool.and_eq_true]
        exact ⟨hsymbol, hshrunk⟩

/-- A sale of which the condition holds consumes the same on either side. -/
theorem step_sell (hfilled : order.filledAt = some filledAt)
    (hq : 0 < order.quantity) (hside : order.side = .sell) (halike : AlikeAt rows k t order)
    (h : ∀ s, Agreeing rows k lots t s) :
    (∀ s, Agreeing rows (k + 1) (holdingStep lots order).1 (bookOrder t k order) s) ∧
      (holdingStep lots order).2 = ledgerAge rows t order := by
  obtain ⟨hopen, hsold⟩ := halike hside hq
  have hs := h order.symbol
  have ht := @lotsOf_bookOrder_sell k t order hside hs.positive
  obtain ⟨hsame, hkept⟩ := weigh_eq (fun entry => order.price - entry) order.quantity
    (order.feeQuote + order.feeBase * order.price) filledAt (hs.aligned hopen) hs.positive hs.nodup
    hsold (0, 0) Consumed.start
  have hstep : holdingStep lots order =
      (lots.set order.symbol (weigh filledAt order.quantity (heldIn lots order.symbol) (0, 0)).2,
        ledgerAge rows t order) := by
    simp only [holdingStep, hfilled, if_neg (not_le.mpr hq), hside, hsame, ledgerAge,
      consumedBy_sell hside hs.positive, weighed, zero_add, Option.getD_some]
  rw [hstep]
  refine ⟨fun s => ?_, rfl⟩
  by_cases hs' : order.symbol = s
  · subst hs'
    apply hs.sell ((ht order.symbol).trans (if_pos rfl))
      ((heldIn_set _ _ _ _).trans (if_pos rfl))
    rw [(ht order.symbol).trans (if_pos rfl)]
    exact hkept
  · exact (h s).mono ((heldIn_set _ _ _ _).trans (if_neg hs')) ((ht s).trans (if_neg hs'))

/-- One row of which the condition holds. -/
theorem step_alike (hrow : rows[k]? = some order) (hfilled : order.filledAt.isSome)
    (halike : AlikeAt rows k t order) (h : ∀ s, Agreeing rows k lots t s) :
    (∀ s, Agreeing rows (k + 1) (holdingStep lots order).1 (bookOrder t k order) s) ∧
      (holdingStep lots order).2 = ledgerAge rows t order := by
  obtain ⟨filledAt, hfilled⟩ := Option.isSome_iff_exists.mp hfilled
  by_cases hq : order.quantity ≤ 0
  · exact step_nothing hfilled hq h
  · cases hside : order.side with
    | buy => exact step_buy hrow hfilled (not_le.mp hq) hside h
    | sell => exact step_sell hfilled (not_le.mp hq) hside halike h

end Step

theorem agreeing_start (s : Symbol) : Agreeing rows 0 Dict.empty .empty s where
  positive := Fifo.Positive.nil
  nodup := List.nodup_nil
  bought l hl := by cases hl
  aligned _ := .nil

/-- The rows that are left, behind those that were replayed. -/
theorem hoursFrom_eq {orders : List FilledOrder} {k : ℕ} {lots : Dict Symbol (List HeldLot)}
    {t : PositionTracker} (hrows : rows.drop k = orders)
    (hfilled : ∀ order ∈ rows, order.filledAt.isSome) (halike : AlikeFrom rows k t orders)
    (h : ∀ s, Agreeing rows k lots t s) :
    holdingHoursFrom lots orders = ledgerHoursFrom rows k t orders := by
  induction orders generalizing k lots t with
  | nil => rfl
  | cons order orders ih =>
      obtain ⟨hat, hlater⟩ := halike
      have hrow : rows[k]? = some order := by
        rw [← List.head?_drop, hrows]
        rfl
      have hmem : order ∈ rows := List.mem_of_getElem? hrow
      obtain ⟨hnext, hreport⟩ := step_alike hrow (hfilled order hmem) hat h
      have hrest : rows.drop (k + 1) = orders := by
        rw [← List.drop_drop, hrows]
        rfl
      rw [holdingHoursFrom, ledgerHoursFrom, hreport, ih hrest hlater hnext]

/-! ## Histories without such fees -/

theorem shrunk_of_whole (hwhole : ∀ order ∈ rows, order.shrinks = false) (tag : Option DecisionId) :
    shrunk rows tag = false := by
  cases tag with
  | none => rfl
  | some k =>
      cases hrow : rows[k]? with
      | none => simp [shrunk, hrow]
      | some order => simpa [shrunk, hrow] using hwhole order (List.mem_of_getElem? hrow)

theorem soldAlike_of_grid {u : ℚ} (hu : lotEpsilon < u)
    (hwhole : ∀ order ∈ rows, order.shrinks = false) {ls : List Lot}
    (hgrid : ∀ l ∈ ls, l.quantity ∈ grid u) {q : ℚ} (hq : q ∈ grid u) :
    soldAlike rows q ls = true := by
  have hε : (0 : ℚ) ≤ lotEpsilon := by norm_num [lotEpsilon]
  induction ls generalizing q with
  | nil => rfl
  | cons l ls ih =>
      simp only [soldAlike, Bool.or_eq_true, Bool.and_eq_true, decide_eq_true_eq,
        shrunk_of_whole hwhole, Bool.not_false, true_or, and_true]
      by_cases hq0 : q ≤ 0
      · exact Or.inl hq0
      · right
        constructor
        · rw [← not_le, le_iff_nonpos_of_mem_grid hε hu hq]
          exact hq0
        · exact Or.inr (ih (fun m hm => hgrid m (List.mem_cons_of_mem _ hm))
            (AddSubgroup.sub_mem _ hq (hgrid l List.mem_cons_self)))

/-- In whole units, and without a fee in the base currency, the two never part. -/
theorem alikeFrom_of_whole {u : ℚ} (hu : lotEpsilon < u)
    (hwhole : ∀ order ∈ rows, order.shrinks = false) {orders : List FilledOrder} (k : ℕ)
    {t : PositionTracker} (ht : t.OnGrid u)
    (horders : ∀ order ∈ orders, order.shrinks = false ∧ 0 ≤ order.quantity ∧
      order.quantity ∈ grid u) :
    AlikeFrom rows k t orders := by
  induction orders generalizing k t with
  | nil => trivial
  | cons order orders ih =>
      obtain ⟨⟨hnot, hq, hgrid⟩, hlater⟩ := List.forall_mem_cons.mp horders
      refine ⟨fun hside _ => ⟨fun j _ hj => ?_, soldAlike_of_grid hu hwhole (ht _).2 hgrid⟩,
        ih (k + 1) ?_ hlater⟩
      · -- no row has shrunk a lot
        cases hrow : rows[j]? with
        | none => simp [shrunkRow, hrow] at hj
        | some b => simp [shrunkRow, hrow, hwhole b (List.mem_of_getElem? hrow)] at hj
      · cases hside : order.side with
        | buy =>
            have hfee : ¬ (0 < order.feeBase ∧ order.feeBase < order.quantity) := by
              simpa [FilledOrder.shrinks, hside] using hnot
            rw [bookOrder_buy hside]
            have hbooked : (boughtLot k order).quantity = order.quantity := if_neg hfee
            rw [hbooked]
            exact ht.onBuy _ hq hgrid _ _ _
        | sell =>
            unfold bookOrder bookFill
            rw [hside]
            dsimp only
            split_ifs
            · exact ht
            · exact ht.onSell hu _ hq hgrid _ _

/-- **Reported holding times are those of the ledger** in every history in which no sale goes past a
lot that a base-currency fee has shrunk, and none asks a lot for at most `1e-12`. -/
theorem holding_hours_agree (rows : List FilledOrder)
    (hfilled : ∀ order ∈ rows, order.filledAt.isSome) (halike : AlikeFrom rows 0 .empty rows) :
    holdingHours rows = ledgerHours rows :=
  hoursFrom_eq rfl hfilled halike agreeing_start

/-- A purchase or sale of one symbol at 100, after so many hours. -/
def filledRow (side : OrderSide) (quantity feeBase hours : ℚ) : FilledOrder where
  symbol := "BTC/USDT"
  side := side
  quantity := quantity
  price := 100
  feeBase := feeBase
  feeQuote := 0
  filledAt := some (hours * 3600)
  realizedPnl := if side = .sell then some 0 else none

/-- Sales into a shrunk lot, but not past it. -/
theorem holding_hours_agree_shrunk :
    let rows := [filledRow .buy 2 0 0, filledRow .buy 1 (1 / 10) 1, filledRow .sell 1 0 2,
      filledRow .sell (3 / 2) 0 3]
    holdingHours rows = ledgerHours rows ∧ ledgerHours rows = [2, 8 / 3] :=
  ⟨holding_hours_agree _ (by decide) (by decide +kernel), by decide +kernel⟩

/-- A lot that was sold with its fee left over: the next sale is weighed with the fee. -/
theorem holding_hours_part :
    let rows := [filledRow .buy 1 (1 / 10) 0, filledRow .sell (9 / 10) 0 1, filledRow .buy 1 0 1,
      filledRow .sell 1 0 2]
    holdingHours rows = [1, 11 / 10] ∧ ledgerHours rows = [1, 1] := by
  decide +kernel

end SmartyTrader
