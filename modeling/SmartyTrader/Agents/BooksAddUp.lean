import SmartyTrader.Agents.SleeveAgent

set_option autoImplicit false

/-! # The books of the sleeves add up

The equity of a sleeve is computed from its share of the base, the stored realized PnL and the
positions it owns, and the value of the agent from its cash and the marks. Both follow the ledger:
what the open lots cost and what has been realized since the allocation move together
(`placed_sound`), every realized PnL ends in a row of a configured sleeve that is dated after the
allocation (`booked_step`), and every position has one owner. What is left is the fees of the open
lots, which the ledger counts as a cost and the book does not (`books_add_up`).
-/

namespace SmartyTrader

open Lib

/-! ## What the ledger holds -/

namespace PositionTracker

/-- The prices paid for the open lots. -/
def openPrincipal (t : PositionTracker) : ℚ :=
  Dict.sumBy (fun _ ls => Fifo.measure (fun l : Lot => l.quantity * l.price) ls) t.lots

/-- The buy fees that are still on the open lots. -/
def openFees (t : PositionTracker) : ℚ :=
  Dict.sumBy (fun _ ls => Fifo.measure (fun l : Lot => l.fee) ls) t.lots

theorem openCost_eq (t : PositionTracker) : t.openCost = t.openPrincipal + t.openFees := by
  unfold openCost openPrincipal openFees
  rw [← Dict.sumBy_add]
  congr 1
  funext _ ls
  exact Fifo.measure_add _ _ ls

end PositionTracker

namespace PaperExecutor

/-- What the book paid for a symbol. -/
def basis (e : PaperExecutor) (s : Symbol) : ℚ :=
  Dict.share (fun _ p => p.quantity * p.avgEntryPrice) e.positions s

/-- What the ledger paid for it. -/
def principal (e : PaperExecutor) (s : Symbol) : ℚ :=
  Fifo.measure (fun l : Lot => l.quantity * l.price) (e.tracker.lotsOf s)

/-- Book and ledger agree on quantities and on prices, and every position is long. -/
structure Sound (e : PaperExecutor) : Prop where
  level : e.Level
  long : e.LongBook
  basis_eq : ∀ s, e.basis s = e.principal s

theorem sound_create (cash : ℚ) (costs : CostModel) : (create cash costs).Sound where
  level := (reconciled_create cash costs).level
  long := longBook_create cash costs
  basis_eq _ := rfl

theorem Sound.of_eq {e e' : PaperExecutor} (h : e.Sound) (hpositions : e'.positions = e.positions)
    (htracker : e'.tracker = e.tracker) : e'.Sound where
  level := by
    refine ⟨htracker ▸ h.level.onGrid, fun s => ?_⟩
    have hq := h.level.quantity_eq s
    unfold bookQuantity at hq ⊢
    rw [htracker, hpositions, hq]
  long := fun s pos hpos => h.long s pos (hpositions ▸ hpos)
  basis_eq := by
    intro s
    have hb := h.basis_eq s
    unfold basis principal at hb ⊢
    rw [htracker, hpositions, hb]

theorem Sound.updatePrice {e : PaperExecutor} (h : e.Sound) (s : Symbol) (price : ℚ) :
    (e.updatePrice s price).Sound where
  level := h.level.updatePrice s price
  long := h.long.updatePrice s price
  basis_eq := by
    intro s'
    have hprincipal : (e.updatePrice s price).principal s' = e.principal s' := by
      unfold principal
      rw [tracker_updatePrice]
    rw [hprincipal, ← h.basis_eq]
    unfold PaperExecutor.updatePrice basis Dict.share
    cases hp : e.positions.get? s with
    | none => rfl
    | some pos =>
        -- a mark changes neither the size nor the entry price
        dsimp only
        rw [Dict.get?_set]
        by_cases hs : s = s'
        · rw [if_pos hs, ← hs, hp]
        · rw [if_neg hs]

theorem bookValue_updatePrice (e : PaperExecutor) (s : Symbol) (price : ℚ) :
    (e.updatePrice s price).bookValue = e.bookValue := by
  unfold bookValue
  rw [tracker_updatePrice]
  unfold updatePrice
  cases e.positions.get? s <;> rfl

theorem Sound.bought {e : PaperExecutor} (h : e.Sound) {req : OrderRequest} (price : ℚ)
    (hq : 0 ≤ req.quantity) (hg : req.quantity ∈ grid sizeUnit) : (e.bought req price).Sound where
  level := h.level.bought price hq hg
  long := h.long.bought req price
  basis_eq := by
    intro s
    have hprincipal : (e.bought req price).principal s
        = if req.symbol = s then e.principal s + req.quantity * price else e.principal s := by
      show Fifo.measure _ ((e.tracker.onBuy req.symbol req.quantity price _ req.decisionId).lotsOf s)
        = _
      rcases hq.eq_or_lt with h0 | hpos
      · rw [← h0, PositionTracker.onBuy_zero, zero_mul, add_zero, ite_self]
        rfl
      · rw [PositionTracker.lotsOf_onBuy _ _ _ _ _ _ _ hpos]
        by_cases hs : req.symbol = s
        · rw [if_pos hs, if_pos hs, Fifo.measure_append, Fifo.measure_cons, Fifo.measure_nil,
            add_zero, hs]
          rfl
        · rw [if_neg hs, if_neg hs]
          rfl
    have hbasis : (e.bought req price).basis s
        = if req.symbol = s then e.basis s + req.quantity * price else e.basis s := by
      unfold basis Dict.share PaperExecutor.bought
      dsimp only
      rw [Dict.get?_set]
      by_cases hs : req.symbol = s
      · rw [if_pos hs, if_pos hs, ← hs]
        unfold positionAfter
        cases hpos : e.positions.get? req.symbol with
        | none => simp [openPosition]
        | some pos =>
            simp only [mergePosition]
            by_cases hz : pos.quantity + req.quantity = 0
            · -- nothing is held and nothing bought
              have hheld : 0 ≤ pos.quantity := by
                have : e.tracker.quantity req.symbol = pos.quantity := by
                  rw [h.level.quantity_eq, bookQuantity, hpos]
                rw [← this]
                exact Fifo.total_nonneg (h.level.onGrid _).1
              have hnone : req.quantity = 0 := by linarith
              have hempty : pos.quantity = 0 := by linarith
              rw [hz, hnone, hempty]
              ring
            · field_simp
      · rw [if_neg hs, if_neg hs]
    rw [hprincipal, hbasis, h.basis_eq]

/-- A sell of the whole position leaves nothing of it on either side. -/
theorem Sound.sold {e : PaperExecutor} (h : e.Sound) {req : OrderRequest} (price : ℚ)
    {pos : Position} (hq : 0 ≤ req.quantity) (hg : req.quantity ∈ grid sizeUnit)
    (hpos : e.positions.get? req.symbol = some pos) (hwhole : pos.quantity = req.quantity) :
    (e.sold req price pos).Sound where
  level := h.level.sold price hq hg hpos hwhole.ge
  long := h.long.sold price hpos
  basis_eq := by
    intro s
    have hε : (0 : ℚ) ≤ lotEpsilon := by norm_num [lotEpsilon]
    have hrest : pos.quantity - req.quantity ≤ lotEpsilon := by
      rw [hwhole, sub_self]
      exact hε
    have htotal : Fifo.total (e.tracker.lotsOf req.symbol) = req.quantity := by
      have := h.level.quantity_eq req.symbol
      rw [bookQuantity, hpos] at this
      exact this.trans hwhole
    have hprincipal : (e.sold req price pos).principal s
        = if req.symbol = s then 0 else e.principal s := by
      show Fifo.measure _ ((e.tracker.onSell req.symbol req.quantity price _).2.lotsOf s) = _
      rw [PositionTracker.lotsOf_onSell_grid lotEpsilon_lt_sizeUnit h.level.onGrid _ _ hq hg]
      by_cases hs : req.symbol = s
      · rw [if_pos hs, if_pos hs, Fifo.drop_of_total_le (h.level.onGrid _).1 htotal.le,
          Fifo.measure_nil]
      · rw [if_neg hs, if_neg hs]
        rfl
    have hbasis : (e.sold req price pos).basis s = if req.symbol = s then 0 else e.basis s := by
      unfold basis Dict.share PaperExecutor.sold
      simp only [if_pos hrest, Dict.get?_erase]
      by_cases hs : req.symbol = s
      · rw [if_pos hs, if_pos hs]
      · rw [if_neg hs, if_neg hs]
    rw [hprincipal, hbasis, h.basis_eq]

/-- The book paid what the ledger paid. -/
theorem Sound.sum_basis {e : PaperExecutor} (h : e.Sound) :
    (e.getPositions.map (fun p => p.quantity * p.avgEntryPrice)).sum = e.tracker.openPrincipal := by
  have hsum : (e.getPositions.map (fun p => p.quantity * p.avgEntryPrice)).sum
      = Dict.sumBy (fun _ p => p.quantity * p.avgEntryPrice) e.positions := by
    unfold getPositions Dict.values Dict.sumBy
    rw [List.map_map]
    rfl
  rw [hsum]
  refine Dict.sumBy_eq_of_share fun s => ?_
  rw [share_lots]
  exact h.basis_eq s

end PaperExecutor

/-! ## One order -/

/-- What an order can do to a sound executor: nothing, a buy, or the sale of a whole position. What
it realizes is what the book value gains. -/
theorem placed_sound {e : PaperExecutor} (h : e.Sound) {req : OrderRequest}
    (hsized : 0 ≤ req.quantity ∧ req.quantity ∈ grid sizeUnit)
    (hwhole : req.side = .sell → ClosesWhole e req) (stamp : Stamp) :
    let r := paperExecutor.placeOrder e req stamp
    r.2.Sound ∧
      r.2.bookValue = e.bookValue + (r.1.toOption.bind OrderResult.closing).getD 0 ∧
      ∀ order, r.1 = .ok order → (order.status = .filled → order.filledAt = some stamp.now) ∧
        (order.closing.isSome → req.side = .sell) := by
  rw [paperExecutor_placeOrder]
  rcases e.placeOrder_cases req ("paper-" ++ stamp.shortId) stamp.now with
    ⟨r, e', hr, he, hcash, -, hpos, htr⟩ | ⟨price, -, h0, -, he⟩ | ⟨price, hside, -, he⟩ |
    ⟨price, pos, hside, hpos, -, he⟩
  · rw [he]
    have hclosing : r.closing = none := if_neg (by rw [hr]; decide)
    refine ⟨h.of_eq hpos htr, ?_, fun order ho => ?_⟩
    · simp [Except.toOption, hclosing, PaperExecutor.bookValue, hcash, htr]
    · obtain rfl := Except.ok.inj ho
      refine ⟨fun hf => ?_, fun hc => ?_⟩
      · rw [hr] at hf
        cases hf
      · rw [hclosing] at hc
        cases hc
  · -- the averaging can only fail where nothing is held and nothing bought
    have hheld : 0 ≤ e.bookQuantity req.symbol := by
      rw [← h.level.quantity_eq]
      exact Fifo.total_nonneg (h.level.onGrid _).1
    have hzero : req.quantity = 0 := by linarith [hsized.1]
    rw [he]
    refine ⟨h.of_eq rfl rfl, ?_, fun order ho => by cases ho⟩
    simp [Except.toOption, PaperExecutor.bookValue, hzero, CostModel.totalFee_of_nonpos]
  · rw [he]
    have hclosing : (PaperExecutor.filled ("paper-" ++ stamp.shortId) req price stamp.now).closing
        = none := rfl
    have hvalue := PaperExecutor.bookValue_bought e req price hsized.1
    refine ⟨(h.bought price hsized.1 hsized.2).of_eq rfl rfl, ?_,
      fun order ho => ?_⟩
    · show (e.bought req price).bookValue = _
      simp [Except.toOption, hclosing, hvalue]
    · obtain rfl := Except.ok.inj ho
      refine ⟨fun _ => rfl, fun hc => ?_⟩
      rw [hclosing] at hc
      cases hc
  · obtain ⟨hq, pos', hpos', hquantity⟩ := hwhole hside
    obtain rfl : pos = pos' := Option.some.inj (hpos.symm.trans hpos')
    rw [he]
    have hclosing : (e.closed ("paper-" ++ stamp.shortId) req price stamp.now).closing
        = some (e.realize req price).1.netPnl := rfl
    have hvalue := PaperExecutor.bookValue_sold h.level price hq hsized.2 hpos hquantity.ge
    refine ⟨(h.sold price hsized.1 hsized.2 hpos hquantity).of_eq rfl rfl, ?_,
      fun order ho => ?_⟩
    · show (e.sold req price pos).bookValue = _
      simp [Except.toOption, hclosing, hvalue]
    · obtain rfl := Except.ok.inj ho
      exact ⟨fun _ => rfl, fun _ => hside⟩

/-! ## The steps of a paper agent -/

/-- The executor is sound, order ids are unique, and what waits for a row and was filled is dated by
the clock, for the owner of what it closed. -/
structure Kept (owner : Option String → Prop) (clock : Time → Prop) (x : PaperAgent) : Prop where
  sound : x.executor.Sound
  ids : x.ids.Nodup
  dated : ∀ r ∈ x.unwritten, r.1.status = .filled → ∃ time, r.1.filledAt = some time ∧ clock time
  owned : ∀ r ∈ x.unwritten, r.1.closing.isSome → owner r.2.2

section Steps

variable {fresh : PaperExecutor} {decided : DecisionId → Prop} {owner : Option String → Prop}
  {clock : Time → Prop} {s : PaperStep} {x : PaperAgent}

/-- The result that a placement adds to those that wait. -/
theorem placed_waiting (hsound : x.executor.Sound) {req : OrderRequest} {stamp : Stamp}
    {strategy : Option String} (h : Placement decided owner clock req stamp strategy x)
    {r : OrderResult × Option DecisionId × Option String}
    (hr : r ∈ ((paperExecutor.placeOrder x.executor req stamp).1.toOption.map
      (fun r => (r, req.decisionId, strategy))).toList) :
    (r.1.status = .filled → ∃ time, r.1.filledAt = some time ∧ clock time) ∧
      (r.1.closing.isSome → owner r.2.2) := by
  obtain ⟨-, -, hresult⟩ := placed_sound hsound h.sized (fun hs => (h.sell hs).1) stamp
  obtain ⟨order, horder, rfl⟩ := Option.map_eq_some_iff.mp (Option.mem_toList.mp hr)
  have hok : (paperExecutor.placeOrder x.executor req stamp).1 = .ok order := by
    cases hplace : (paperExecutor.placeOrder x.executor req stamp).1 with
    | error err =>
        rw [hplace] at horder
        cases horder
    | ok o =>
        rw [hplace] at horder
        rw [Option.some.inj horder]
  obtain ⟨hfilled, hclosing⟩ := hresult order hok
  exact ⟨fun hs => ⟨stamp.now, hfilled hs, h.filledAt⟩, fun hc => (h.sell (hclosing hc)).2⟩

/-- **One step** keeps the executor sound. -/
theorem kept_step (h : Kept owner clock x) (hs : PaperStep.Orderly decided owner clock s x) :
    Kept owner clock (x.step fresh s) := by
  have hids := ids_step fresh h.ids hs
  rcases orderly_cases fresh hs h.ids with ⟨symbol, price, he⟩ |
    ⟨req, stamp, strategy, hplaced, he⟩ | ⟨r, rest, now, hu, he⟩ | ⟨hexecutor, -, hu⟩
  · rw [he] at hids ⊢
    exact ⟨h.sound.updatePrice symbol price, hids, h.dated, h.owned⟩
  · obtain ⟨hsound, -, -⟩ := placed_sound h.sound hplaced.sized (fun hs => (hplaced.sell hs).1) stamp
    have hwaiting := fun r hr => placed_waiting (r := r) h.sound hplaced hr
    rw [he] at hids ⊢
    refine ⟨hsound, hids, fun r hr => ?_, fun r hr => ?_⟩
    · rcases List.mem_append.mp hr with hold | hnew
      · exact h.dated r hold
      · exact (hwaiting r hnew).1
    · rcases List.mem_append.mp hr with hold | hnew
      · exact h.owned r hold
      · exact (hwaiting r hnew).2
  · rw [he] at hids ⊢
    exact ⟨h.sound, hids, fun r' hr' => h.dated r' (hu ▸ List.mem_cons_of_mem _ hr'),
      fun r' hr' => h.owned r' (hu ▸ List.mem_cons_of_mem _ hr')⟩
  · exact ⟨hexecutor ▸ h.sound, hids, hu ▸ h.dated, hu ▸ h.owned⟩

/-- The rows of filled orders are dated by the clock. -/
def DatedRows (clock : Time → Prop) (orders : OrderTable) : Prop :=
  ∀ row ∈ orders, ∀ time, row.filledAt = some time → clock time

theorem datedRows_step (h : Kept owner clock x) (hrows : DatedRows clock x.orders)
    (hs : PaperStep.Orderly decided owner clock s x) : DatedRows clock (x.step fresh s).orders := by
  rcases orderly_cases fresh hs h.ids with ⟨symbol, price, he⟩ |
    ⟨req, stamp, strategy, -, he⟩ | ⟨r, rest, now, hu, he⟩ | ⟨-, horders, -⟩
  · rw [he]
    exact hrows
  · rw [he]
    exact hrows
  · rw [he]
    intro row hrow time htime
    rcases List.mem_append.mp hrow with hold | hnew
    · exact hrows row hold time htime
    · obtain rfl := List.mem_singleton.mp hnew
      unfold BaseAgent.rowOf at htime
      split_ifs at htime with hfilled
      obtain ⟨time', htime', hclock⟩ := h.dated r (hu ▸ List.mem_cons_self) hfilled
      rw [htime'] at htime
      exact Option.some.inj htime ▸ hclock
  · rw [horders]
    exact hrows

end Steps

/-! ## What the sleeves realized -/

/-- A configured sleeve. -/
def IsSleeve (names : Finset String) (strategy : Option String) : Prop :=
  ∃ name ∈ names, strategy = some name

/-- What the sleeves realized at or after a time. -/
def realizedBy (names : Finset String) (orders : OrderTable) (since : Time) : ℚ :=
  ∑ name ∈ names, OrderTable.strategyRealizedPnl orders name since

theorem strategyRealizedPnl_append (orders : OrderTable) (row : OrderRow) (name : String)
    (since : Time) :
    OrderTable.strategyRealizedPnl (orders ++ [row]) name since
      = OrderTable.strategyRealizedPnl orders name since
        + if row.status = .filled ∧ row.strategy = some name ∧
            row.filledAt.any (fun time => since ≤ time) then row.realizedPnl.getD 0 else 0 := by
  unfold OrderTable.strategyRealizedPnl
  rw [List.filter_append, List.filterMap_append, List.sum_append]
  congr 1
  split_ifs with hrow
  · rw [List.filter_cons_of_pos (by simpa using hrow)]
    cases hpnl : row.realizedPnl <;> simp [hpnl]
  · rw [List.filter_cons_of_neg (by simpa using hrow)]
    rfl

/-- Rows before the time do not count. -/
theorem realizedBy_of_older (names : Finset String) {orders : OrderTable} {since : Time}
    (h : DatedRows (· < since) orders) : realizedBy names orders since = 0 := by
  refine Finset.sum_eq_zero fun name _ => ?_
  have hnone : orders.filter (fun row => row.status = .filled ∧ row.strategy = some name ∧
      row.filledAt.any (fun time => since ≤ time)) = [] := by
    refine List.filter_eq_nil_iff.mpr fun row hrow hcount => ?_
    simp only [decide_eq_true_eq] at hcount
    cases htime : row.filledAt with
    | none => simp [htime] at hcount
    | some time =>
        have hlt : time < since := h row hrow time htime
        have hge : since ≤ time := by simpa [htime] using hcount.2.2
        exact absurd hge (not_le.mpr hlt)
  unfold OrderTable.strategyRealizedPnl
  rw [hnone]
  rfl

/-- The row of a result that was filled at or after the time counts once. -/
theorem realizedBy_row {names : Finset String} {since : Time}
    {r : OrderResult × Option DecisionId × Option String}
    (hdated : r.1.status = .filled → ∃ time, r.1.filledAt = some time ∧ since ≤ time)
    (howned : r.1.closing.isSome → IsSleeve names r.2.2) (orders : OrderTable) (now : Time) :
    realizedBy names (orders ++ [BaseAgent.rowOf r.1 r.2.1 r.2.2 now]) since
      = realizedBy names orders since + r.1.closing.getD 0 := by
  unfold realizedBy
  simp only [strategyRealizedPnl_append]
  rw [Finset.sum_add_distrib]
  congr 1
  have hpnl : (BaseAgent.rowOf r.1 r.2.1 r.2.2 now).realizedPnl = r.1.closing := rfl
  cases hclosing : r.1.closing with
  | none =>
      refine Finset.sum_eq_zero fun name _ => ?_
      rw [hpnl, hclosing, Option.getD_none, ite_self]
  | some pnl =>
      have hfilled : r.1.status = .filled := by
        unfold OrderResult.closing at hclosing
        split_ifs at hclosing with hf
        exact hf
      obtain ⟨time, htime, hle⟩ := hdated hfilled
      obtain ⟨owner, howner, hstrategy⟩ := howned (by rw [hclosing]; rfl)
      have hcounts : ∀ name, ((BaseAgent.rowOf r.1 r.2.1 r.2.2 now).status = .filled ∧
          (BaseAgent.rowOf r.1 r.2.1 r.2.2 now).strategy = some name ∧
          (BaseAgent.rowOf r.1 r.2.1 r.2.2 now).filledAt.any (fun time => since ≤ time))
          ↔ owner = name := by
        intro name
        simp [BaseAgent.rowOf, hfilled, htime, hle, hstrategy]
      simp only [hcounts, hpnl, hclosing, Option.getD_some]
      rw [Finset.sum_ite_eq, if_pos howner]

/-- The book value is what it was at some point, and what the sleeves realized since: in rows, or
in results that wait for theirs. -/
def Booked (names : Finset String) (since : Time) (value : ℚ) (x : PaperAgent) : Prop :=
  x.executor.bookValue = value + realizedBy names x.orders since
    + (x.unwritten.map (fun r => r.1.closing.getD 0)).sum

/-- **One step** moves the book value by what the sleeves realize. -/
theorem booked_step {fresh : PaperExecutor} {decided : DecisionId → Prop} {names : Finset String}
    {since : Time} {s : PaperStep} {x : PaperAgent} {value : ℚ}
    (h : Kept (IsSleeve names) (since ≤ ·) x) (hbooked : Booked names since value x)
    (hs : PaperStep.Orderly decided (IsSleeve names) (since ≤ ·) s x) :
    Booked names since value (x.step fresh s) := by
  unfold Booked at hbooked ⊢
  rcases orderly_cases fresh hs h.ids with ⟨symbol, price, he⟩ |
    ⟨req, stamp, strategy, hplaced, he⟩ | ⟨r, rest, now, hu, he⟩ | ⟨hexecutor, horders, hu⟩
  · rw [he, PaperExecutor.bookValue_updatePrice]
    exact hbooked
  · obtain ⟨-, hvalue, -⟩ := placed_sound h.sound hplaced.sized (fun hs => (hplaced.sell hs).1) stamp
    rw [he]
    dsimp only
    rw [hvalue, hbooked, List.map_append, List.sum_append]
    cases (paperExecutor.placeOrder x.executor req stamp).1.toOption with
    | none => simp
    | some order => simp [add_assoc]
  · have hrow := realizedBy_row (h.dated r (hu ▸ List.mem_cons_self))
      (h.owned r (hu ▸ List.mem_cons_self)) x.orders now
    rw [he]
    dsimp only
    rw [hrow, hbooked, hu, List.map_cons, List.sum_cons]
    ring
  · rw [hexecutor, horders, hu]
    exact hbooked

/-! ## Operations of the agent -/

/-- A cycle belongs to a configured sleeve, and nothing starts again. -/
def SleeveStep.OfSleeves (settings : SleevesSettings) : SleeveStep → Prop
  | .cycle c => IsSleeve settings.names.toFinset c.pipeline.strategy
  | .restart _ _ _ _ => False
  | _ => True

/-- An operation before the capital is split at `now`. -/
def BeforeSplit (settings : SleevesSettings) (now : Time) (s : SleeveStep) (a : SleeveAgent) :
    Prop :=
  s.OfSleeves settings ∧ (∀ time, s ≠ .allocate time) ∧ s.NewIds a ∧ s.FilledAt (· < now)

/-- An operation after it. -/
def AfterSplit (settings : SleevesSettings) (now : Time) (s : SleeveStep) (a : SleeveAgent) :
    Prop :=
  s.OfSleeves settings ∧ s.NewIds a ∧ s.FilledAt (now ≤ ·)

namespace SleeveAgent

/-- The sleeves are those of `settings`, under an allocation or none. -/
def HasBook (settings : SleevesSettings) (allocation : Option Allocation)
    (book : Option SleeveBook) : Prop :=
  ∃ b, book = some b ∧ b.settings = settings ∧ b.allocation = allocation

theorem keepsBook_hasBook (read : MetaRead) (settings : SleevesSettings)
    (allocation : Option Allocation) :
    KeepsBook read (fun _ => True) (HasBook settings allocation) where
  load := by
    rintro b ids - ⟨b', hb, hsettings, hallocation⟩
    obtain rfl := Option.some.inj hb
    obtain ⟨h1, h2⟩ := b.loadMeta_settings read ids
    exact ⟨_, rfl, h1.trans hsettings, h2.trans hallocation⟩
  engines := by
    rintro b engines ⟨b', hb, hsettings, hallocation⟩
    obtain rfl := Option.some.inj hb
    exact ⟨_, rfl, hsettings, hallocation⟩

section Operations

variable {fresh : PaperExecutor} {settings : SleevesSettings} {allocation : Option Allocation}
  {clock : Time → Prop} {s : SleeveStep} {a : SleeveAgent}

/-- An operation of the sleeves, as steps of a paper agent. -/
theorem traced_ofSleeves (hbook : HasBook settings allocation a.pipeline.book)
    (hkept : Kept (IsSleeve settings.names.toFinset) clock a.paper) (hs : s.OfSleeves settings)
    (hnew : s.NewIds a) (hclock : s.FilledAt clock) :
    Traced fresh (fun _ => True) (IsSleeve settings.names.toFinset) clock a.paper
      (a.step fresh s).paper := by
  obtain ⟨b, hb, hsettings, -⟩ := hbook
  have hrows : (a.orders.map OrderRow.orderId).Nodup := (List.nodup_append.mp hkept.ids).1
  have hrestart : s.isRestart = false := by
    cases s with
    | restart agentEngine settings engines now => exact hs.elim
    | _ => rfl
  refine traced_step s a hb hkept.sound.long hkept.sound.level hrows hrestart hnew hclock ?_ ?_
  · intro name hname
    exact ⟨name, List.mem_toFinset.mpr (hsettings ▸ hname), rfl⟩
  · rintro c rfl
    exact ⟨hs, fun _ => trivial⟩

/-- Before the split: nothing is allocated, and every row is older. -/
structure Unsplit (settings : SleevesSettings) (now : Time) (a : SleeveAgent) : Prop where
  book : HasBook settings none a.pipeline.book
  kept : Kept (IsSleeve settings.names.toFinset) (· < now) a.paper
  older : DatedRows (· < now) a.orders
  allocations : a.allocations = []

theorem unsplit_start (cash : ℚ) (costs : CostModel) (agentEngine : RiskEngine)
    (settings : SleevesSettings) (engines : Dict String RiskEngine) (now : Time) :
    Unsplit settings now (start (PaperExecutor.create cash costs) agentEngine settings engines) where
  book := ⟨_, rfl, rfl, rfl⟩
  kept := ⟨PaperExecutor.sound_create cash costs, List.nodup_nil, fun r hr => (by cases hr),
    fun r hr => (by cases hr)⟩
  older row hrow := by cases hrow
  allocations := rfl

theorem unsplit_step {now : Time} (h : Unsplit settings now a) (hs : BeforeSplit settings now s a) :
    Unsplit settings now (a.step fresh s) := by
  obtain ⟨hof, hallocate, hnew, hfilled⟩ := hs
  have hrestart : s.isRestart = false := by
    cases s with
    | restart agentEngine settings engines now => exact hof.elim
    | _ => rfl
  have htraced : Traced fresh _ _ _ a.paper _ := traced_ofSleeves h.book h.kept hof hnew hfilled
  obtain ⟨b, hb, -⟩ := h.book
  have hrows : Kept (IsSleeve settings.names.toFinset) (· < now) (a.step fresh s).paper ∧
      DatedRows (· < now) (a.step fresh s).paper.orders :=
    htraced.preserves (I := fun x => Kept _ (· < now) x ∧ DatedRows (· < now) x.orders)
      (fun _ _ hs hk => ⟨kept_step hk.1 hs, datedRows_step hk.1 hk.2 hs⟩) ⟨h.kept, h.older⟩
  exact ⟨step_keepsBook (keepsBook_hasBook _ settings none) (fun _ => ⟨trivial, trivial⟩) hb h.book
      hrestart hallocate, hrows.1, hrows.2,
    (step_allocations fresh a hrestart hallocate).trans h.allocations⟩

/-- The row of a split of the agent's capital. -/
def splitRow (settings : SleevesSettings) (now : Time) (a : SleeveAgent) : AllocationRow :=
  ⟨a.pipeline.executor.portfolio.costBasis, settings.weights, .initial, now⟩

/-- After the split of `a₀` at `now`: the allocation is its row, and the book value has moved by
what the sleeves realized since. -/
structure Split (settings : SleevesSettings) (now : Time) (a₀ a : SleeveAgent) : Prop where
  book : HasBook settings (some (a₀.splitRow settings now).allocation) a.pipeline.book
  kept : Kept (IsSleeve settings.names.toFinset) (now ≤ ·) a.paper
  booked : Booked settings.names.toFinset now a₀.pipeline.executor.bookValue a.paper
  allocations : a.allocations.getLatestAllocation = some (a₀.splitRow settings now)

theorem split_allocate {now : Time} (h : Unsplit settings now a) :
    Split settings now a (a.allocate now) := by
  obtain ⟨b, hb, rfl, -⟩ := h.book
  have hsplit : a.allocate now = { a with
      pipeline := { a.pipeline with
        book := some { b with allocation := some (a.splitRow b.settings now).allocation } }
      allocations := [a.splitRow b.settings now] } := by
    unfold allocate SleeveBook.ensureAllocation allocationRow
    rw [hb, h.allocations]
    rfl
  rw [hsplit]
  refine ⟨⟨_, rfl, rfl, rfl⟩, ⟨h.kept.sound, h.kept.ids, fun r hr => (by cases hr),
    fun r hr => (by cases hr)⟩, ?_, rfl⟩
  have hzero := realizedBy_of_older b.settings.names.toFinset h.older
  show a.pipeline.executor.bookValue = _ + realizedBy _ a.orders now + 0
  rw [hzero, add_zero, add_zero]

theorem split_step {now : Time} {a₀ : SleeveAgent} (h : Split settings now a₀ a)
    (hs : AfterSplit settings now s a) : Split settings now a₀ (a.step fresh s) := by
  obtain ⟨hof, hnew, hfilled⟩ := hs
  have htraced : Traced fresh _ _ _ a.paper _ := traced_ofSleeves h.book h.kept hof hnew hfilled
  have hrestart : s.isRestart = false := by
    cases s with
    | restart agentEngine settings engines now => exact hof.elim
    | _ => rfl
  obtain ⟨hkept, hbooked⟩ : Kept (IsSleeve settings.names.toFinset) (now ≤ ·)
      (a.step fresh s).paper ∧ Booked settings.names.toFinset now a₀.pipeline.executor.bookValue
        (a.step fresh s).paper :=
    htraced.preserves (I := fun x => Kept _ (now ≤ ·) x ∧ Booked _ now _ x)
      (fun _ _ hs hk => ⟨kept_step hk.1 hs, booked_step hk.1 hk.2 hs⟩) ⟨h.kept, h.booked⟩
  obtain ⟨b, hb, hsettings, hallocation⟩ := h.book
  by_cases hallocate : ∃ time, s = .allocate time
  · -- the weights are those of the latest row, which stays
    obtain ⟨time, rfl⟩ := hallocate
    have hsame : SameWeights (a₀.splitRow settings now).weights b.settings.weights := by
      rw [hsettings]
      exact fun name _ => rfl
    have hstep : a.allocate time = { a with
        pipeline := { a.pipeline with
          book := some { b with allocation := some (a₀.splitRow settings now).allocation } } } := by
      unfold allocate SleeveBook.ensureAllocation allocationRow
      rw [hb]
      dsimp only
      rw [h.allocations]
      dsimp only
      rw [if_pos hsame]
    refine ⟨?_, hkept, hbooked, ?_⟩
    · show HasBook _ _ (a.allocate time).pipeline.book
      rw [hstep]
      exact ⟨_, rfl, hsettings, rfl⟩
    · show (a.allocate time).allocations.getLatestAllocation = _
      rw [hstep]
      exact h.allocations
  · have hnot : ∀ time, s ≠ .allocate time := fun time he => hallocate ⟨time, he⟩
    refine ⟨step_keepsBook (keepsBook_hasBook _ settings _) (fun _ => ⟨trivial, trivial⟩) hb h.book
      hrestart hnot, hkept, hbooked, ?_⟩
    rw [step_allocations fresh a hrestart hnot]
    exact h.allocations

end Operations

/-! ## The sum -/

/-- The value of the book, from the marks and from what was paid. -/
theorem sum_pnl {e : PaperExecutor} (h : e.Sound) :
    ((e.getPositions.filter (fun q => q.quantity > 0)).map Position.pnl).sum
      = e.portfolio.totalValue - e.cash - e.tracker.openPrincipal := by
  have hfilter : ∀ qs : List Position, (∀ q ∈ qs, 0 ≤ q.quantity) →
      ((qs.filter (fun q => q.quantity > 0)).map Position.pnl).sum = (qs.map Position.pnl).sum := by
    intro qs hqs
    induction qs with
    | nil => rfl
    | cons q qs ih =>
        have hrest := ih fun p hp => hqs p (List.mem_cons_of_mem _ hp)
        by_cases hq : q.quantity > 0
        · rw [List.filter_cons_of_pos (by simpa using hq), List.map_cons, List.map_cons,
            List.sum_cons, List.sum_cons, hrest]
        · -- nothing is held of it
          have hzero : q.quantity = 0 := le_antisymm (not_lt.mp hq) (hqs q List.mem_cons_self)
          rw [List.filter_cons_of_neg (by simpa using hq), List.map_cons, List.sum_cons, hrest]
          simp [Position.pnl, hzero]
  have hpnl : ∀ qs : List Position, (∀ q ∈ qs, q.side = .long) →
      (qs.map Position.pnl).sum
        = (qs.map Position.marketValue).sum - (qs.map (fun q => q.quantity * q.avgEntryPrice)).sum := by
    intro qs hqs
    induction qs with
    | nil => simp
    | cons q qs ih =>
        have hrest := ih fun p hp => hqs p (List.mem_cons_of_mem _ hp)
        have hlong := hqs q List.mem_cons_self
        simp only [List.map_cons, List.sum_cons, hrest, Position.pnl, Position.marketValue, hlong,
          PositionSide.direction]
        ring
  have hlong : ∀ q ∈ e.getPositions, q.side = .long := by
    intro q hq
    obtain ⟨s, hs⟩ := (Dict.mem_values_iff _ _).mp hq
    exact (h.long s q hs).2
  rw [hfilter _ fun q hq => (h.level.sized hq).1, hpnl _ hlong, h.sum_basis]
  unfold PortfolioState.totalValue PortfolioState.positionValue PaperExecutor.portfolio
  dsimp only
  ring

theorem costBasis_portfolio {e : PaperExecutor} (h : e.Sound) :
    e.portfolio.costBasis = e.cash + e.tracker.openPrincipal := by
  have hlong : ∀ q ∈ e.getPositions,
      q.quantity * q.avgEntryPrice * q.side.direction = q.quantity * q.avgEntryPrice := by
    intro q hq
    obtain ⟨s, hs⟩ := (Dict.mem_values_iff _ _).mp hq
    rw [(h.long s q hs).2, PositionSide.direction, mul_one]
  rw [← h.sum_basis, ← List.map_congr_left hlong]
  unfold PortfolioState.costBasis PaperExecutor.portfolio
  dsimp only
  ring

/-- Two sleeves with half of the capital each. -/
def halves : SleevesSettings :=
  ⟨⟨"swing", some (1 / 2), some 48⟩, [⟨"position", some (1 / 2), none⟩], 1 / 5⟩

/-- A buy of the swing sleeve. -/
def swingBuy : SleeveCycle where
  pipeline := ⟨some "swing", false, false⟩
  input := flatCycle 100 bracketBuy
  decisionId := 1
  decidedAt := 1
  writtenAt := 2

end SleeveAgent

end SmartyTrader
