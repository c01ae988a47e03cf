import SmartyTrader.Core.Backtester

set_option autoImplicit false

/-! # What the replay prices its orders at

An order of the replay should be priced at the close of the latest bar of its symbol. Exit levels
are, and so is a decision on a symbol that is not held. A position is priced at its own mark, and
between the fill that opens it and the next bar of its symbol the mark is the fill price, slippage
included.
-/

namespace SmartyTrader

open Lib

/-! ## The latest bar -/

/-- The bar of a symbol, when the event is one. -/
def TimelineEvent.barOf (symbol : Symbol) (e : TimelineEvent) : Option OHLCV :=
  match e.event with
  | .candle s bar => if s = symbol then some bar else none
  | .decision _ => none

/-- The last bar of a symbol among the events. -/
def lastBar (symbol : Symbol) (events : List TimelineEvent) : Option OHLCV :=
  (events.filterMap (TimelineEvent.barOf symbol)).getLast?

theorem lastBar_concat (symbol : Symbol) (events : List TimelineEvent) (e : TimelineEvent) :
    lastBar symbol (events ++ [e]) = (e.barOf symbol).or (lastBar symbol events) := by
  unfold lastBar
  rw [List.filterMap_append, List.filterMap_cons, List.filterMap_nil]
  cases e.barOf symbol with
  | none => simp
  | some bar => simp

/-- A priced bar of the symbol that has closed by the time, and after which no other has. -/
structure LatestBar (candles : CandleSet) (timeframe : Option Timeframe) (symbol : Symbol)
    (time : Time) (bar : OHLCV) : Prop where
  mem : ∃ bars, candles.get? symbol = some bars ∧ bar ∈ bars
  priced : 0 < bar.close
  closed : ∃ opened, bar.timestamp = some opened ∧ closedAt timeframe opened ≤ time ∧
    ∀ bars, candles.get? symbol = some bars → ∀ other ∈ bars, 0 < other.close →
      ∀ opened', other.timestamp = some opened' → closedAt timeframe opened' ≤ time →
        closedAt timeframe opened' ≤ closedAt timeframe opened

/-! ## The marks of the book -/

/-- Every position is filed under its own symbol. -/
def PaperExecutor.Filed (e : PaperExecutor) : Prop :=
  ∀ symbol pos, e.positions.get? symbol = some pos → pos.symbol = symbol

theorem PaperExecutor.Filed.find? {e : PaperExecutor} (h : e.Filed) (symbol : Symbol) :
    e.getPositions.find? (fun p => p.symbol = symbol) = e.positions.get? symbol := by
  unfold getPositions
  cases hfind : e.positions.values.find? (fun p => p.symbol = symbol) with
  | none =>
      cases hget : e.positions.get? symbol with
      | none => rfl
      | some pos =>
          have hmem : pos ∈ e.positions.values := (Dict.mem_values_iff _ _).mpr ⟨symbol, hget⟩
          have hne := List.find?_eq_none.mp hfind pos hmem
          simp [h symbol pos hget] at hne
  | some pos =>
      have hsymbol : pos.symbol = symbol := by simpa using List.find?_some hfind
      obtain ⟨s, hs⟩ := (Dict.mem_values_iff _ _).mp (List.mem_of_find?_eq_some hfind)
      rw [← hsymbol, h s pos hs, hs]

namespace ReplayState

/-- The position of a symbol. -/
def position (s : ReplayState) (symbol : Symbol) : Option Position :=
  s.executor.positions.get? symbol

variable (draws : ℕ → Stamp) (time : Time)

/-- What an order does to the marks: its own symbol keeps its mark, or is opened at the slipped
price. -/
theorem fill_marks {signal : TradeSignal} {side : OrderSide} {quantity price : ℚ}
    {s s' : ReplayState} (hfiled : s.executor.Filed)
    (h : s.fill draws time signal side quantity price = .ok s') :
    s'.executor.costs = s.executor.costs ∧ s'.executor.Filed ∧
      (∀ symbol, symbol ≠ signal.symbol → s'.position symbol = s.position symbol) ∧
      ∀ pos', s'.position signal.symbol = some pos' →
        (∃ pos, s.position signal.symbol = some pos ∧ pos'.currentPrice = pos.currentPrice) ∨
        (s.position signal.symbol = none ∧ side = .buy ∧
          pos'.currentPrice = price * (1 + s.executor.costs.slippagePct)) := by
  obtain ⟨order, hplace, -, -, -⟩ := fill_ok draws time h
  obtain ⟨hcosts, hbook⟩ := PaperExecutor.placeOrder_book rfl hplace
  refine ⟨hcosts, ?_⟩
  unfold position
  rcases hbook with ⟨-, hsame⟩ | ⟨hbuy, -, hset⟩ | ⟨-, -, pos, hpos, -, hsold⟩
  · rw [PaperExecutor.Filed, hsame]
    exact ⟨hfiled, fun _ _ => rfl, fun pos' h' => .inl ⟨pos', h', rfl⟩⟩
  · -- a buy adds to the position or opens it
    have hside : side = .buy := hbuy
    have hother : ∀ symbol, symbol ≠ signal.symbol →
        s'.executor.positions.get? symbol = s.executor.positions.get? symbol := by
      intro symbol hne
      rw [hset]
      exact Dict.get?_set_ne _ _ (Ne.symm hne)
    have hself : s'.executor.positions.get? signal.symbol = some (s.executor.positionAfter
        (request signal side quantity price) (s.executor.applySlippage .buy price)) := by
      rw [hset]
      exact Dict.get?_set_self _ _ _
    unfold PaperExecutor.positionAfter at hself
    refine ⟨fun symbol pos hpos => ?_, hother, fun pos' hpos' => ?_⟩
    · by_cases hne : symbol = signal.symbol
      · subst hne
        rw [hself] at hpos
        cases hold : s.executor.positions.get? signal.symbol with
        | none =>
            rw [show (request signal side quantity price).symbol = signal.symbol from rfl, hold]
              at hpos
            cases hpos
            rfl
        | some old =>
            rw [show (request signal side quantity price).symbol = signal.symbol from rfl, hold]
              at hpos
            cases hpos
            exact hfiled signal.symbol old hold
      · rw [hother symbol hne] at hpos
        exact hfiled symbol pos hpos
    · rw [hself] at hpos'
      rw [show (request signal side quantity price).symbol = signal.symbol from rfl] at hpos'
      cases hold : s.executor.positions.get? signal.symbol with
      | none =>
          rw [hold] at hpos'
          cases hpos'
          exact .inr ⟨rfl, hside, rfl⟩
      | some old =>
          rw [hold] at hpos'
          cases hpos'
          exact .inl ⟨old, rfl, rfl⟩
  · -- a sell leaves a smaller position, or none
    have hget : s.executor.positions.get? signal.symbol = some pos := hpos
    have hafter : ∀ symbol pos', s'.executor.positions.get? symbol = some pos' →
        (symbol ≠ signal.symbol ∧ s.executor.positions.get? symbol = some pos') ∨
          (symbol = signal.symbol ∧ pos'.symbol = pos.symbol
            ∧ pos'.currentPrice = pos.currentPrice) := by
      intro symbol pos' hpos'
      rw [hsold] at hpos'
      unfold PaperExecutor.sold at hpos'
      dsimp only at hpos'
      by_cases hne : symbol = signal.symbol
      · subst hne
        split_ifs at hpos'
        · rw [show (request signal side quantity price).symbol = signal.symbol from rfl,
            Dict.get?_erase_self] at hpos'
          cases hpos'
        · rw [show (request signal side quantity price).symbol = signal.symbol from rfl,
            Dict.get?_set_self] at hpos'
          cases hpos'
          exact .inr ⟨rfl, rfl, rfl⟩
      · split_ifs at hpos'
        · exact .inl ⟨hne, (Dict.get?_erase_ne _ (Ne.symm hne)).symm.trans hpos'⟩
        · exact .inl ⟨hne, (Dict.get?_set_ne _ _ (Ne.symm hne)).symm.trans hpos'⟩
    have hother : ∀ symbol, symbol ≠ signal.symbol →
        s'.executor.positions.get? symbol = s.executor.positions.get? symbol := by
      intro symbol hne
      rw [hsold]
      unfold PaperExecutor.sold
      dsimp only
      split_ifs
      · exact Dict.get?_erase_ne _ (Ne.symm hne)
      · exact Dict.get?_set_ne _ _ (Ne.symm hne)
    refine ⟨fun symbol pos' hpos' => ?_, hother, fun pos' hpos' => ?_⟩
    · rcases hafter symbol pos' hpos' with ⟨-, hold⟩ | ⟨heq, hsym, -⟩
      · exact hfiled symbol pos' hold
      · rw [hsym, heq]
        exact hfiled signal.symbol pos hget
    · rcases hafter signal.symbol pos' hpos' with ⟨hne, -⟩ | ⟨-, -, hmark⟩
      · exact absurd rfl hne
      · exact .inl ⟨pos, hget, hmark⟩

/-- A mark sets the price of the position of its symbol, and nothing else. -/
theorem marked_position (s : ReplayState) (symbol other : Symbol) (close : ℚ) :
    (s.marked symbol close).position other
      = if symbol = other then (s.position other).map (fun pos => { pos with currentPrice := close })
        else s.position other := by
  unfold position marked PaperExecutor.updatePrice
  dsimp only
  cases hpos : s.executor.positions.get? symbol with
  | none =>
      split_ifs with heq
      · subst heq
        rw [hpos]
        rfl
      · rfl
  | some pos =>
      dsimp only
      rw [Dict.get?_set]
      split_ifs with heq
      · subst heq
        rw [hpos]
        rfl
      · rfl

theorem marked_costs (s : ReplayState) (symbol : Symbol) (close : ℚ) :
    (s.marked symbol close).executor.costs = s.executor.costs := by
  unfold marked PaperExecutor.updatePrice
  dsimp only
  split <;> rfl

theorem filed_marked {s : ReplayState} (h : s.executor.Filed) (symbol : Symbol) (close : ℚ) :
    (s.marked symbol close).executor.Filed := by
  intro other pos hpos
  have hget := s.marked_position symbol other close
  unfold position at hget
  rw [hget] at hpos
  split_ifs at hpos
  · obtain ⟨old, hold, rfl⟩ := Option.map_eq_some_iff.mp hpos
    exact h other old hold
  · exact h other pos hpos

variable (cfg : ReplayConfig)

/-- After a candle its symbol is marked at its close, and the other symbols are as they were. -/
theorem onCandle_marks {symbol : Symbol} {bar : OHLCV} {s s' : ReplayState}
    (hfiled : s.executor.Filed) (hclose : 0 < bar.close)
    (h : s.onCandle cfg draws time symbol bar = .ok s') :
    s'.executor.costs = s.executor.costs ∧ s'.executor.Filed ∧
      s'.lastClose = s.lastClose.set symbol bar.close ∧
      (∀ other, other ≠ symbol → s'.position other = s.position other) ∧
      ∀ pos', s'.position symbol = some pos' → pos'.currentPrice = bar.close := by
  have hmarked : ∀ other, other ≠ symbol →
      (s.marked symbol bar.close).position other = s.position other := by
    intro other hne
    rw [marked_position, if_neg (Ne.symm hne)]
  have hself : ∀ pos', (s.marked symbol bar.close).position symbol = some pos' →
      pos'.currentPrice = bar.close := by
    intro pos' hpos'
    rw [marked_position, if_pos rfl] at hpos'
    obtain ⟨old, -, rfl⟩ := Option.map_eq_some_iff.mp hpos'
    rfl
  rcases onCandle_cases cfg draws time symbol bar s with
    ⟨hbad, -⟩ | ⟨-, hok | ⟨position, reason, hheld, -, hfill⟩⟩
  · exact absurd hclose (not_lt.mpr hbad)
  · rw [hok] at h
    cases h
    exact ⟨marked_costs s symbol bar.close, filed_marked hfiled symbol bar.close, rfl, hmarked,
      hself⟩
  · rw [hfill] at h
    obtain ⟨-, -, hlast, -, -⟩ := fill_ok draws time h
    obtain ⟨hcosts, hfiled', hother, hmark⟩ := fill_marks draws time
      (s := { s.marked symbol bar.close with autoExits := s.autoExits + 1 })
      (filed_marked hfiled symbol bar.close) h
    refine ⟨hcosts.trans (marked_costs s symbol bar.close), hfiled', hlast, fun other hne => ?_,
      fun pos' hpos' => ?_⟩
    · exact (hother other hne).trans (hmarked other hne)
    · rcases hmark pos' hpos' with ⟨pos, hpos, heq⟩ | ⟨-, hbuy, -⟩
      · rw [heq]
        exact hself pos hpos
      · cases hbuy

/-- After a decision its symbol keeps its mark, or is opened at the slipped mark. -/
theorem onDecision_marks {d : ReplayDecision} {s s' : ReplayState} (hfiled : s.executor.Filed)
    (h : s.onDecision cfg draws time d = .ok s') :
    s'.executor.costs = s.executor.costs ∧ s'.executor.Filed ∧ s'.lastClose = s.lastClose ∧
      (∀ other, other ≠ d.symbol → s'.position other = s.position other) ∧
      ∀ pos', s'.position d.symbol = some pos' →
        (∃ pos, s.position d.symbol = some pos ∧ pos'.currentPrice = pos.currentPrice) ∨
        (s.position d.symbol = none ∧ ∃ price, s.markPrice d.symbol = some price ∧
          pos'.currentPrice = price * (1 + s.executor.costs.slippagePct)) := by
  rcases onDecision_cases cfg draws time d s with
    ⟨t, hbook, hok⟩ | ⟨price, t, hmark, -, hbook, hfill⟩
  · rw [hok] at h
    cases h
    unfold position
    rw [hbook.executor, hbook.lastClose]
    exact ⟨rfl, hfiled, rfl, fun _ _ => rfl, fun pos' hpos' => .inl ⟨pos', hpos', rfl⟩⟩
  · rw [hfill] at h
    obtain ⟨-, -, hlast, -, -⟩ := fill_ok draws time h
    obtain ⟨hcosts, hfiled', hother, hmarks⟩ :=
      fill_marks draws time (show t.executor.Filed from hbook.executor ▸ hfiled) h
    have hposition : ∀ symbol, t.position symbol = s.position symbol := by
      intro symbol
      unfold position
      rw [hbook.executor]
    rw [hbook.executor] at hcosts hmarks
    refine ⟨hcosts, hfiled', hlast.trans hbook.lastClose, fun other hne => ?_,
      fun pos' hpos' => ?_⟩
    · exact (hother other hne).trans (hposition other)
    · rcases hmarks pos' hpos' with ⟨pos, hpos, heq⟩ | ⟨hnone, -, heq⟩
      · exact .inl ⟨pos, (hposition d.symbol).symm.trans hpos, heq⟩
      · exact .inr ⟨(hposition d.symbol).symm.trans hnone, price, hmark, heq⟩

/-- The order of a step: a candle sends its exit at its close, a decision its order at the mark. -/
theorem step_order {e : TimelineEvent} {s s' : ReplayState} {o : PlacedOrder}
    (h : cfg.step draws s e = .ok s') (ho : s'.placed = s.placed ++ [o]) :
    o.time = e.time ∧
      match e.event with
      | .candle symbol bar => o.symbol = symbol ∧ o.price = bar.close
      | .decision d => o.symbol = d.symbol ∧ s.markPrice d.symbol = some o.price := by
  have hnew : ∀ {t : ReplayState} {o' : PlacedOrder}, t.placed = s.placed →
      s'.placed = t.placed ++ [o'] → o = o' := by
    intro t o' ht ho'
    rw [ho', ht] at ho
    exact (List.singleton_injective (List.append_cancel_left ho)).symm
  have hsome : s'.placed ≠ s.placed := by
    rw [ho]
    exact fun h => List.cons_ne_nil o [] (List.append_right_eq_self.mp h)
  rcases cfg.step_cases draws h with ⟨symbol, bar, t, he, ht, rfl⟩ | ⟨d, t, he, ht, rfl⟩
  · rw [he]
    rcases onCandle_cases cfg draws e.time symbol bar s with
      ⟨-, hok⟩ | ⟨-, hok | ⟨position, reason, -, -, hfill⟩⟩
    · rw [hok] at ht
      cases ht
      exact absurd rfl hsome
    · rw [hok] at ht
      cases ht
      exact absurd rfl hsome
    · rw [hfill] at ht
      obtain ⟨-, -, -, -, hplaced⟩ := fill_ok draws e.time ht
      obtain rfl := hnew (t := { s.marked symbol bar.close with autoExits := s.autoExits + 1 })
        rfl hplaced
      exact ⟨rfl, rfl, rfl⟩
  · rw [he]
    rcases onDecision_cases cfg draws e.time d s with
      ⟨u, hbook, hok⟩ | ⟨price, u, hmark, -, hbook, hfill⟩
    · rw [hok] at ht
      cases ht
      exact absurd hbook.placed hsome
    · rw [hfill] at ht
      obtain ⟨-, -, -, -, hplaced⟩ := fill_ok draws e.time ht
      obtain rfl := hnew hbook.placed hplaced
      exact ⟨rfl, rfl, hmark⟩

end ReplayState

/-! ## The marks along a replay -/

namespace ReplayConfig

variable (cfg : ReplayConfig) (draws : ℕ → Stamp) (start : ReplayState)

/-- The symbol is held after its last bar among the events, and after everything since. -/
def HeldSinceBar (events : List TimelineEvent) (symbol : Symbol) : Prop :=
  ∀ earlier later, events = earlier ++ later → (∀ e ∈ later, e.barOf symbol = none) →
    ∀ s, cfg.process draws earlier start = .ok s → s.position symbol ≠ none

theorem heldSinceBar_concat {events : List TimelineEvent} {e : TimelineEvent} (symbol : Symbol)
    {s' : ReplayState} (h : cfg.process draws (events ++ [e]) start = .ok s') :
    cfg.HeldSinceBar draws start (events ++ [e]) symbol ↔
      s'.position symbol ≠ none ∧
        (e.barOf symbol = none → cfg.HeldSinceBar draws start events symbol) := by
  constructor
  · intro hheld
    refine ⟨hheld (events ++ [e]) [] (List.append_nil _).symm (fun _ h => by cases h) s' h, ?_⟩
    intro hbar earlier later hsplit hlater
    refine hheld earlier (later ++ [e]) (by rw [hsplit, List.append_assoc]) fun x hx => ?_
    rcases List.mem_append.mp hx with hx | hx
    · exact hlater x hx
    · rw [List.mem_singleton.mp hx]
      exact hbar
  · rintro ⟨hnow, hbefore⟩ earlier later hsplit hlater s hs
    rcases List.eq_nil_or_concat later with rfl | ⟨later, x, rfl⟩
    · rw [List.append_nil] at hsplit
      rw [← hsplit, h] at hs
      cases hs
      exact hnow
    · rw [List.concat_eq_append, ← List.append_assoc] at hsplit
      obtain ⟨hevents, hx⟩ := List.append_inj' hsplit rfl
      obtain rfl := List.singleton_injective hx
      refine hbefore (hlater e (by simp)) earlier later hevents (fun y hy => ?_) s hs
      exact hlater y (by simp [hy])

/-- How the book is marked after the events: the symbols that are not held have the close of their
last bar, and so has a position that was held then; a position that was opened since is marked
at the slipped close. -/
structure Marks (events : List TimelineEvent) (s : ReplayState) : Prop where
  costs : s.executor.costs = cfg.costs
  filed : s.executor.Filed
  lastClose : ∀ symbol, s.lastClose.get? symbol = (lastBar symbol events).map OHLCV.close
  priced : ∀ symbol bar, lastBar symbol events = some bar → 0 < bar.close
  mark : ∀ symbol pos, s.position symbol = some pos →
    ∃ bar, lastBar symbol events = some bar ∧
      (cfg.HeldSinceBar draws start events symbol → pos.currentPrice = bar.close) ∧
      (¬cfg.HeldSinceBar draws start events symbol →
        pos.currentPrice = bar.close * (1 + cfg.costs.slippagePct))

/-- A held symbol is priced at the mark of its position, another one at its last bar. -/
theorem Marks.markPrice {events : List TimelineEvent} {s : ReplayState}
    (h : cfg.Marks draws start events s) (symbol : Symbol) :
    s.markPrice symbol = match s.position symbol with
      | some pos => some pos.currentPrice
      | none => (lastBar symbol events).map OHLCV.close := by
  unfold ReplayState.markPrice
  rw [h.filed.find? symbol]
  change (match s.position symbol with
    | some position =>
        if position.currentPrice > 0 then some position.currentPrice else s.lastClose.get? symbol
    | none => s.lastClose.get? symbol) = _
  cases hpos : s.position symbol with
  | none => exact h.lastClose symbol
  | some pos =>
      obtain ⟨bar, hbar, hheld, hopened⟩ := h.mark symbol pos hpos
      have hclose : 0 < bar.close := h.priced symbol bar hbar
      have hslip : 0 ≤ cfg.costs.slippagePct := cfg.costs.slippagePct_nonneg
      have hprice : 0 < pos.currentPrice := by
        by_cases hsince : cfg.HeldSinceBar draws start events symbol
        · rw [hheld hsince]
          exact hclose
        · rw [hopened hsince]
          positivity
      exact if_pos hprice

theorem marks_start (timeline : List TimelineEvent) :
    cfg.Marks draws (cfg.start timeline) [] (cfg.start timeline) where
  costs := rfl
  filed := fun _ _ h => by cases h
  lastClose := fun _ => rfl
  priced := fun _ _ h => by cases h
  mark := fun _ _ h => by cases h

theorem process_concat {events : List TimelineEvent} {e : TimelineEvent} {s s' : ReplayState}
    (hs : cfg.process draws events start = .ok s) (hstep : cfg.step draws s e = .ok s') :
    cfg.process draws (events ++ [e]) start = .ok s' := by
  rw [process_append, hs]
  change cfg.step draws s e >>= (fun s => .ok s) = .ok s'
  rw [hstep]
  rfl

theorem Marks.step {events : List TimelineEvent} {e : TimelineEvent} {s s' : ReplayState}
    (h : cfg.Marks draws start events s) (hs : cfg.process draws events start = .ok s)
    (hpriced : ∀ symbol bar, e.event = .candle symbol bar → 0 < bar.close)
    (hstep : cfg.step draws s e = .ok s') : cfg.Marks draws start (events ++ [e]) s' := by
  have hrun := cfg.process_concat draws start hs hstep
  have hheld := fun symbol => cfg.heldSinceBar_concat draws start symbol hrun
  rcases cfg.step_cases draws hstep with ⟨symbol, bar, t, he, ht, rfl⟩ | ⟨d, t, he, ht, rfl⟩
  · have hclose := hpriced symbol bar he
    obtain ⟨hcosts, hfiled, hlast, hother, hself⟩ :=
      ReplayState.onCandle_marks draws e.time cfg h.filed hclose ht
    have hbar : ∀ other, e.barOf other = if symbol = other then some bar else none := by
      intro other
      unfold TimelineEvent.barOf
      rw [he]
    refine ⟨hcosts.trans h.costs, hfiled, fun other => ?_, fun other latest hlatest => ?_,
      fun other pos hpos => ?_⟩
    · rw [lastBar_concat, hbar]
      change t.lastClose.get? other = _
      rw [hlast, Dict.get?_set]
      split_ifs
      · rfl
      · exact h.lastClose other
    · rw [lastBar_concat, hbar] at hlatest
      split_ifs at hlatest
      · cases hlatest
        exact hclose
      · exact h.priced other latest hlatest
    · by_cases hne : symbol = other
      · subst hne
        refine ⟨bar, by rw [lastBar_concat, hbar, if_pos rfl]; rfl, fun _ => hself pos hpos,
          fun hnot => absurd ((hheld symbol).mpr ⟨?_, fun hnone => ?_⟩) hnot⟩
        · rw [hpos]
          exact Option.some_ne_none pos
        · rw [hbar, if_pos rfl] at hnone
          cases hnone
      · have hold : s.position other = some pos :=
          (hother other (Ne.symm hne)).symm.trans hpos
        obtain ⟨latest, hlatest, hmark, hopened⟩ := h.mark other pos hold
        have hnone : e.barOf other = none := by rw [hbar, if_neg hne]
        have hsame := hheld other
        refine ⟨latest, by rw [lastBar_concat, hnone]; exact hlatest, fun hsince => ?_,
          fun hnot => ?_⟩
        · exact hmark ((hsame.mp hsince).2 hnone)
        · refine hopened fun hsince => hnot (hsame.mpr ⟨?_, fun _ => hsince⟩)
          rw [hpos]
          exact Option.some_ne_none pos
  · obtain ⟨hcosts, hfiled, hlast, hother, hself⟩ :=
      ReplayState.onDecision_marks draws e.time cfg h.filed ht
    have hnone : ∀ other, e.barOf other = none := by
      intro other
      unfold TimelineEvent.barOf
      rw [he]
    have hbars : ∀ other, lastBar other (events ++ [e]) = lastBar other events := by
      intro other
      rw [lastBar_concat, hnone]
      rfl
    -- what is held after the decision with the mark it had before
    have hkept : ∀ other pos old, t.position other = some pos → s.position other = some old →
        pos.currentPrice = old.currentPrice → ∃ bar, lastBar other (events ++ [e]) = some bar ∧
          (cfg.HeldSinceBar draws start (events ++ [e]) other → pos.currentPrice = bar.close) ∧
          (¬cfg.HeldSinceBar draws start (events ++ [e]) other →
            pos.currentPrice = bar.close * (1 + cfg.costs.slippagePct)) := by
      intro other pos old hpos hold heq
      obtain ⟨bar, hbar, hmark, hopened⟩ := h.mark other old hold
      have hsame := hheld other
      rw [hbars, heq]
      refine ⟨bar, hbar, fun hsince => hmark ((hsame.mp hsince).2 (hnone other)), fun hnot => ?_⟩
      refine hopened fun hsince => hnot (hsame.mpr ⟨?_, fun _ => hsince⟩)
      exact fun hpos' => Option.some_ne_none pos (hpos.symm.trans hpos')
    refine ⟨hcosts.trans h.costs, hfiled, fun other => ?_, fun other latest hlatest => ?_,
      fun other pos hpos => ?_⟩
    · rw [hbars]
      change t.lastClose.get? other = _
      rw [hlast]
      exact h.lastClose other
    · rw [hbars] at hlatest
      exact h.priced other latest hlatest
    · by_cases hne : other = d.symbol
      · subst hne
        rcases hself pos hpos with ⟨old, hold, heq⟩ | ⟨hflat, price, hmark, heq⟩
        · exact hkept d.symbol pos old hpos hold heq
        · -- opened by this decision, at the close of the last bar
          rw [h.markPrice cfg draws start, hflat] at hmark
          obtain ⟨bar, hbar, rfl⟩ := Option.map_eq_some_iff.mp hmark
          refine ⟨bar, by rw [hbars]; exact hbar, fun hsince => ?_, fun _ => ?_⟩
          · have hbefore := ((hheld d.symbol).mp hsince).2 (hnone d.symbol)
            exact absurd hflat (hbefore events [] (List.append_nil _).symm
              (fun _ hx => by cases hx) s hs)
          · rw [heq, h.costs]
      · exact hkept other pos pos hpos ((hother other hne).symm.trans hpos) rfl

theorem marks_process {events : List TimelineEvent} (timeline : List TimelineEvent)
    (hpriced : ∀ e ∈ events, ∀ symbol bar, e.event = .candle symbol bar → 0 < bar.close)
    {s : ReplayState} (hs : cfg.process draws events (cfg.start timeline) = .ok s) :
    cfg.Marks draws (cfg.start timeline) events s := by
  induction events using List.reverseRecOn generalizing s with
  | nil =>
      cases hs
      exact cfg.marks_start draws timeline
  | append_singleton events e ih =>
      rw [process_append] at hs
      cases hmid : cfg.process draws events (cfg.start timeline) with
      | error err => rw [hmid] at hs; cases hs
      | ok mid =>
          rw [hmid] at hs
          have hstep : cfg.step draws mid e = .ok s := by
            change cfg.step draws mid e >>= (fun s => .ok s) = .ok s at hs
            cases hstep : cfg.step draws mid e with
            | error err => rw [hstep] at hs; cases hs
            | ok t => rw [hstep] at hs; exact hs
          refine (ih (fun x hx => hpriced x (by simp [hx])) hmid).step cfg draws _ hmid ?_ hstep
          exact hpriced e (by simp)

end ReplayConfig

/-! ## Bars of the timeline -/

theorem ofCandle_eq_some_iff {timeframe : Option Timeframe} {symbol : Symbol} {bar : OHLCV}
    {e : TimelineEvent} : TimelineEvent.ofCandle timeframe symbol bar = some e ↔
      ∃ opened, bar.timestamp = some opened ∧ 0 < bar.close ∧
        e = ⟨closedAt timeframe opened, .candle symbol bar⟩ := by
  unfold TimelineEvent.ofCandle
  cases bar.timestamp with
  | none => simp
  | some opened =>
      by_cases hclose : bar.close ≤ 0
      · simp [hclose, not_lt.mpr hclose]
      · simp [hclose, not_le.mp hclose, eq_comm]

/-- The bars of the timeline are the bars with a time and a price. -/
theorem mem_buildTimeline_bar {decisions : List ReplayDecision} {candles : CandleSet}
    {timeframe : Option Timeframe} {e : TimelineEvent} {symbol : Symbol} {bar : OHLCV} :
    e ∈ buildTimeline decisions candles timeframe ∧ e.barOf symbol = some bar ↔
      ∃ bars opened, candles.get? symbol = some bars ∧ bar ∈ bars ∧ bar.timestamp = some opened ∧
        0 < bar.close ∧ e = ⟨closedAt timeframe opened, .candle symbol bar⟩ := by
  unfold buildTimeline candleEvents
  rw [mem_sortBy, List.mem_append, List.mem_flatMap]
  constructor
  · rintro ⟨hmem, hbar⟩
    rcases hmem with ⟨entry, hentry, he⟩ | hdecision
    · obtain ⟨other, hother, he⟩ := List.mem_filterMap.mp he
      obtain ⟨opened, htime, hclose, rfl⟩ := ofCandle_eq_some_iff.mp he
      unfold TimelineEvent.barOf at hbar
      dsimp only at hbar
      split_ifs at hbar with hsymbol
      cases hbar
      subst hsymbol
      refine ⟨entry.2, opened, (Dict.mem_entries_iff candles entry.1 entry.2).mp hentry, hother,
        htime, hclose, rfl⟩
    · obtain ⟨d, -, rfl⟩ := List.mem_map.mp hdecision
      cases hbar
  · rintro ⟨bars, opened, hbars, hmem, htime, hclose, rfl⟩
    refine ⟨.inl ⟨(symbol, bars), (Dict.mem_entries_iff candles symbol bars).mpr hbars, ?_⟩, ?_⟩
    · exact List.mem_filterMap.mpr ⟨bar, hmem,
        ofCandle_eq_some_iff.mpr ⟨opened, htime, hclose, rfl⟩⟩
    · unfold TimelineEvent.barOf
      exact if_pos rfl

/-- The last bar of sorted events closes no earlier than the others. -/
theorem lastBar_spec {events : List TimelineEvent} {symbol : Symbol} {bar : OHLCV}
    (hsorted : events.Pairwise (fun a b => a.time ≤ b.time))
    (h : lastBar symbol events = some bar) :
    ∃ e ∈ events, e.barOf symbol = some bar ∧
      ∀ x ∈ events, x.barOf symbol ≠ none → x.time ≤ e.time := by
  induction events using List.reverseRecOn with
  | nil => cases h
  | append_singleton events a ih =>
      rw [lastBar_concat] at h
      obtain ⟨hevents, -, hle⟩ := List.pairwise_append.mp hsorted
      cases ha : a.barOf symbol with
      | some last =>
          rw [ha] at h
          cases h
          refine ⟨a, by simp, ha, fun x hx _ => ?_⟩
          rcases List.mem_append.mp hx with hx | hx
          · exact hle x hx a (List.mem_singleton_self a)
          · rw [List.mem_singleton.mp hx]
      | none =>
          rw [ha] at h
          obtain ⟨e, he, hbar, hlast⟩ := ih hevents h
          refine ⟨e, by simp [he], hbar, fun x hx hxbar => ?_⟩
          rcases List.mem_append.mp hx with hx | hx
          · exact hlast x hx hxbar
          · rw [List.mem_singleton.mp hx] at hxbar
            exact absurd ha hxbar

/-- The last bar up to an event of the timeline is a latest bar at the time of the event, when the
event is a decision or a bar of the symbol itself. -/
theorem latestBar_of_lastBar {decisions : List ReplayDecision} {candles : CandleSet}
    {timeframe : Option Timeframe} {before after : List TimelineEvent} {e : TimelineEvent}
    (hsplit : buildTimeline decisions candles timeframe = before ++ e :: after) {symbol : Symbol}
    {bar : OHLCV} (hlast : lastBar symbol (before ++ [e]) = some bar)
    (hown : e.rank = 1 ∨ e.barOf symbol ≠ none) :
    LatestBar candles timeframe symbol e.time bar := by
  have hsorted := sorted_sortBy TimelineEvent.key
    (candleEvents timeframe candles ++ decisions.map TimelineEvent.ofDecision)
  change (buildTimeline decisions candles timeframe).Pairwise _ at hsorted
  have htimes := sorted_buildTimeline decisions candles timeframe
  have hmem : ∀ x ∈ before ++ [e], x ∈ buildTimeline decisions candles timeframe := by
    intro x hx
    rw [hsplit]
    rcases List.mem_append.mp hx with hx | hx
    · exact List.mem_append_left _ hx
    · rw [List.mem_singleton.mp hx]
      exact List.mem_append_right _ List.mem_cons_self
  rw [hsplit, List.append_cons] at hsorted htimes
  obtain ⟨-, -, hafter⟩ := List.pairwise_append.mp hsorted
  obtain ⟨hpre, -, -⟩ := List.pairwise_append.mp htimes
  obtain ⟨y, hy, hbar, hle⟩ := lastBar_spec hpre hlast
  obtain ⟨bars, opened, hbars, hmembar, htime, hclose, hyeq⟩ :=
    mem_buildTimeline_bar.mp ⟨hmem y hy, hbar⟩
  have hytime : y.time = closedAt timeframe opened := by rw [hyeq]
  have hye : y.time ≤ e.time := by
    rcases List.mem_append.mp hy with hy | hy
    · exact (List.pairwise_append.mp hpre).2.2 y hy e (List.mem_singleton_self e)
    · rw [List.mem_singleton.mp hy]
  refine ⟨⟨bars, hbars, hmembar⟩, hclose, opened, htime, hytime ▸ hye, ?_⟩
  intro bars' hbars' other hother hpriced opened' htime' hclosed
  rw [← hytime]
  obtain ⟨hx, hxbar⟩ := (@mem_buildTimeline_bar decisions candles timeframe _ symbol other).mpr
    ⟨bars', opened', hbars', hother, htime', hpriced, rfl⟩
  rw [hsplit, List.append_cons] at hx
  rcases List.mem_append.mp hx with hx | hx
  · exact hle _ hx (by rw [hxbar]; exact Option.some_ne_none other)
  · -- a later bar of the same time comes before a decision
    rcases Prod.Lex.le_iff.mp (hafter e (by simp) _ hx) with hlt | ⟨heq, hrank⟩
    · exact absurd hclosed (not_le.mpr hlt)
    · have htime : e.time = closedAt timeframe opened' := heq
      rcases hown with hdecision | hself
      · have hzero : e.rank ≤ 0 := hrank
        omega
      · rw [← htime]
        exact hle e (by simp) hself

/-! ## The price of an order -/

/-- An order of a decision is priced at the latest bar when nothing is lost to slippage, or the
symbol is not held, or its position has been held since that bar. -/
def PricedAtBar (cfg : ReplayConfig) (draws : ℕ → Stamp) (start : ReplayState)
    (before : List TimelineEvent) (s : ReplayState) (e : TimelineEvent) : Prop :=
  ∀ d, e.event = .decision d → cfg.costs.slippagePct = 0 ∨ s.position d.symbol = none ∨
    cfg.HeldSinceBar draws start before d.symbol

/-- **Replay pricing.** Take any replay and any event of its timeline that sends an order. There
is a latest bar of the order's symbol at its time, and the order is priced at its close exactly
when it is not the order of a decision on a position that was opened, with slippage, after that
bar. -/
theorem replay_price_iff (cfg : ReplayConfig) (draws : ℕ → Stamp)
    (decisions : List ReplayDecision) (candles : CandleSet) (timeframe : Option Timeframe)
    (before after : List TimelineEvent) (e : TimelineEvent)
    (hsplit : buildTimeline decisions candles timeframe = before ++ e :: after)
    (s s' : ReplayState)
    (hs : cfg.process draws before (cfg.start (before ++ e :: after)) = .ok s)
    (hstep : cfg.step draws s e = .ok s') (o : PlacedOrder) (ho : s'.placed = s.placed ++ [o]) :
    ∃ bar, lastBar o.symbol (before ++ [e]) = some bar ∧
      LatestBar candles timeframe o.symbol o.time bar ∧
      (o.price = bar.close ↔
        PricedAtBar cfg draws (cfg.start (before ++ e :: after)) before s e) := by
  have hpriced : ∀ x ∈ before ++ [e], ∀ symbol bar, x.event = .candle symbol bar →
      0 < bar.close := by
    intro x hx symbol bar hbar
    have hmem : x ∈ buildTimeline decisions candles timeframe := by
      rw [hsplit, List.append_cons]
      exact List.mem_append_left _ hx
    have hown : x.barOf symbol = some bar := by
      unfold TimelineEvent.barOf
      rw [hbar]
      exact if_pos rfl
    obtain ⟨-, -, -, -, -, hclose, -⟩ := mem_buildTimeline_bar.mp ⟨hmem, hown⟩
    exact hclose
  have hmarks := cfg.marks_process draws (before ++ e :: after)
    (fun x hx => hpriced x (List.mem_append_left _ hx)) hs
  obtain ⟨htime, horder⟩ := ReplayState.step_order draws cfg hstep ho
  rw [htime]
  cases he : e.event with
  | candle symbol bar =>
      rw [he] at horder
      obtain ⟨hsymbol, hprice⟩ := horder
      have hbar : e.barOf symbol = some bar := by
        unfold TimelineEvent.barOf
        rw [he]
        exact if_pos rfl
      have hlast : lastBar symbol (before ++ [e]) = some bar := by
        rw [lastBar_concat, hbar]
        rfl
      rw [hsymbol]
      refine ⟨bar, hlast, latestBar_of_lastBar hsplit hlast (.inr ?_), fun _ d hd => ?_,
        fun _ => hprice⟩
      · rw [hbar]
        exact Option.some_ne_none bar
      · rw [he] at hd
        cases hd
  | decision d =>
      rw [he] at horder
      obtain ⟨hsymbol, hmark⟩ := horder
      have hrank : e.rank = 1 := by
        unfold TimelineEvent.rank
        rw [he]
      have hbars : lastBar d.symbol (before ++ [e]) = lastBar d.symbol before := by
        rw [lastBar_concat]
        unfold TimelineEvent.barOf
        rw [he]
        rfl
      have hcond : PricedAtBar cfg draws (cfg.start (before ++ e :: after)) before s e ↔
          cfg.costs.slippagePct = 0 ∨ s.position d.symbol = none ∨
            cfg.HeldSinceBar draws (cfg.start (before ++ e :: after)) before d.symbol := by
        constructor
        · exact fun h => h d he
        · intro h d' hd'
          rw [he] at hd'
          cases hd'
          exact h
      rw [hmarks.markPrice cfg draws] at hmark
      rw [hsymbol, hcond]
      cases hpos : s.position d.symbol with
      | none =>
          rw [hpos] at hmark
          obtain ⟨bar, hbar, hclose⟩ := Option.map_eq_some_iff.mp hmark
          have hlast := hbars.trans hbar
          exact ⟨bar, hlast, latestBar_of_lastBar hsplit hlast (.inl hrank),
            fun _ => .inr (.inl rfl), fun _ => hclose.symm⟩
      | some pos =>
          rw [hpos] at hmark
          obtain ⟨bar, hbar, hheld, hopened⟩ := hmarks.mark d.symbol pos hpos
          have hlast := hbars.trans hbar
          have hclose : 0 < bar.close := hmarks.priced d.symbol bar hbar
          have hprice : pos.currentPrice = o.price := Option.some.inj hmark
          refine ⟨bar, hlast, latestBar_of_lastBar hsplit hlast (.inl hrank), ?_, ?_⟩
          · intro heq
            by_contra hnot
            push Not at hnot
            obtain ⟨hslip, -, hsince⟩ := hnot
            have hfill := (hprice.symm.trans (hopened hsince)).symm.trans heq
            have hzero : bar.close * cfg.costs.slippagePct = 0 := by linarith
            rcases mul_eq_zero.mp hzero with h | h
            · exact hclose.ne' h
            · exact hslip h
          · rintro (hslip | hnone | hsince)
            · by_cases hsince : cfg.HeldSinceBar draws (cfg.start (before ++ e :: after)) before
                d.symbol
              · rw [← hprice, hheld hsince]
              · rw [← hprice, hopened hsince, hslip]
                ring
            · cases hnone
            · rw [← hprice, hheld hsince]

/-! ## A decision between the fill and the next bar -/

/-- A slippage of one percent and no other cost. -/
def slippingCosts : CostModel := { CostModel.free with
  slippagePct := 1 / 100
  slippagePct_nonneg := by norm_num }

/-- A replay of the shipped settings with that slippage. -/
def slippingReplay : ReplayConfig := ⟨RiskSettings.default, 1000, slippingCosts, none, none⟩

/-- One day at a price of 100. -/
def oneBar : CandleSet := Dict.empty.set "BTC/USDC" [⟨some 0, 100, 100, 100, 100, 0⟩]

/-- A decision on `BTC/USDC` some hours after the first day. -/
def decisionAfter (h : ℤ) (action : Action) : ReplayDecision where
  timestamp := hours (24 + h)
  symbol := "BTC/USDC"
  action := action
  confidence := 9 / 10
  stopLoss := some 95
  takeProfit := some 120
  confidence_nonneg := by norm_num
  confidence_le_one := by norm_num

def daily : Option Timeframe := some ⟨days 1, by decide⟩

/-- The ids of the orders. -/
def sampleDraws (n : ℕ) : Stamp := ⟨toString n, 0⟩

/-- Bought an hour after the only bar and sold an hour later, the position is sold at the price it
was bought for with slippage, and not at the close of the bar. -/
theorem sold_at_the_fill_price :
    ((slippingReplay.replay sampleDraws [decisionAfter 1 .buy, decisionAfter 2 .sell] oneBar
        daily).map fun s => s.placed.map fun o => (o.side, o.price))
      = .ok [(.buy, 100), (.sell, 101)] ∧
      ∀ bar, LatestBar oneBar daily "BTC/USDC" (hours 26) bar → bar.close = 100 := by
  refine ⟨by decide +kernel, fun bar hbar => ?_⟩
  obtain ⟨bars, hbars, hmem⟩ := hbar.mem
  cases hbars
  rw [List.mem_singleton.mp hmem]

/-- The purchase itself is priced at the close of the bar: nothing was held before it. -/
theorem replay_price_iff_purchase :
    let bar : TimelineEvent := ⟨days 1, .candle "BTC/USDC" ⟨some 0, 100, 100, 100, 100, 0⟩⟩
    let purchase := TimelineEvent.ofDecision (decisionAfter 1 .buy)
    let start := slippingReplay.start [bar, purchase]
    ∃ s s' o latest, slippingReplay.process sampleDraws [bar] start = .ok s ∧
      slippingReplay.step sampleDraws s purchase = .ok s' ∧ s'.placed = s.placed ++ [o] ∧
      LatestBar oneBar daily o.symbol o.time latest ∧ o.price = latest.close := by
  intro bar purchase start
  let marked := slippingReplay.process sampleDraws [bar] start
  have hmarked : (marked.map fun s => (s.placed, (s.position "BTC/USDC").isNone))
      = .ok ([], true) := by decide +kernel
  have hboth : ((marked >>= fun s => slippingReplay.step sampleDraws s purchase).map fun s =>
      s.placed.map fun o => (o.time, o.symbol, o.side, o.price))
      = .ok [(hours 25, "BTC/USDC", .buy, 100)] := by decide +kernel
  cases hs : marked with
  | error err => rw [hs] at hmarked; cases hmarked
  | ok s =>
      rw [hs] at hmarked hboth
      obtain ⟨hnone, hflat⟩ := Prod.mk.inj (Except.ok.inj hmarked)
      cases hs' : slippingReplay.step sampleDraws s purchase with
      | error err =>
          change ((slippingReplay.step sampleDraws s purchase).map _) = _ at hboth
          rw [hs'] at hboth
          cases hboth
      | ok s' =>
          change ((slippingReplay.step sampleDraws s purchase).map _) = _ at hboth
          rw [hs'] at hboth
          obtain ⟨o, ho⟩ : ∃ o, s'.placed = [o] :=
            List.length_eq_one_iff.mp (by simpa using congrArg List.length (Except.ok.inj hboth))
          have hplaced : s'.placed = s.placed ++ [o] := by rw [ho, hnone]; rfl
          obtain ⟨latest, -, hlatest, hprice⟩ := replay_price_iff slippingReplay sampleDraws
            [decisionAfter 1 .buy] oneBar daily [bar] [] purchase rfl s s' hs hs' o hplaced
          refine ⟨s, s', o, latest, hs, hs', hplaced, hlatest, hprice.mpr fun d hd => ?_⟩
          cases hd
          exact .inr (.inl (Option.isNone_iff_eq_none.mp hflat))

end SmartyTrader
