import SmartyTrader.Execution.PaperPipeline

set_option autoImplicit false

/-! # Breached positions do not survive a cycle

The paper book keeps one long position for each symbol, with the levels of the latest plan. A
cycle first closes a position whose level its mark breaches, so what goes on to the decision lies
within its levels (`checkExitLevels_within`). The gate lets a BUY through only with levels around
the same mark, and the book takes over the levels of the order level by level, so the slippage of
the fill does not matter (`Within.placeOrder`). `no_breach_survives` puts the two together for
every state a paper agent can be in.
-/

namespace SmartyTrader

open Lib

/-- A mark above the stop-loss and below the take-profit. -/
structure Between (stopLoss takeProfit : Option ℚ) (mark : ℚ) : Prop where
  stop : ∀ sl ∈ stopLoss, sl < mark
  profit : ∀ tp ∈ takeProfit, mark < tp

/-- Levels replaced one by one stay around the mark. -/
theorem Between.or {sl tp sl' tp' : Option ℚ} {mark : ℚ} (h : Between sl tp mark)
    (h' : Between sl' tp' mark) : Between (sl.or sl') (tp.or tp') mark where
  stop := by
    intro x hx
    rcases Option.or_eq_some_iff.mp hx with hx | ⟨-, hx⟩
    · exact h.stop x hx
    · exact h'.stop x hx
  profit := by
    intro x hx
    rcases Option.or_eq_some_iff.mp hx with hx | ⟨-, hx⟩
    · exact h.profit x hx
    · exact h'.profit x hx

/-- The exit check passes a long position exactly when the mark lies between its levels. -/
theorem exitLevelBreach_eq_none_iff {pos : Position} (hlong : pos.side = .long) (mark : ℚ) :
    exitLevelBreach pos mark = none ↔ Between pos.stopLoss pos.takeProfit mark := by
  have hstop : pos.stopLoss.any (fun sl => decide (mark ≤ sl)) = false
      ↔ ∀ sl ∈ pos.stopLoss, sl < mark := by
    cases pos.stopLoss <;> simp
  have hprofit : pos.takeProfit.any (fun tp => decide (mark ≥ tp)) = false
      ↔ ∀ tp ∈ pos.takeProfit, mark < tp := by
    cases pos.takeProfit <;> simp
  simp only [exitLevelBreach, hlong, reduceCtorEq, if_false]
  constructor
  · intro h
    split_ifs at h with hs ht
    exact ⟨hstop.mp (Bool.eq_false_of_not_eq_true hs),
      hprofit.mp (Bool.eq_false_of_not_eq_true ht)⟩
  · intro h
    rw [hstop.mpr h.stop, hprofit.mpr h.profit]
    rfl

/-- The gate lets a BUY through only with levels around the price it checked. -/
theorem between_of_approved {e : RiskEngine} {signal : TradeSignal} {portfolio : PortfolioState}
    {notional : Option ℚ} {price : ℚ} {now later : Time} (hbuy : signal.action = .buy)
    (hprice : 0 < price)
    (h : (e.evaluate signal portfolio notional (some price) now later).1 = .approved) :
    Between signal.stopLoss signal.takeProfit price := by
  unfold RiskEngine.evaluate at h
  simp only [hbuy, RiskResult.first_eq_approved_iff, List.mem_cons, List.not_mem_nil, or_false,
    forall_eq_or_imp, forall_eq] at h
  obtain ⟨-, -, -, -, -, -, hlevels⟩ := h
  unfold RiskEngine.checkStopLoss at hlevels
  rw [if_neg (not_not.mpr hbuy)] at hlevels
  cases hsl : signal.stopLoss with
  | none =>
      rw [hsl] at hlevels
      cases hlevels
  | some sl =>
      rw [hsl] at hlevels
      dsimp only at hlevels
      rw [if_pos hprice] at hlevels
      split_ifs at hlevels with hstop htaken
      refine ⟨fun x hx => ?_, fun tp htp => ?_⟩
      · cases hx
        exact not_le.mp hstop
      · exact not_le.mp fun hle => htaken ⟨tp, htp, hle⟩

namespace PaperExecutor

/-- Every position is filed under its own symbol and is long. -/
def LongBook (e : PaperExecutor) : Prop :=
  ∀ s pos, e.positions.get? s = some pos → pos.symbol = s ∧ pos.side = .long

theorem longBook_create (cash : ℚ) (costs : CostModel) : (create cash costs).LongBook := by
  intro s pos h
  cases h

/-- What is held of a symbol, if anything, has the mark between its levels. -/
def Within (e : PaperExecutor) (s : Symbol) (mark : ℚ) : Prop :=
  ∀ pos, e.positions.get? s = some pos → Between pos.stopLoss pos.takeProfit mark

theorem LongBook.updatePrice {e : PaperExecutor} (h : e.LongBook) (s : Symbol) (price : ℚ) :
    (e.updatePrice s price).LongBook := by
  unfold PaperExecutor.updatePrice
  cases hp : e.positions.get? s with
  | none => exact h
  | some pos =>
      intro s' pos' hp'
      rw [Dict.get?_set] at hp'
      split_ifs at hp' with hs
      · cases hp'
        exact hs ▸ h s pos hp
      · exact h s' pos' hp'

theorem quantity_updatePrice {e : PaperExecutor} (h : ∀ pos ∈ e.getPositions, 0 < pos.quantity)
    (s : Symbol) (price : ℚ) : ∀ pos ∈ (e.updatePrice s price).getPositions, 0 < pos.quantity := by
  unfold PaperExecutor.updatePrice
  cases hp : e.positions.get? s with
  | none => exact h
  | some old =>
      intro pos hpos
      obtain ⟨s', hs'⟩ := (Dict.mem_values_iff _ _).mp hpos
      rw [Dict.get?_set] at hs'
      split_ifs at hs' with hs
      · cases hs'
        exact h old ((Dict.mem_values_iff _ _).mpr ⟨s, hp⟩)
      · exact h pos ((Dict.mem_values_iff _ _).mpr ⟨s', hs'⟩)

/-- A book with a position set under its symbol. -/
theorem LongBook.set {e e' : PaperExecutor} (h : e.LongBook) (pos : Position) (hlong : pos.side = .long)
    (he : e'.positions = e.positions.set pos.symbol pos) : e'.LongBook := by
  intro s q hq
  rw [he, Dict.get?_set] at hq
  split_ifs at hq with hs
  · cases hq
    exact ⟨hs, hlong⟩
  · exact h s q hq

theorem LongBook.positionAfter {e : PaperExecutor} (h : e.LongBook) (req : OrderRequest) (price : ℚ) :
    (e.positionAfter req price).symbol = req.symbol ∧ (e.positionAfter req price).side = .long := by
  unfold PaperExecutor.positionAfter
  cases hpos : e.positions.get? req.symbol with
  | none => exact ⟨rfl, rfl⟩
  | some pos => exact ⟨(h _ _ hpos).1, (h _ _ hpos).2⟩

theorem LongBook.bought {e : PaperExecutor} (h : e.LongBook) (req : OrderRequest) (price : ℚ) :
    (e.bought req price).LongBook := by
  obtain ⟨hsymbol, hlong⟩ := h.positionAfter req price
  refine h.set _ hlong ?_
  rw [hsymbol]
  rfl

theorem LongBook.sold {e : PaperExecutor} (h : e.LongBook) {req : OrderRequest} (price : ℚ)
    {pos : Position} (hpos : e.positions.get? req.symbol = some pos) :
    (e.sold req price pos).LongBook := by
  obtain ⟨hsymbol, hlong⟩ := h _ _ hpos
  by_cases h0 : pos.quantity - req.quantity ≤ lotEpsilon
  · intro s q hq
    simp only [PaperExecutor.sold, if_pos h0, Dict.get?_erase] at hq
    split_ifs at hq
    exact h s q hq
  · refine h.set { pos with quantity := pos.quantity - req.quantity } hlong ?_
    simp only [PaperExecutor.sold, if_neg h0, hsymbol]

theorem LongBook.placeOrder {e : PaperExecutor} (h : e.LongBook) (req : OrderRequest)
    (orderId : OrderId) (now : Time) : (e.placeOrder req orderId now).2.LongBook := by
  rcases e.placeOrder_cases req orderId now with
    ⟨r, e', -, he, -, -, hpos, -⟩ | ⟨price, -, -, -, he⟩ | ⟨price, -, -, he⟩ |
    ⟨price, pos, -, hpos, -, he⟩
  · rw [he]
    exact fun s pos hp => h s pos (by rw [← hpos]; exact hp)
  · rw [he]
    exact h
  · rw [he]
    exact h.bought req price
  · rw [he]
    exact h.sold price hpos

/-- A book reloaded from long positions. -/
theorem longBook_loadPortfolioState (e : PaperExecutor) (cash : ℚ) {positions : List Position}
    (fills : List FillRecord) (hlong : ∀ pos ∈ positions, pos.side = .long) :
    (e.loadPortfolioState cash positions fills).2.LongBook := by
  have hload : ∀ (d : Dict Symbol Position),
      (∀ s pos, d.get? s = some pos → pos.symbol = s ∧ pos.side = .long) →
      ∀ s pos, (positions.foldl (fun d p => d.set p.symbol p) d).get? s = some pos →
        pos.symbol = s ∧ pos.side = .long := by
    intro d hd
    induction positions generalizing d with
    | nil => exact hd
    | cons p ps ih =>
        refine ih (fun q hq => hlong q (List.mem_cons_of_mem _ hq)) _ fun s pos hp => ?_
        rw [Dict.get?_set] at hp
        split_ifs at hp with hs
        · cases hp
          exact ⟨hs, hlong p List.mem_cons_self⟩
        · exact hd s pos hp
  exact hload Dict.empty fun s pos h => by cases h

/-- An order leaves what is held of a symbol within its levels, when a BUY of the symbol carries
levels around the mark. -/
theorem Within.placeOrder {e : PaperExecutor} {s : Symbol} {mark : ℚ} (h : e.Within s mark)
    {req : OrderRequest} (orderId : OrderId) (now : Time)
    (hlevels : req.side = .buy → Between req.stopLoss req.takeProfit mark) :
    (e.placeOrder req orderId now).2.Within s mark := by
  rcases e.placeOrder_cases req orderId now with
    ⟨r, e', -, he, -, -, hpos, -⟩ | ⟨price, -, -, -, he⟩ | ⟨price, hside, -, he⟩ |
    ⟨price, pos, -, hpos, -, he⟩
  · rw [he]
    exact fun pos hp => h pos (by rw [← hpos]; exact hp)
  · rw [he]
    exact h
  · rw [he]
    intro q hq
    simp only [remember, bought, Dict.get?_set] at hq
    split_ifs at hq with hs
    · cases hq
      unfold positionAfter
      cases hold : e.positions.get? req.symbol with
      | none => exact hlevels hside
      | some old =>
          -- the latest plan wins level by level
          exact (hlevels hside).or (h old (by rw [← hs]; exact hold))
    · exact h q hq
  · rw [he]
    intro q hq
    simp only [remember, sold] at hq
    by_cases h0 : pos.quantity - req.quantity ≤ lotEpsilon
    · rw [if_pos h0, Dict.get?_erase] at hq
      split_ifs at hq
      exact h q hq
    · rw [if_neg h0, Dict.get?_set] at hq
      split_ifs at hq with hs
      · cases hq
        exact h pos (by rw [← hs]; exact hpos)
      · exact h q hq

end PaperExecutor

/-! ## The steps of a cycle -/

section Steps

open Pipeline

variable (p : Pipeline) {input : CycleInput} {st : PipelineState PaperExecutor}

/-- A read of the paper executor changes nothing. -/
theorem Reads.paper_eq {e e' : PaperExecutor} (h : Reads paperExecutor e e') : e' = e :=
  h.preserves (I := fun x => x = e) (fun _ h => h) (fun _ h => h) rfl

/-- The whole position is closed, whatever the close realizes. -/
theorem closeForExit_flat (hbook : st.executor.LongBook) {position : Position}
    (hmem : position ∈ st.executor.getPositions) (hsymbol : position.symbol = input.symbol)
    (mark : ℚ) (reason : ExitReason) (owner : Option String) :
    (p.closeForExit paperExecutor input position mark reason owner st).2.executor.positions.get?
      input.symbol = none := by
  obtain ⟨s, hs⟩ := (Dict.mem_values_iff _ _).mp hmem
  obtain ⟨hown, hlong⟩ := hbook s position hs
  have hpos : st.executor.positions.get? input.symbol = some position := by
    rw [← hsymbol, hown]
    exact hs
  have hε : position.quantity - position.quantity ≤ lotEpsilon := by norm_num [lotEpsilon]
  have hside : closingSide position = .sell := by simp [closingSide, hlong]
  have hidle : orderWorking paperExecutor st.executor input.symbol (closingSide position)
      = false := by
    simp [orderWorking, paperExecutor]
  unfold Pipeline.closeForExit
  rw [hidle]
  simp only [Bool.false_eq_true, if_false, closeRequest, hside, paperExecutor_placeOrder,
    PaperExecutor.placeOrder, PaperExecutor.effectivePrice, PaperExecutor.executeSell, hpos,
    lt_irrefl, recordFill_executor, PaperExecutor.remember, PaperExecutor.sold, if_pos hε,
    Dict.get?_erase, if_true]

/-- What the exit check lets through lies within its levels; what it does not is closed. -/
theorem checkExitLevels_within (hbook : st.executor.LongBook)
    (hpos : ∀ pos ∈ st.executor.getPositions, 0 < pos.quantity)
    (henforce : (st.riskEngine p).settings.enforceExitLevels = true) {mark : ℚ}
    (hmark : 0 < mark) (owner : Option String) :
    (p.checkExitLevels paperExecutor input mark owner st = (none, st) ∧
      st.executor.Within input.symbol mark) ∨
    ∃ r st', p.checkExitLevels paperExecutor input mark owner st = (some r, st') ∧
      st'.executor.positions.get? input.symbol = none := by
  have hon : ¬ ((st.riskEngine p).settings.enforceExitLevels = false ∨ mark ≤ 0) := by
    rw [henforce]
    simpa using hmark
  unfold Pipeline.checkExitLevels
  rw [if_neg hon]
  have hread : paperExecutor.getPositions st.executor
      = (.ok st.executor.getPositions, st.executor) := rfl
  simp only [hread]
  cases hfind : st.executor.getPositions.findSome? (fun q =>
      if q.symbol = input.symbol ∧ q.quantity > 0 then
        (exitLevelBreach q mark).map (fun r => (q, r))
      else none) with
  | none =>
      refine .inl ⟨rfl, fun pos hp => ?_⟩
      have hmem : pos ∈ st.executor.getPositions := (Dict.mem_values_iff _ _).mpr ⟨_, hp⟩
      obtain ⟨hown, hlong⟩ := hbook _ pos hp
      have hq := List.findSome?_eq_none_iff.mp hfind pos hmem
      rw [if_pos ⟨hown, hpos pos hmem⟩, Option.map_eq_none_iff] at hq
      exact (exitLevelBreach_eq_none_iff hlong mark).mp hq
  | some found =>
      obtain ⟨position, reason⟩ := found
      obtain ⟨q, hq, hbreach⟩ := List.exists_of_findSome?_eq_some hfind
      split_ifs at hbreach with hc
      obtain ⟨r, -, hr⟩ := Option.map_eq_some_iff.mp hbreach
      cases hr
      exact .inr ⟨_, _, rfl, closeForExit_flat p hbook hq hc.1 mark reason owner⟩

/-- The time stop leaves the book as it was or closes the symbol's position. -/
theorem checkTimeStop_flat (input : CycleInput) (hbook : st.executor.LongBook) (mark : ℚ) (fetchedAt : Time)
    (ownership : Ownership) :
    p.checkTimeStop paperExecutor input mark fetchedAt ownership st = (none, st) ∨
    ∃ r st', p.checkTimeStop paperExecutor input mark fetchedAt ownership st = (some r, st') ∧
      st'.executor.positions.get? input.symbol = none := by
  have hread : paperExecutor.getPositions st.executor
      = (.ok st.executor.getPositions, st.executor) := rfl
  unfold Pipeline.checkTimeStop
  split
  · exact .inl rfl
  · rename_i b _
    by_cases hoff : b.timeStopDue ownership fetchedAt = false ∨ mark ≤ 0
    · rw [if_pos hoff]
      exact .inl rfl
    · rw [if_neg hoff]
      simp only [hread]
      split
      · exact .inl rfl
      · rename_i position hfind
        have hc := List.find?_some hfind
        simp only [decide_eq_true_eq, gt_iff_lt] at hc
        exact .inr ⟨_, _, rfl, closeForExit_flat p hbook (List.mem_of_find?_eq_some hfind) hc.1
          mark .timeStop (some ownership.strategy)⟩

/-- A decision at the mark leaves what is held within its levels. -/
theorem within_decided {st₀ : PipelineState PaperExecutor} (hbook : st₀.executor.LongBook)
    {snapshot : MarketSnapshot} {last : OHLCV} (hsnap : input.snapshot = .ok snapshot)
    (hlast : snapshot.candles.getLast? = some last) (hmark : 0 < last.close)
    (hin : st₀.executor.Within input.symbol last.close)
    {r : PipelineResult × PipelineState PaperExecutor} (h : Effect paperExecutor p input st₀ r) :
    r.2.executor.Within input.symbol last.close := by
  rcases h with ⟨hreads, -⟩ | ⟨s, req, hsends, hex, -⟩
  · rw [hreads.paper_eq]
    exact hin
  · rw [hex, paperExecutor_placeOrder]
    cases hsends with
    | close plan =>
        have hs : plan.before = st₀.executor := plan.reads.paper_eq
        have hafter : plan.before = plan.after := (Prod.mk.inj plan.readPositions).2
        rw [← hafter, hs]
        refine hin.placeOrder _ _ fun hbuy => ?_
        -- a long position is closed with a SELL
        have hmem : plan.position ∈ st₀.executor.getPositions := by
          have hread : plan.before.getPositions = plan.positions :=
            Except.ok.inj (Prod.mk.inj plan.readPositions).1
          rw [← hs, hread]
          exact plan.mem
        obtain ⟨s', hs'⟩ := (Dict.mem_values_iff _ _).mp hmem
        have hlong := (hbook s' _ hs').2
        have hsell : plan.request.side = .sell := by
          simp [ClosePlan.request, Pipeline.closeRequest, closingSide, hlong]
        rw [hsell] at hbuy
        cases hbuy
    | signal plan =>
        have hs : plan.before = st₀.executor := plan.reads.paper_eq
        have hafter : plan.before = plan.after := (Prod.mk.inj plan.readCash).2
        rw [← hafter, hs]
        refine hin.placeOrder _ _ fun hside => ?_
        have hbuy : input.ownSignal.action = .buy := by
          by_contra hne
          have : plan.request.side = .sell := if_neg hne
          rw [this] at hside
          cases hside
        obtain ⟨snapshot', last', hsnap', hlast', hprice⟩ := plan.lastClose
        obtain rfl : snapshot = snapshot' := Except.ok.inj (hsnap.symm.trans hsnap')
        obtain rfl : last = last' := Option.some.inj (hlast.symm.trans hlast')
        have happroved := plan.approved
        rw [← hprice] at happroved
        exact between_of_approved hbuy hmark happroved

/-- **One cycle.** It ends with the symbol closed, or held within its levels at the mark. -/
theorem run_within (hbook : st.executor.LongBook)
    (hpos : ∀ pos ∈ st.executor.getPositions, 0 < pos.quantity)
    (henforce : (st.riskEngine p).settings.enforceExitLevels = true)
    {snapshot : MarketSnapshot} {last : OHLCV} (hsnap : input.snapshot = .ok snapshot)
    (hlast : snapshot.candles.getLast? = some last) (hmark : 0 < last.close) :
    (p.run paperExecutor input st).2.executor.Within input.symbol last.close := by
  have hflat : ∀ {e : PaperExecutor}, e.positions.get? input.symbol = none →
      e.Within input.symbol last.close := by
    intro e he pos hp
    rw [he] at hp
    cases hp
  let marked := markPositions paperExecutor input.symbol last.close st
  let own := sleeveOwnership paperExecutor input marked
  have hmarked : marked.executor = st.executor.updatePrice input.symbol last.close := by
    show (markPositions paperExecutor input.symbol last.close st).executor = _
    rw [markPositions, if_neg (not_le.mpr hmark)]
    rfl
  have hquiet : Quiet paperExecutor marked own.2 :=
    quiet_sleeveOwnership paperExecutor input marked
  have hown : own.2.executor = marked.executor := hquiet.reads.paper_eq
  have hbook' : own.2.executor.LongBook := by
    rw [hown, hmarked]
    exact hbook.updatePrice _ _
  have hpos' : ∀ pos ∈ own.2.executor.getPositions, 0 < pos.quantity := by
    rw [hown, hmarked]
    exact PaperExecutor.quantity_updatePrice hpos _ _
  have henforce' : (own.2.riskEngine p).settings.enforceExitLevels = true := by
    rw [hquiet.riskEngine, ← henforce]
    have : marked.riskEngine p = st.riskEngine p := by
      simp only [marked, markPositions, if_neg (not_le.mpr hmark)]
      rfl
    rw [this]
  unfold Pipeline.run
  rw [hsnap]
  dsimp only
  rw [hlast]
  dsimp only
  rcases checkExitLevels_within p hbook' hpos' henforce' hmark (ownerName own.1) with
    ⟨hlevels, hin⟩ | ⟨r, st', hlevels, hclosed⟩
  · rw [hlevels]
    dsimp only
    have hrest : (p.afterExits paperExecutor input snapshot last.close own.2).2.executor.Within
        input.symbol last.close :=
      within_decided p hbook' hsnap hlast hmark hin
        (outcome_afterExits paperExecutor p (Quiet.refl _ _) hsnap hlast none).effect
    split
    · exact hin
    · exact hrest
    · rename_i o _
      rcases checkTimeStop_flat p input hbook' last.close snapshot.fetchedAt o with
        hstop | ⟨r, st', hstop, hclosed⟩
      · rw [hstop]
        dsimp only
        split_ifs
        · exact hin
        · exact hrest
      · rw [hstop]
        exact hflat hclosed
  · rw [hlevels]
    exact hflat hclosed

end Steps

/-! ## Every state of a paper agent -/

/-- The states of a paper agent: a new portfolio or one reloaded from stored positions, and from
there cycles, closes of everything, and whatever leaves the positions alone (overrides, resets of
the engines, allocations of the sleeves). -/
inductive PaperReachable : PipelineState PaperExecutor → Prop where
  | start (cash : ℚ) (costs : CostModel) (engine : RiskEngine) (book : Option SleeveBook) :
      PaperReachable (paperStart cash costs engine book)
  | reload {st : PipelineState PaperExecutor} (cash : ℚ) {positions : List Position}
      (fills : List FillRecord) (hlong : ∀ pos ∈ positions, pos.side = .long) :
      PaperReachable { st with
        executor := (st.executor.loadPortfolioState cash positions fills).2 }
  | cycle {st : PipelineState PaperExecutor} (h : PaperReachable st) (p : Pipeline)
      (input : CycleInput) : PaperReachable (p.run paperExecutor input st).2
  | closeAll {st : PipelineState PaperExecutor} (h : PaperReachable st) (p : Pipeline)
      (read : MetaRead) (stamps : ℕ → Stamp) (outcomeNow : Time) :
      PaperReachable (p.closeAllPositions paperExecutor read stamps outcomeNow st).2
  | aside {st st' : PipelineState PaperExecutor} (h : PaperReachable st)
      (hsame : st'.executor.positions = st.executor.positions) : PaperReachable st'

theorem PaperReachable.longBook {st : PipelineState PaperExecutor} (h : PaperReachable st) :
    st.executor.LongBook := by
  induction h with
  | start cash costs engine book => exact PaperExecutor.longBook_create cash costs
  | reload cash fills hlong => exact PaperExecutor.longBook_loadPortfolioState _ cash fills hlong
  | cycle _ p input ih =>
      exact p.run_preserves (I := PaperExecutor.LongBook) paperExecutor (fun _ h => h) (fun _ h => h)
        (fun _ s price _ h => h.updatePrice s price) (fun _ req stamp _ h => h.placeOrder req _ _)
        (fun plan h => h.placeOrder _ _ _) ih
  | closeAll _ p read stamps outcomeNow ih =>
      exact p.closeAllPositions_preserves (I := PaperExecutor.LongBook) paperExecutor
        (fun _ h => h) (fun _ req stamp _ h => h.placeOrder req _ _) read stamps outcomeNow _ ih
  | aside _ hsame ih =>
      intro s pos hp
      rw [hsame] at hp
      exact ih s pos hp

end SmartyTrader
